import LoopLowering.Json.Shape
import LoopLowering.Syntax.Tree

namespace LoopLowering

/-!
# The JSON form of programs

Each statement, expression, type and declaration has a JSON form. A node with
a position is an object of the node and its span, and a choice between forms
is a tagged value. Writing gives every member; reading fills in members that
are left out, ignores members it does not know, and leaves everything the
passes record at its initial value.
-/

open Json (Shaped required optional defaulted nullable listOf)

/-! ## Positions -/

/-- The JSON form of a range. -/
def Span.toJson
    (span : Span) :
    Json :=
  .object [("start", .int span.start), ("end", .int span.stop)]

/-- Read a range. -/
def Span.ofJson
    (json : Json) :
    Shaped Span := do
  let members ← json.members
  let start ← (← required "start" members).asOffset
  let stop ← (← required "end" members).asOffset
  return ⟨start, stop⟩

/-- The JSON form of a node with a position. -/
def placedJson
    (span : Span)
    (node : Json) :
    Json :=
  .object [("node", node), ("span", span.toJson)]

/-- Read a node with a position; a position left out was never recorded. -/
def readPlaced
    (readNode : Span → Json → Shaped α)
    (json : Json) :
    Shaped α := do
  let members ← json.members
  let node ← required "node" members
  let span ← defaulted "span" Span.absent Span.ofJson members
  readNode span node

/-- The JSON form of a value that may be absent. -/
def optionJson
    (write : α → Json) :
    Option α → Json
  | some value => write value
  | none => .null

/-- The JSON form of a tagged value. -/
def taggedJson
    (tag : String)
    (payload : Json) :
    Json :=
  .object [(tag, payload)]

/-- The JSON form of a name with a position. -/
def nameJson
    (name : Spanned String) :
    Json :=
  placedJson name.span (.string name.node)

/-- Read a name with a position. -/
def readName
    (json : Json) :
    Shaped (Spanned String) :=
  readPlaced (fun span node => return ⟨← node.asString, span⟩) json

/-! ## Operators -/

namespace BinOp

/-- The tag of an operator. -/
def tag :
    BinOp → String
  | add => "Add"
  | sub => "Sub"
  | mul => "Mul"
  | lt => "Lt"
  | le => "Le"
  | gt => "Gt"
  | ge => "Ge"
  | eq => "Eq"
  | ne => "Ne"

/-- Every operator, once. -/
def all :
    List BinOp :=
  [add, sub, mul, lt, le, gt, ge, eq, ne]

/-- The JSON form of an operator. -/
def toJson
    (op : BinOp) :
    Json :=
  .string op.tag

/-- Read an operator. -/
def ofJson
    (json : Json) :
    Shaped BinOp := do
  let variant ← json.variant
  match all.find? (fun op => op.tag == variant.tag) with
  | some op => variant.bare op
  | none => throw (.unknownVariant variant.tag)

end BinOp

/-! ## Types -/

namespace TypeExpr

mutual

/-- The JSON form of a written type with its position. -/
def toJson :
    TypeExpr → Json
  | .named span name => placedJson span (taggedJson "Named" (.string name))
  | .generic span name args =>
      placedJson span (taggedJson "Generic"
        (.object [("name", .string name), ("args", .array (toJsonAll args))]))
  | .array span component => placedJson span (taggedJson "Array" component.toJson)
  | .wildcard span => placedJson span (taggedJson "Wildcard" (.object [("bound", .null)]))
  | .wildcardExtends span bound =>
      placedJson span (taggedJson "Wildcard" (.object [("bound", bound.toJson)]))

/-- The JSON forms of written types. -/
def toJsonAll :
    List TypeExpr → List Json
  | [] => []
  | type :: rest => type.toJson :: toJsonAll rest

end

/-- Read a written type without its position, to a limited depth. -/
def ofNodeWithin :
    Nat → Span → Json → Shaped TypeExpr
  | 0, _, _ => .error .tooDeep
  | fuel + 1, span, json => do
      let variant ← json.variant
      match variant.tag with
      | "Named" => return .named span (← (← variant.payload).asString)
      | "Generic" =>
          let members ← variant.members
          let name ← (← required "name" members).asString
          let args ← listOf (readPlaced (ofNodeWithin fuel)) (← required "args" members)
          return .generic span name args
      | "Array" => return .array span (← readPlaced (ofNodeWithin fuel) (← variant.payload))
      | "Wildcard" =>
          match ← optional "bound" (readPlaced (ofNodeWithin fuel)) (← variant.members) with
          | some bound => return .wildcardExtends span bound
          | none => return .wildcard span
      | other => throw (.unknownVariant other)

/-- Read a written type without its position. -/
def ofNode
    (span : Span)
    (json : Json) :
    Shaped TypeExpr :=
  ofNodeWithin (json.depth + 1) span json

/-- Read a written type with its position. -/
def ofJson
    (json : Json) :
    Shaped TypeExpr :=
  readPlaced ofNode json

end TypeExpr

/-! ## Expressions -/

namespace NameRef

/-- The JSON form of a use of a name. -/
def toJson
    (ref : NameRef) :
    Json :=
  .object [("name", .string ref.name)]

/-- Read a use of a name. -/
def ofJson
    (json : Json) :
    Shaped NameRef := do
  return .unbound (← (← required "name" (← json.members)).asString)

end NameRef

namespace Expr

mutual

/-- The JSON form of an expression with its position. -/
def toJson :
    Expr → Json
  | .intLit span value => placedJson span (taggedJson "IntLit" (.int value.toInt))
  | .boolLit span value => placedJson span (taggedJson "BoolLit" (.bool value))
  | .stringLit span value => placedJson span (taggedJson "StringLit" (.string value))
  | .null span => placedJson span (.string "Null")
  | .name span ref => placedJson span (taggedJson "Name" ref.toJson)
  | .newArray span component elements =>
      placedJson span (taggedJson "NewArray"
        (.object [("elem", component.toJson), ("elements", .array (toJsonAll elements))]))
  | .binary span op left right =>
      placedJson span (taggedJson "Binary"
        (.object [("op", op.toJson), ("lhs", left.toJson), ("rhs", right.toJson)]))
  | .assign span target op value =>
      placedJson span (taggedJson "Assign"
        (.object [("target", placedJson target.span target.node.toJson),
          ("op", optionJson BinOp.toJson op), ("value", value.toJson)]))
  | .call span function args =>
      placedJson span (taggedJson "Call"
        (.object [("name", nameJson function), ("args", .array (toJsonAll args))]))
  | .methodCall span receiver method args =>
      placedJson span (taggedJson "MethodCall"
        (.object [("receiver", receiver.toJson), ("method", nameJson method),
          ("args", .array (toJsonAll args))]))

/-- The JSON forms of expressions. -/
def toJsonAll :
    List Expr → List Json
  | [] => []
  | expr :: rest => expr.toJson :: toJsonAll rest

end

/-- Read an expression without its position, to a limited depth. -/
def ofNodeWithin :
    Nat → Span → Json → Shaped Expr
  | 0, _, _ => .error .tooDeep
  | fuel + 1, span, json => do
      let variant ← json.variant
      match variant.tag with
      | "IntLit" => return .intLit span (← (← variant.payload).asInt32)
      | "BoolLit" => return .boolLit span (← (← variant.payload).asBool)
      | "StringLit" => return .stringLit span (← (← variant.payload).asString)
      | "Null" => variant.bare (.null span)
      | "Name" => return .name span (← NameRef.ofJson (← variant.payload))
      | "NewArray" =>
          let members ← variant.members
          let component ← TypeExpr.ofJson (← required "elem" members)
          let elements ← listOf (readPlaced (ofNodeWithin fuel)) (← required "elements" members)
          return .newArray span component elements
      | "Binary" =>
          let members ← variant.members
          let op ← BinOp.ofJson (← required "op" members)
          let left ← readPlaced (ofNodeWithin fuel) (← required "lhs" members)
          let right ← readPlaced (ofNodeWithin fuel) (← required "rhs" members)
          return .binary span op left right
      | "Assign" =>
          let members ← variant.members
          let target ← readPlaced (fun place node => return ⟨← NameRef.ofJson node, place⟩)
            (← required "target" members)
          let op ← optional "op" BinOp.ofJson members
          let value ← readPlaced (ofNodeWithin fuel) (← required "value" members)
          return .assign span target op value
      | "Call" =>
          let members ← variant.members
          let function ← readName (← required "name" members)
          let args ← listOf (readPlaced (ofNodeWithin fuel)) (← required "args" members)
          return .call span function args
      | "MethodCall" =>
          let members ← variant.members
          let receiver ← readPlaced (ofNodeWithin fuel) (← required "receiver" members)
          let method ← readName (← required "method" members)
          let args ← listOf (readPlaced (ofNodeWithin fuel)) (← required "args" members)
          return .methodCall span receiver method args
      | other => throw (.unknownVariant other)

/-- Read an expression without its position. -/
def ofNode
    (span : Span)
    (json : Json) :
    Shaped Expr :=
  ofNodeWithin (json.depth + 1) span json

/-- Read an expression with its position. -/
def ofJson
    (json : Json) :
    Shaped Expr :=
  readPlaced ofNode json

end Expr

/-! ## Statements -/

namespace LocalDecl

/-- The JSON form of a local declaration. -/
def toJson
    (decl : LocalDecl) :
    Json :=
  .object [("name", nameJson decl.name), ("ty", decl.type.toJson),
    ("init", optionJson Expr.toJson decl.initial), ("is_final", .bool decl.isFinal)]

/-- Read a local declaration. -/
def ofJson
    (json : Json) :
    Shaped LocalDecl := do
  let members ← json.members
  let name ← readName (← required "name" members)
  let type ← TypeExpr.ofJson (← required "ty" members)
  let initial ← optional "init" Expr.ofJson members
  let isFinal ← defaulted "is_final" false Json.asBool members
  return ⟨name, type, initial, isFinal, none⟩

end LocalDecl

namespace Stmt

mutual

/-- The JSON form of a statement with its position. -/
def toJson :
    Stmt → Json
  | .localVar span decl => placedJson span (taggedJson "Local" decl.toJson)
  | .expr span value => placedJson span (taggedJson "Expr" value.toJson)
  | .block span stmts _ =>
      placedJson span (taggedJson "Block" (.object [("stmts", .array (toJsonAll stmts))]))
  | .branch span condition thenBranch none =>
      placedJson span (taggedJson "If"
        (.object [("condition", condition.toJson), ("then_branch", thenBranch.toJson),
          ("else_branch", .null)]))
  | .branch span condition thenBranch (some elseBranch) =>
      placedJson span (taggedJson "If"
        (.object [("condition", condition.toJson), ("then_branch", thenBranch.toJson),
          ("else_branch", elseBranch.toJson)]))
  | .forEach span element collection none _ =>
      placedJson span (taggedJson "Foreach"
        (.object [("element", element.toJson), ("collection", collection.toJson),
          ("action", .null)]))
  | .forEach span element collection (some action) _ =>
      placedJson span (taggedJson "Foreach"
        (.object [("element", element.toJson), ("collection", collection.toJson),
          ("action", action.toJson)]))
  | .labeled span label body =>
      placedJson span (taggedJson "Labeled"
        (.object [("label", nameJson label), ("body", body.toJson)]))
  | .breakTo span label => placedJson span (taggedJson "Break" (optionJson nameJson label))
  | .continueTo span label => placedJson span (taggedJson "Continue" (optionJson nameJson label))
  | .returnWith span value => placedJson span (taggedJson "Return" (optionJson Expr.toJson value))
  | .empty span => placedJson span (.string "Empty")

/-- The JSON forms of statements. -/
def toJsonAll :
    List Stmt → List Json
  | [] => []
  | stmt :: rest => stmt.toJson :: toJsonAll rest

end

/-- Read a statement without its position, to a limited depth. -/
def ofNodeWithin :
    Nat → Span → Json → Shaped Stmt
  | 0, _, _ => .error .tooDeep
  | fuel + 1, span, json => do
      let variant ← json.variant
      match variant.tag with
      | "Local" => return .localVar span (← LocalDecl.ofJson (← variant.payload))
      | "Expr" => return .expr span (← Expr.ofJson (← variant.payload))
      | "Block" =>
          let members ← variant.members
          let stmts ← listOf (readPlaced (ofNodeWithin fuel)) (← required "stmts" members)
          return .block span stmts .initial
      | "If" =>
          let members ← variant.members
          let condition ← Expr.ofJson (← required "condition" members)
          let thenBranch ← readPlaced (ofNodeWithin fuel) (← required "then_branch" members)
          let elseBranch ← optional "else_branch" (readPlaced (ofNodeWithin fuel)) members
          return .branch span condition thenBranch elseBranch
      | "Foreach" =>
          let members ← variant.members
          let element ← LocalDecl.ofJson (← required "element" members)
          let collection ← Expr.ofJson (← required "collection" members)
          let action ← optional "action" (readPlaced (ofNodeWithin fuel)) members
          return .forEach span element collection action .initial
      | "Labeled" =>
          let members ← variant.members
          let label ← readName (← required "label" members)
          let body ← readPlaced (ofNodeWithin fuel) (← required "body" members)
          return .labeled span label body
      | "Break" => return .breakTo span (← nullable readName (← variant.payload))
      | "Continue" => return .continueTo span (← nullable readName (← variant.payload))
      | "Return" => return .returnWith span (← nullable Expr.ofJson (← variant.payload))
      | "Empty" => variant.bare (.empty span)
      | other => throw (.unknownVariant other)

/-- Read a statement without its position. -/
def ofNode
    (span : Span)
    (json : Json) :
    Shaped Stmt :=
  ofNodeWithin (json.depth + 1) span json

/-- Read a statement with its position. -/
def ofJson
    (json : Json) :
    Shaped Stmt :=
  readPlaced ofNode json

end Stmt

namespace Block

/-- The JSON form of a body with its position. -/
def toJson
    (block : Block) :
    Json :=
  placedJson block.span (.object [("stmts", .array (block.stmts.map Stmt.toJson))])

/-- Read a body with its position. -/
def ofJson
    (json : Json) :
    Shaped Block :=
  readPlaced (fun span node => do
    let stmts ← listOf Stmt.ofJson (← required "stmts" (← node.members))
    return ⟨span, stmts, .initial⟩) json

end Block

/-! ## Declarations -/

/-- The JSON form of a list of values. -/
def listJson
    (write : α → Json)
    (values : List α) :
    Json :=
  .array (values.map write)

namespace TypeParam

/-- The JSON form of a type parameter. -/
def toJson
    (param : TypeParam) :
    Json :=
  .object [("name", .string param.name), ("bound", optionJson TypeExpr.toJson param.bound)]

/-- Read a type parameter. -/
def ofJson
    (json : Json) :
    Shaped TypeParam := do
  let members ← json.members
  let name ← (← required "name" members).asString
  let bound ← optional "bound" TypeExpr.ofJson members
  return ⟨name, bound⟩

end TypeParam

namespace Param

/-- The JSON form of a method parameter. -/
def toJson
    (param : Param) :
    Json :=
  .object [("name", nameJson param.name), ("ty", param.type.toJson),
    ("is_final", .bool param.isFinal)]

/-- Read a method parameter. -/
def ofJson
    (json : Json) :
    Shaped Param := do
  let members ← json.members
  let name ← readName (← required "name" members)
  let type ← TypeExpr.ofJson (← required "ty" members)
  let isFinal ← defaulted "is_final" false Json.asBool members
  return ⟨name, type, isFinal, none⟩

end Param

namespace Method

/-- The JSON form of a method. -/
def toJson
    (method : Method) :
    Json :=
  .object [("name", nameJson method.name),
    ("type_params", listJson TypeParam.toJson method.typeParams),
    ("params", listJson Param.toJson method.params),
    ("return_type", optionJson TypeExpr.toJson method.returnType),
    ("body", method.body.toJson)]

/-- Read a method. -/
def ofJson
    (json : Json) :
    Shaped Method := do
  let members ← json.members
  let name ← readName (← required "name" members)
  let typeParams ← defaulted "type_params" [] (listOf TypeParam.ofJson) members
  let params ← defaulted "params" [] (listOf Param.ofJson) members
  let returnType ← optional "return_type" TypeExpr.ofJson members
  let body ← Block.ofJson (← required "body" members)
  return ⟨name, typeParams, params, returnType, body⟩

end Method

namespace MethodSignature

/-- The JSON form of a method signature. -/
def toJson
    (signature : MethodSignature) :
    Json :=
  .object [("name", .string signature.name),
    ("params", listJson TypeExpr.toJson signature.params),
    ("return_type", optionJson TypeExpr.toJson signature.returnType)]

/-- Read a method signature. -/
def ofJson
    (json : Json) :
    Shaped MethodSignature := do
  let members ← json.members
  let name ← (← required "name" members).asString
  let params ← defaulted "params" [] (listOf TypeExpr.ofJson) members
  let returnType ← optional "return_type" TypeExpr.ofJson members
  return ⟨name, params, returnType⟩

end MethodSignature

namespace ClassDecl

/-- The JSON form of a class declaration. -/
def toJson
    (decl : ClassDecl) :
    Json :=
  .object [("name", nameJson decl.name),
    ("type_params", listJson TypeParam.toJson decl.typeParams),
    ("is_interface", .bool decl.isInterface),
    ("superclass", optionJson TypeExpr.toJson decl.superclass),
    ("interfaces", listJson TypeExpr.toJson decl.interfaces),
    ("methods", listJson MethodSignature.toJson decl.methods)]

/-- Read a class declaration. -/
def ofJson
    (json : Json) :
    Shaped ClassDecl := do
  let members ← json.members
  let name ← readName (← required "name" members)
  let typeParams ← defaulted "type_params" [] (listOf TypeParam.ofJson) members
  let isInterface ← defaulted "is_interface" false Json.asBool members
  let superclass ← optional "superclass" TypeExpr.ofJson members
  let interfaces ← defaulted "interfaces" [] (listOf TypeExpr.ofJson) members
  let methods ← defaulted "methods" [] (listOf MethodSignature.ofJson) members
  return ⟨name, typeParams, isInterface, superclass, interfaces, methods⟩

end ClassDecl

namespace FunctionDecl

/-- The JSON form of a function declaration. -/
def toJson
    (decl : FunctionDecl) :
    Json :=
  .object [("name", nameJson decl.name),
    ("params", listJson TypeExpr.toJson decl.params),
    ("return_type", optionJson TypeExpr.toJson decl.returnType)]

/-- Read a function declaration. -/
def ofJson
    (json : Json) :
    Shaped FunctionDecl := do
  let members ← json.members
  let name ← readName (← required "name" members)
  let params ← defaulted "params" [] (listOf TypeExpr.ofJson) members
  let returnType ← optional "return_type" TypeExpr.ofJson members
  return ⟨name, params, returnType⟩

end FunctionDecl

/-- The JSON form of a declaration with its position. -/
def Spanned.toJson
    (write : α → Json)
    (value : Spanned α) :
    Json :=
  placedJson value.span (write value.node)

/-- Read a declaration with its position. -/
def Spanned.ofJson
    (read : Json → Shaped α)
    (json : Json) :
    Shaped (Spanned α) :=
  readPlaced (fun span node => return ⟨← read node, span⟩) json

namespace CompilationUnit

/-- The JSON form of a unit; a source text that is not there is left out. -/
def toJson
    (unit : CompilationUnit) :
    Json :=
  .object ([("name", .string unit.name)] ++
    (unit.source.map (fun text => ("source", .string text))).toList ++
    [("classes", listJson (Spanned.toJson ClassDecl.toJson) unit.classes),
      ("functions", listJson (Spanned.toJson FunctionDecl.toJson) unit.functions),
      ("methods", listJson (Spanned.toJson Method.toJson) unit.methods)])

/-- Read a unit. -/
def ofJson
    (json : Json) :
    Shaped CompilationUnit := do
  let members ← json.members
  let name ← (← required "name" members).asString
  let source ← optional "source" Json.asString members
  let classes ← defaulted "classes" [] (listOf (Spanned.ofJson ClassDecl.ofJson)) members
  let functions ← defaulted "functions" [] (listOf (Spanned.ofJson FunctionDecl.ofJson)) members
  let methods ← defaulted "methods" [] (listOf (Spanned.ofJson Method.ofJson)) members
  return ⟨name, source, classes, functions, methods⟩

end CompilationUnit

end LoopLowering
