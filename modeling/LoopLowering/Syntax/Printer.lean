import LoopLowering.Syntax.Tree

namespace LoopLowering

/-!
# Source text of a program

Programs are written back as source text: one statement to a line, nested
statements four columns further in, and parentheses only where the binding
strengths of operators need them.
-/

mutual

/-- The text of a written type. -/
def TypeExpr.text :
    TypeExpr → String
  | .named _ name => name
  | .generic _ name args => name ++ "<" ++ String.intercalate ", " (TypeExpr.textAll args) ++ ">"
  | .array _ component => component.text ++ "[]"
  | .wildcard _ => "?"
  | .wildcardExtends _ bound => "? extends " ++ bound.text

/-- The texts of written types. -/
def TypeExpr.textAll :
    List TypeExpr → List String
  | [] => []
  | type :: rest => type.text :: TypeExpr.textAll rest

end

/-- How a character is written inside a string literal. -/
def literalChar :
    Char → String
  | '\\' => "\\\\"
  | '\"' => "\\\""
  | '\n' => "\\n"
  | '\r' => "\\r"
  | '\t' => "\\t"
  | other => other.toString

/-- The text of a string literal. -/
def literalText
    (value : String) :
    String :=
  "\"" ++ String.join (value.toList.map literalChar) ++ "\""

/-- A receiver binds tighter than any binary operator. -/
def receiverPrecedence :
    Nat :=
  10

/-- Put parentheses around a text that needs them. -/
def parenthesized
    (needed : Bool)
    (text : String) :
    String :=
  if needed then "(" ++ text ++ ")" else text

mutual

/-- The text of an expression in a place that demands a binding strength. A
right operand demands more than its operator, so operators group to the left. -/
def Expr.textIn
    (demanded : Nat) :
    Expr → String
  | .intLit _ value => toString value.toInt
  | .boolLit _ value => if value then "true" else "false"
  | .stringLit _ value => literalText value
  | .null _ => "null"
  | .name _ ref => ref.name
  | .newArray _ component elements =>
      "new " ++ component.text ++ "[] \x7b" ++ String.intercalate ", " (Expr.textAll elements) ++
        "\x7d"
  | .binary _ op left right =>
      parenthesized (decide (op.precedence < demanded))
        (left.textIn op.precedence ++ " " ++ op.symbol ++ " " ++
          right.textIn (op.precedence + 1))
  | .assign _ target op value =>
      parenthesized (decide (0 < demanded))
        (target.node.name ++ " " ++ (op.map BinOp.symbol).getD "" ++ "= " ++ value.textIn 0)
  | .call _ function args =>
      function.node ++ "(" ++ String.intercalate ", " (Expr.textAll args) ++ ")"
  | .methodCall _ receiver method args =>
      receiver.textIn receiverPrecedence ++ "." ++ method.node ++
        "(" ++ String.intercalate ", " (Expr.textAll args) ++ ")"

/-- The texts of expressions that stand on their own. -/
def Expr.textAll :
    List Expr → List String
  | [] => []
  | expr :: rest => expr.textIn 0 :: Expr.textAll rest

end

/-- The text of an expression that stands on its own. -/
def Expr.text
    (expr : Expr) :
    String :=
  expr.textIn 0

/-- The blanks before a line at a depth of nesting. -/
def indentation
    (depth : Nat) :
    String :=
  String.join (List.replicate depth "    ")

/-- The text of a local declaration, without its semicolon. -/
def LocalDecl.text
    (decl : LocalDecl) :
    String :=
  (if decl.isFinal then "final " else "") ++ decl.type.text ++ " " ++ decl.name.node ++
    match decl.initial with
    | some value => " = " ++ value.text
    | none => ""

/-- The text of a jump, without its semicolon. -/
def jumpText
    (keyword : String)
    (label : Option (Spanned String)) :
    String :=
  match label with
  | some name => keyword ++ " " ++ name.node
  | none => keyword

/-- What stands between a governing statement and its body: a block stays on
the line, and anything else goes on a line of its own, one level deeper. -/
def Stmt.bodyLead
    (depth : Nat)
    (body : Stmt) :
    String :=
  if body.isBlock then " " else "\n" ++ indentation (depth + 1)

/-- The depth at which the body of a governing statement is written. -/
def Stmt.bodyDepth
    (depth : Nat)
    (body : Stmt) :
    Nat :=
  if body.isBlock then depth else depth + 1

/-- What stands between the first branch of a conditional and its second. -/
def Stmt.elseLead
    (depth : Nat)
    (thenBranch : Stmt) :
    String :=
  if thenBranch.isBlock then " else" else "\n" ++ indentation depth ++ "else"

mutual

/-- The text of a statement at a depth of nesting, without the blanks before
its first line. -/
def Stmt.textAt
    (depth : Nat) :
    Stmt → String
  | .localVar _ decl => decl.text ++ ";"
  | .expr _ value => value.text ++ ";"
  | .block _ stmts _ => "\x7b\n" ++ Stmt.linesAt (depth + 1) stmts ++ indentation depth ++ "\x7d"
  | .branch _ condition thenBranch none =>
      "if (" ++ condition.text ++ ")" ++
        thenBranch.bodyLead depth ++ thenBranch.textAt (thenBranch.bodyDepth depth)
  | .branch _ condition thenBranch (some elseBranch) =>
      "if (" ++ condition.text ++ ")" ++
        thenBranch.bodyLead depth ++ thenBranch.textAt (thenBranch.bodyDepth depth) ++
        thenBranch.elseLead depth ++
        elseBranch.bodyLead depth ++ elseBranch.textAt (elseBranch.bodyDepth depth)
  | .forEach _ element collection none _ =>
      "for (" ++ element.text ++ " : " ++ collection.text ++ ") ;"
  | .forEach _ element collection (some action) _ =>
      "for (" ++ element.text ++ " : " ++ collection.text ++ ")" ++
        action.bodyLead depth ++ action.textAt (action.bodyDepth depth)
  | .labeled _ label body => label.node ++ ": " ++ body.textAt depth
  | .breakTo _ label => jumpText "break" label ++ ";"
  | .continueTo _ label => jumpText "continue" label ++ ";"
  | .returnWith _ none => "return;"
  | .returnWith _ (some value) => "return " ++ value.text ++ ";"
  | .empty _ => ";"

/-- Statements at a depth of nesting, each on lines of its own. -/
def Stmt.linesAt
    (depth : Nat) :
    List Stmt → String
  | [] => ""
  | stmt :: rest => indentation depth ++ stmt.textAt depth ++ "\n" ++ Stmt.linesAt depth rest

end

/-- The text of a statement that stands on its own. -/
def Stmt.text
    (stmt : Stmt) :
    String :=
  stmt.textAt 0

/-- The text of a type parameter. -/
def TypeParam.text
    (param : TypeParam) :
    String :=
  match param.bound with
  | some bound => param.name ++ " extends " ++ bound.text
  | none => param.name

/-- The text of a method parameter. -/
def Param.text
    (param : Param) :
    String :=
  (if param.isFinal then "final " else "") ++ param.type.text ++ " " ++ param.name.node

/-- The text of a method. -/
def Method.text
    (method : Method) :
    String :=
  (if method.typeParams.isEmpty then ""
    else "<" ++ String.intercalate ", " (method.typeParams.map TypeParam.text) ++ "> ") ++
    ((method.returnType.map TypeExpr.text).getD "void") ++ " " ++ method.name.node ++
    "(" ++ String.intercalate ", " (method.params.map Param.text) ++ ") \x7b\n" ++
    Stmt.linesAt 1 method.body.stmts ++ "\x7d"

/-- The methods of a unit, separated by blank lines. -/
def CompilationUnit.text
    (unit : CompilationUnit) :
    String :=
  String.intercalate "\n\n" (unit.methods.map (fun method => method.node.text))

end LoopLowering
