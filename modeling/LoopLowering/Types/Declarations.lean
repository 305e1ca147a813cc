import LoopLowering.Types.Builtins
import LoopLowering.Types.Resolve

namespace LoopLowering

/-!
# The class table of a unit

The classes of a unit are announced by name first, so that declarations may
refer to each other, and then defined in the order they are written. Its
functions come last and belong to the unit.
-/

/-- What is wrong with the declarations of a unit. -/
inductive DeclarationProblem where
  | alreadyDefined (name : String)
  | unresolved (cause : TypeError)
  deriving Repr, DecidableEq

/-- A problem with a declaration, and where it is. -/
structure DeclarationError where
  problem : DeclarationProblem
  span : Span
  deriving Repr, DecidableEq

namespace DeclarationError

/-- The text of a declaration error. -/
def message
    (error : DeclarationError) :
    String :=
  match error.problem with
  | .alreadyDefined name => "The type " ++ name ++ " is already defined"
  | .unresolved cause => cause.message

end DeclarationError

namespace ClassTable

/-- Resolve a type in a declaration. -/
def resolveDeclared
    (table : ClassTable)
    (typeVars : NameTable Ty)
    (type : TypeExpr) :
    Except DeclarationError Ty :=
  match table.resolve typeVars type with
  | .ok ty => .ok ty
  | .error cause => .error ⟨.unresolved cause, type.span⟩

/-- Resolve the types of a declaration in turn. -/
def resolveDeclaredAll
    (table : ClassTable)
    (typeVars : NameTable Ty) :
    List TypeExpr → Except DeclarationError (List Ty)
  | [] => .ok []
  | type :: rest => do
      let ty ← table.resolveDeclared typeVars type
      let tys ← table.resolveDeclaredAll typeVars rest
      return ty :: tys

/-- Resolve a result type, which is void when none is written. -/
def resolveReturn
    (table : ClassTable)
    (typeVars : NameTable Ty) :
    Option TypeExpr → Except DeclarationError Ty
  | some type => table.resolveDeclared typeVars type
  | none => .ok .void

/-- Resolve a signature. -/
def resolveSignature
    (table : ClassTable)
    (typeVars : NameTable Ty)
    (params : List TypeExpr)
    (returnType : Option TypeExpr) :
    Except DeclarationError Signature := do
  let params ← table.resolveDeclaredAll typeVars params
  let returnType ← table.resolveReturn typeVars returnType
  return ⟨params, returnType⟩

/-- Resolve type parameters; a bound may refer to the parameters before it. -/
def resolveTypeParams
    (table : ClassTable)
    (typeVars : NameTable Ty) :
    List TypeParam → Except DeclarationError (List TypeVariable)
  | [] => .ok []
  | param :: rest => do
      let bound ←
        match param.bound with
        | some bound => table.resolveDeclared typeVars bound
        | none => .ok .object
      let following ← table.resolveTypeParams (typeVars.insert param.name bound) rest
      return ⟨param.name, bound⟩ :: following

/-- Resolve the methods of a class. -/
def resolveMethods
    (table : ClassTable)
    (typeVars : NameTable Ty) :
    List MethodSignature → Except DeclarationError (List (String × Signature))
  | [] => .ok []
  | method :: rest => do
      let signature ← table.resolveSignature typeVars method.params method.returnType
      let methods ← table.resolveMethods typeVars rest
      return (method.name, signature) :: methods

/-- The superclass of a declaration: a class that names none extends the root
class, and an interface extends nothing. -/
def resolveSuperclass
    (table : ClassTable)
    (typeVars : NameTable Ty)
    (decl : ClassDecl) :
    Except DeclarationError (Option Ty) :=
  match decl.superclass with
  | some type => (table.resolveDeclared typeVars type).map some
  | none => .ok (if decl.isInterface then none else some .object)

/-- Announce the name of a class. -/
def announce
    (decl : ClassDecl)
    (table : ClassTable) :
    Except DeclarationError ClassTable :=
  if table.classes.contains decl.name.node then
    .error ⟨.alreadyDefined decl.name.node, decl.name.span⟩
  else
    .ok (table.addClass (.announced decl.name.node decl.isInterface))

/-- Define a class that has been announced. -/
def define
    (decl : ClassDecl)
    (table : ClassTable) :
    Except DeclarationError ClassTable := do
  let typeParams ← table.resolveTypeParams [] decl.typeParams
  let typeVars := NameTable.ofList (typeParams.map (fun param => (param.name, param.bound)))
  let superclass ← table.resolveSuperclass typeVars decl
  let interfaces ← table.resolveDeclaredAll typeVars decl.interfaces
  let methods ← table.resolveMethods typeVars decl.methods
  return table.addClass {
    name := decl.name.node
    internalName := decl.name.node
    typeParams := typeParams
    isInterface := decl.isInterface
    superclass := superclass
    interfaces := interfaces
    methods := .ofList methods
  }

/-- Declare a static function. -/
def declareFunction
    (decl : FunctionDecl)
    (table : ClassTable) :
    Except DeclarationError ClassTable := do
  let signature ← table.resolveSignature [] decl.params decl.returnType
  return table.addFunction decl.name.node signature

/-- Make the declarations of a list in turn; the first failure is reported. -/
def declareAll
    (declare : α → ClassTable → Except DeclarationError ClassTable) :
    List α → ClassTable → Except DeclarationError ClassTable
  | [], table => .ok table
  | decl :: rest, table => do
      let table ← declare decl table
      declareAll declare rest table

/-- The builtin classes with the classes and functions of a unit. -/
def ofUnit
    (unit : CompilationUnit) :
    Except DeclarationError ClassTable := do
  let classes := unit.classes.map Spanned.node
  let table ← declareAll announce classes { builtin with owner := unit.name }
  let table ← declareAll define classes table
  declareAll declareFunction (unit.functions.map Spanned.node) table

end ClassTable

end LoopLowering
