import LoopLowering.Syntax.Tree
import LoopLowering.Types.ClassTable

namespace LoopLowering

/-!
# Resolving written types

A written type is resolved against the type variables in scope and a class
table. A primitive type's keyword comes before a variable, and a variable
before a class.
-/

/-- Why a written type does not resolve. -/
inductive TypeError where
  | notFound (name : String)
  /-- The number of arguments is not that of the class's parameters. -/
  | wrongArity (name : String) (params : List String)
  | primitiveArgument (ty : Ty)
  deriving Repr, DecidableEq

namespace TypeError

/-- The text of a type error. -/
def message :
    TypeError → String
  | .notFound name => name ++ " cannot be resolved to a type"
  | .wrongArity name params =>
      "Incorrect number of arguments for type " ++ name ++ "<" ++
        String.intercalate "," params ++
        ">; it cannot be parameterized with arguments of this arity"
  | .primitiveArgument ty =>
      "Syntax error, insert \"Dimensions\" to complete ReferenceType: " ++ ty.text

end TypeError

namespace ClassTable

/-- Resolve a name that has no type arguments. -/
def resolveName
    (table : ClassTable)
    (typeVars : NameTable Ty)
    (name : String) :
    Except TypeError Ty :=
  match Primitive.ofName? name with
  | some kind => .ok (.primitive kind)
  | none =>
      match typeVars.find? name with
      | some bound => .ok (.typeVar name bound)
      | none =>
          if table.classes.contains name then .ok (.named name) else .error (.notFound name)

/-- Check the class of a generic type against the number of its arguments. -/
def checkArity
    (table : ClassTable)
    (name : String)
    (count : Nat) :
    Except TypeError Unit :=
  match table.class? name with
  | none => .error (.notFound name)
  | some info =>
      if info.typeParams.length = count then .ok ()
      else .error (.wrongArity name (info.typeParams.map TypeVariable.name))

/-- Check that no argument of a generic type is primitive. -/
def checkArguments
    (args : List Ty) :
    Except TypeError Unit :=
  match args.find? Ty.isPrimitive with
  | some arg => .error (.primitiveArgument arg)
  | none => .ok ()

mutual

/-- Resolve a written type. Type variables are given with their bounds. -/
def resolve
    (table : ClassTable)
    (typeVars : NameTable Ty) :
    TypeExpr → Except TypeError Ty
  | .named _ name => table.resolveName typeVars name
  | .generic _ name args => do
      table.checkArity name args.length
      let args ← table.resolveAll typeVars args
      checkArguments args
      return .classType name args
  | .array _ component => do return .array (← table.resolve typeVars component)
  | .wildcard _ => .ok .wildcard
  | .wildcardExtends _ bound => do return .wildcardExtends (← table.resolve typeVars bound)

/-- Resolve written types in turn; the first failure is reported. -/
def resolveAll
    (table : ClassTable)
    (typeVars : NameTable Ty) :
    List TypeExpr → Except TypeError (List Ty)
  | [] => .ok []
  | type :: rest => do
      let ty ← table.resolve typeVars type
      let tys ← table.resolveAll typeVars rest
      return ty :: tys

end

end ClassTable

end LoopLowering
