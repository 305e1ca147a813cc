import LoopLowering.Types.Primitive

namespace LoopLowering

/-!
# Resolved types

Types after every name has been looked up. A class type without arguments is
either not generic or raw. A type variable carries its upper bound, and a
wildcard without a bound stands for any reference type.
-/

/-- A resolved type. -/
inductive Ty where
  | primitive (kind : Primitive)
  | classType (name : String) (args : List Ty)
  | typeVar (name : String) (bound : Ty)
  /-- An unbounded wildcard. -/
  | wildcard
  /-- A wildcard with an upper bound. -/
  | wildcardExtends (bound : Ty)
  | array (component : Ty)
  | null
  | void
  /-- The type of an expression that failed to resolve; it converts to and
  from everything, so that one mistake is reported once. -/
  | unknown
  deriving Repr, Inhabited

/-- A class or interface type seen on its own. -/
structure ClassType where
  name : String
  args : List Ty
  deriving Repr

/-- A type parameter with its upper bound. -/
structure TypeVariable where
  name : String
  bound : Ty
  deriving Repr

namespace Ty

mutual

/-- Equality of types is decided constructor by constructor. -/
def decideEq :
    (first second : Ty) → Decidable (first = second)
  | .primitive p, .primitive q =>
      decidable_of_iff (p = q) (by simp)
  | .classType n xs, .classType m ys =>
      match decEq n m, decideEqAll xs ys with
      | isTrue sameName, isTrue sameArgs => isTrue (by rw [sameName, sameArgs])
      | isFalse otherName, _ => isFalse (by simp [otherName])
      | _, isFalse otherArgs => isFalse (by simp [otherArgs])
  | .typeVar n x, .typeVar m y =>
      match decEq n m, decideEq x y with
      | isTrue sameName, isTrue sameBound => isTrue (by rw [sameName, sameBound])
      | isFalse otherName, _ => isFalse (by simp [otherName])
      | _, isFalse otherBound => isFalse (by simp [otherBound])
  | .wildcard, .wildcard => isTrue rfl
  | .wildcardExtends x, .wildcardExtends y =>
      match decideEq x y with
      | isTrue same => isTrue (by rw [same])
      | isFalse other => isFalse (by simp [other])
  | .array x, .array y =>
      match decideEq x y with
      | isTrue same => isTrue (by rw [same])
      | isFalse other => isFalse (by simp [other])
  | .null, .null => isTrue rfl
  | .void, .void => isTrue rfl
  | .unknown, .unknown => isTrue rfl
  | .primitive _, .classType .. | .primitive _, .typeVar .. | .primitive _, .wildcard
  | .primitive _, .wildcardExtends _ | .primitive _, .array _ | .primitive _, .null
  | .primitive _, .void | .primitive _, .unknown => isFalse nofun
  | .classType .., .primitive _ | .classType .., .typeVar .. | .classType .., .wildcard
  | .classType .., .wildcardExtends _ | .classType .., .array _ | .classType .., .null
  | .classType .., .void | .classType .., .unknown => isFalse nofun
  | .typeVar .., .primitive _ | .typeVar .., .classType .. | .typeVar .., .wildcard
  | .typeVar .., .wildcardExtends _ | .typeVar .., .array _ | .typeVar .., .null
  | .typeVar .., .void | .typeVar .., .unknown => isFalse nofun
  | .wildcard, .primitive _ | .wildcard, .classType .. | .wildcard, .typeVar ..
  | .wildcard, .wildcardExtends _ | .wildcard, .array _ | .wildcard, .null
  | .wildcard, .void | .wildcard, .unknown => isFalse nofun
  | .wildcardExtends _, .primitive _ | .wildcardExtends _, .classType ..
  | .wildcardExtends _, .typeVar .. | .wildcardExtends _, .wildcard
  | .wildcardExtends _, .array _ | .wildcardExtends _, .null
  | .wildcardExtends _, .void | .wildcardExtends _, .unknown => isFalse nofun
  | .array _, .primitive _ | .array _, .classType .. | .array _, .typeVar ..
  | .array _, .wildcard | .array _, .wildcardExtends _ | .array _, .null
  | .array _, .void | .array _, .unknown => isFalse nofun
  | .null, .primitive _ | .null, .classType .. | .null, .typeVar ..
  | .null, .wildcard | .null, .wildcardExtends _ | .null, .array _
  | .null, .void | .null, .unknown => isFalse nofun
  | .void, .primitive _ | .void, .classType .. | .void, .typeVar ..
  | .void, .wildcard | .void, .wildcardExtends _ | .void, .array _
  | .void, .null | .void, .unknown => isFalse nofun
  | .unknown, .primitive _ | .unknown, .classType .. | .unknown, .typeVar ..
  | .unknown, .wildcard | .unknown, .wildcardExtends _ | .unknown, .array _
  | .unknown, .null | .unknown, .void => isFalse nofun

/-- Equality of argument lists. -/
def decideEqAll :
    (first second : List Ty) → Decidable (first = second)
  | [], [] => isTrue rfl
  | [], _ :: _ => isFalse nofun
  | _ :: _, [] => isFalse nofun
  | x :: xs, y :: ys =>
      match decideEq x y, decideEqAll xs ys with
      | isTrue sameHead, isTrue sameTail => isTrue (by rw [sameHead, sameTail])
      | isFalse otherHead, _ => isFalse (by simp [otherHead])
      | _, isFalse otherTail => isFalse (by simp [otherTail])

end

instance : DecidableEq Ty :=
  decideEq

/-- The root of the class hierarchy. -/
def object :
    Ty :=
  .classType "Object" []

/-- The type of string literals. -/
def string :
    Ty :=
  .classType "String" []

/-- The primitive type `int`. -/
def int :
    Ty :=
  .primitive .int

/-- The primitive type `boolean`. -/
def boolean :
    Ty :=
  .primitive .boolean

/-- A class type without arguments. -/
def named
    (name : String) :
    Ty :=
  .classType name []

/-- Whether a type is primitive. -/
def isPrimitive :
    Ty → Bool
  | .primitive _ => true
  | _ => false

/-- The primitive type a type is, if it is one. -/
def primitive? :
    Ty → Option Primitive
  | .primitive kind => some kind
  | _ => none

/-- Whether values of a type are references. -/
def isReference :
    Ty → Bool
  | .classType .. | .typeVar .. | .wildcard | .wildcardExtends _ | .array _ | .null => true
  | .primitive _ | .void | .unknown => false

/-- Whether a type is the root class, whatever its arguments. -/
def isObject :
    Ty → Bool
  | .classType name _ => name == "Object"
  | _ => false

/-- Whether a type is the result of a failed resolution. -/
def isUnknown :
    Ty → Bool
  | .unknown => true
  | _ => false

/-- Whether a value takes two slots. -/
def isWide :
    Ty → Bool
  | .primitive kind => kind.isWide
  | _ => false

/-- The component type of an array type. -/
def component? :
    Ty → Option Ty
  | .array component => some component
  | _ => none

/-- Drop type arguments and replace variables and wildcards by their bounds. -/
def erasure :
    Ty → Ty
  | .classType name _ => .classType name []
  | .typeVar _ bound => bound.erasure
  | .wildcard => object
  | .wildcardExtends bound => bound.erasure
  | .array component => .array component.erasure
  | .primitive kind => .primitive kind
  | .null => .null
  | .void => .void
  | .unknown => .unknown

/-- The upper bound of a wildcard, which is the root class when none is given. -/
def wildcardBound? :
    Ty → Option Ty
  | .wildcard => some object
  | .wildcardExtends bound => some bound
  | _ => none

/-- The type left after replacing wildcards by their bounds. -/
def withoutWildcards :
    Ty → Ty
  | .wildcard => object
  | .wildcardExtends bound => bound.withoutWildcards
  | ty => ty

mutual

/-- The text of a type in messages. -/
def text :
    Ty → String
  | .primitive kind => kind.name
  | .classType name [] => name
  | .classType name (first :: rest) => name ++ "<" ++ first.text ++ textRest rest ++ ">"
  | .typeVar name _ => name
  | .wildcard => "?"
  | .wildcardExtends bound => "? extends " ++ bound.text
  | .array component => component.text ++ "[]"
  | .null => "null"
  | .void => "void"
  | .unknown => "<unknown>"

/-- The text of the arguments after the first, each after a comma. -/
def textRest :
    List Ty → String
  | [] => ""
  | ty :: rest => "," ++ ty.text ++ textRest rest

end

mutual

/-- Replace type variables by the types a table binds their names to. -/
def substitute
    (bindings : List (String × Ty)) :
    Ty → Ty
  | .typeVar name bound => (bindings.lookup name).getD (.typeVar name bound)
  | .classType name args => .classType name (substituteAll bindings args)
  | .array component => .array (component.substitute bindings)
  | .wildcardExtends bound => .wildcardExtends (bound.substitute bindings)
  | .wildcard => .wildcard
  | .primitive kind => .primitive kind
  | .null => .null
  | .void => .void
  | .unknown => .unknown

/-- Replace type variables in every type of a list. -/
def substituteAll
    (bindings : List (String × Ty)) :
    List Ty → List Ty
  | [] => []
  | ty :: rest => ty.substitute bindings :: substituteAll bindings rest

end

/-- Substitution works on each type of a list on its own. -/
theorem substituteAll_eq_map
    (bindings : List (String × Ty))
    (types : List Ty) :
    substituteAll bindings types = types.map (substitute bindings) := by
  induction types with
  | nil =>
      rfl
  | cons ty rest inductionHypothesis =>
      simp [substituteAll, inductionHypothesis]

end Ty

namespace ClassType

/-- A class type as a type. -/
def toTy
    (classType : ClassType) :
    Ty :=
  .classType classType.name classType.args

/-- The root of the class hierarchy. -/
def object :
    ClassType :=
  ⟨"Object", []⟩

end ClassType

namespace Ty

/-- The class type a type is, if it is one. -/
def classType? :
    Ty → Option ClassType
  | .classType name args => some ⟨name, args⟩
  | _ => none

/-- The class type through which members are inherited: of a type variable or
wildcard it is that of the bound. -/
def inheritingClass? :
    Ty → Option ClassType
  | .classType name args => some ⟨name, args⟩
  | .typeVar _ bound => bound.inheritingClass?
  | .wildcard => some .object
  | .wildcardExtends bound => bound.inheritingClass?
  | _ => none

end Ty

instance : DecidableEq ClassType := fun first second =>
  decidable_of_iff (first.toTy = second.toTy) (by
    cases first; cases second; simp [ClassType.toTy])

end LoopLowering
