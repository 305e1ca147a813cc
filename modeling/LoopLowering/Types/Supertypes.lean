import LoopLowering.Types.ClassTable

namespace LoopLowering

/-!
# Inheritance

A class type inherits from its direct supertypes, seen through its own type
arguments; those of a raw type are erased. The search for an ancestor or an
inherited method walks the hierarchy depth first and enters each class once,
so it ends even when classes inherit from themselves.
-/

namespace ClassInfo

/-- Whether a use of a generic class without arguments is raw. -/
def isRaw
    (info : ClassInfo)
    (args : List Ty) :
    Bool :=
  args.isEmpty && !info.typeParams.isEmpty

/-- The parameters of a class bound to the arguments of a use. Of two
parameters of one name the later one counts. -/
def bindings
    (info : ClassInfo)
    (args : List Ty) :
    List (String × Ty) :=
  ((info.typeParams.map TypeVariable.name).zip args).reverse

/-- A type from the declaration of a class as seen through a use of it. -/
def seenFrom
    (info : ClassInfo)
    (args : List Ty)
    (ty : Ty) :
    Ty :=
  if info.isRaw args then ty.erasure else ty.substitute (info.bindings args)

end ClassInfo

namespace Signature

/-- Change every type of a signature. -/
def map
    (change : Ty → Ty)
    (signature : Signature) :
    Signature :=
  ⟨signature.params.map change, change signature.returnType⟩

end Signature

namespace ClassTable

/-- The direct supertypes of a class type; an undeclared class has none. -/
def directSupertypes
    (table : ClassTable)
    (classType : ClassType) :
    List Ty :=
  match table.class? classType.name with
  | some info => info.supertypes.map (info.seenFrom classType.args)
  | none => []

/-- Walk class types depth first, given what is still to be visited and the
names already visited. Each step takes one class type off the list. -/
def walk
    (next : ClassType → List ClassType) :
    (steps : Nat) → (seen : List String) → List ClassType → List ClassType
  | 0, _, _ => []
  | _, _, [] => []
  | steps + 1, seen, classType :: rest =>
      if seen.contains classType.name then
        walk next steps seen rest
      else
        classType :: walk next steps (classType.name :: seen) (next classType ++ rest)

/-- A bound on the steps of a walk: each declared supertype is put on the list
at most once for each declaration. -/
def walkBound
    (table : ClassTable) :
    Nat :=
  (table.classes.map (fun entry => entry.2.supertypes.length)).foldr (· + ·) 0

/-- Every class type met from the given ones, each class once, depth first. -/
def reachable
    (table : ClassTable)
    (next : ClassType → List ClassType)
    (start : List ClassType) :
    List ClassType :=
  walk next (start.length + table.walkBound) [] start

/-- The classes a class type inherits from directly, through the bounds of type
variables and wildcards among its supertypes. -/
def parents
    (table : ClassTable)
    (classType : ClassType) :
    List ClassType :=
  (table.directSupertypes classType).filterMap Ty.inheritingClass?

/-- The classes among the direct supertypes of a class type. -/
def parentClasses
    (table : ClassTable)
    (classType : ClassType) :
    List ClassType :=
  (table.directSupertypes classType).filterMap Ty.classType?

/-- The instantiation of a class that a type inherits from. -/
def findSupertype
    (table : ClassTable)
    (ty : Ty)
    (target : String) :
    Option ClassType :=
  (table.reachable table.parents ty.inheritingClass?.toList).find?
    (fun classType => classType.name == target)

/-- The class type whose methods a receiver has: of a type variable or wildcard
it is its erasure, and an array has the methods of the root class. -/
def receiverClass? :
    Ty → Option ClassType
  | .classType name args => some ⟨name, args⟩
  | .typeVar _ bound => bound.erasure.classType?
  | .wildcard => some .object
  | .wildcardExtends bound => bound.erasure.classType?
  | .array _ => some .object
  | _ => none

/-- The class types at which the search for a method of a type starts. The root
class stands by for interfaces, which do not inherit from it. -/
def receiverClasses
    (table : ClassTable)
    (receiver : Ty) :
    List ClassType :=
  match receiverClass? receiver with
  | some start =>
      if table.isInterface start.toTy then [start, .object] else [start]
  | none => []

/-- A method found through a receiver: the declaring class as the receiver
inherits it, the declared signature, and the signature the receiver sees. -/
structure FoundMethod where
  owner : ClassType
  declared : Signature
  seen : Signature
  deriving Repr

/-- The method a class type declares itself. -/
def declaredMethod?
    (table : ClassTable)
    (name : String)
    (classType : ClassType) :
    Option FoundMethod := do
  let info ← table.class? classType.name
  let declared ← info.methods.find? name
  return ⟨classType, declared, declared.map (info.seenFrom classType.args)⟩

/-- A method found in a class type is one that its class declares, as the class type sees
it. -/
theorem declaredMethod?_eq_some
    {table : ClassTable}
    {name : String}
    {classType : ClassType}
    {found : FoundMethod} :
    table.declaredMethod? name classType = some found ↔
      ∃ info declared,
        table.class? classType.name = some info ∧
        info.methods.find? name = some declared ∧
        found = ⟨classType, declared, declared.map (info.seenFrom classType.args)⟩ := by
  unfold declaredMethod?
  cases table.class? classType.name with
  | none =>
      simp
  | some info =>
      cases declares : info.methods.find? name with
      | none =>
          simp [declares]
      | some declared =>
          simp [declares, eq_comm]

/-- The instance method of a name on a type or the classes it inherits from. -/
def lookupMethod
    (table : ClassTable)
    (receiver : Ty)
    (name : String) :
    Option FoundMethod :=
  (table.reachable table.parentClasses (table.receiverClasses receiver)).findSome?
    (table.declaredMethod? name)

end ClassTable

end LoopLowering
