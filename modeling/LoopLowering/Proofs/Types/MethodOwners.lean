import LoopLowering.Proofs.Types.SupertypeSearch

namespace LoopLowering

/-!
# The classes that declare found methods

The search for a method and the search for a supertype walk through a hierarchy
in the same order, but the search for a method starts at the erasure of a type
variable or wildcard. From there it meets the same classes, each either at the
same type or raw.
-/

namespace ClassType

/-- A class type without its arguments. -/
def raw
    (classType : ClassType) :
    ClassType :=
  ⟨classType.name, []⟩

/-- Whether a class type is another one or its raw form. -/
def IsOrErases
    (full other : ClassType) :
    Prop :=
  other = full ∨ other = full.raw

/-- The raw form is of the same class. -/
theorem IsOrErases.sameName
    {full other : ClassType}
    (erases : full.IsOrErases other) :
    full.name = other.name := by
  rcases erases with rfl | rfl <;> rfl

end ClassType

namespace Ty

/-- The class of an erased type is the raw form of the class through which the type
inherits. -/
theorem classType?_erasure :
    ∀ ty : Ty,
      ty.erasure.classType? = ty.inheritingClass?.map ClassType.raw
  | .classType _ _ | .wildcard => rfl
  | .typeVar _ bound | .wildcardExtends bound => classType?_erasure bound
  | .primitive _ | .array _ | .null | .void | .unknown => rfl

end Ty

namespace ClassTable

/-- The search for a method starts at the class through which the receiver inherits, or
at its raw form. Arrays inherit from no class, but have the methods of the root. -/
theorem receiverClass?_eq_some
    {receiver : Ty}
    {start : ClassType}
    (starts : receiverClass? receiver = some start) :
    (∃ full, receiver.inheritingClass? = some full ∧ full.IsOrErases start) ∨ start = .object := by
  have ofErasure : ∀ {bound : Ty}, bound.erasure.classType? = some start →
      ∃ full, bound.inheritingClass? = some full ∧ full.IsOrErases start := by
    intro bound erased
    rw [Ty.classType?_erasure, Option.map_eq_some_iff] at erased
    obtain ⟨full, inherits, rfl⟩ := erased
    exact ⟨full, inherits, .inr rfl⟩
  cases receiver with
  | classType name args =>
      cases starts
      exact .inl ⟨⟨name, args⟩, rfl, .inl rfl⟩
  | typeVar name bound =>
      exact .inl (ofErasure starts)
  | wildcardExtends bound =>
      exact .inl (ofErasure starts)
  | wildcard =>
      cases starts
      exact .inr rfl
  | array component =>
      cases starts
      exact .inr rfl
  | _ =>
      cases starts

/-- The search for a method starts at a class type, behind which only the root class may
stand. -/
theorem receiverClasses_eq
    (table : ClassTable)
    {receiver : Ty}
    {start : ClassType}
    (starts : receiverClass? receiver = some start) :
    ∃ standIns, table.receiverClasses receiver = [start] ++ standIns ∧
      ∀ standIn ∈ standIns, standIn = .object := by
  simp only [receiverClasses, starts]
  split
  · exact ⟨[.object], rfl, by simp⟩
  · exact ⟨[], rfl, by simp⟩

/-- A found method belongs to a class that the search meets from its start. -/
theorem exists_start_of_lookupMethod
    {table : ClassTable}
    {receiver : Ty}
    {name : String}
    {found : FoundMethod}
    (finds : table.lookupMethod receiver name = some found) :
    ∃ start, receiverClass? receiver = some start ∧
      found.owner ∈ table.reachable table.parentClasses (table.receiverClasses receiver) := by
  obtain ⟨owner, inMet, declares⟩ := List.exists_of_findSome?_eq_some finds
  obtain ⟨_, _, -, -, rfl⟩ := declaredMethod?_eq_some.mp declares
  cases starts : receiverClass? receiver with
  | none =>
      simp [receiverClasses, starts, reachable, walk_nil] at inMet
  | some start =>
      exact ⟨start, rfl, inMet⟩

namespace InheritsClasses

variable
  {table : ClassTable}

/-- What a class type goes on to is what its raw form goes on to, or has that as its raw
form. -/
theorem isOrErases_parentClasses
    (inherits : table.InheritsClasses)
    {full other : ClassType}
    (erases : full.IsOrErases other) :
    List.Forall₂ ClassType.IsOrErases (table.parentClasses full) (table.parentClasses other) := by
  refine inherits.forall₂_parentClasses erases.sameName fun {info} _ declared _ => ?_
  rcases erases with rfl | rfl
  · exact .inl rfl
  · cases generic : info.typeParams.isEmpty with
    | true =>
        -- A class without parameters is seen in one way, whatever its arguments.
        have noParams := List.isEmpty_iff.mp generic
        exact .inl (by simp [ClassInfo.seenClass, ClassInfo.isRaw, ClassInfo.bindings, noParams,
          ClassType.raw])
    | false =>
        exact .inr (by simp [ClassInfo.seenClass, ClassInfo.isRaw, generic, ClassType.raw])

end InheritsClasses

/-- The root class inherits from no class. -/
def RootInheritsNothing
    (table : ClassTable) :
    Prop :=
  table.parentClasses .object = []

/-- Nothing but the root class is met from the root class. -/
theorem RootInheritsNothing.eq_object_of_mem
    {table : ClassTable}
    (root : table.RootInheritsNothing)
    {visited : List String}
    {start met : List ClassType}
    (walks : Walks table.parentClasses visited start met)
    (atRoot : ∀ classType ∈ start, classType = .object) :
    ∀ classType ∈ met, classType = .object := by
  refine walks.forall_met _ (fun classType isRoot following goesOn => ?_) atRoot
  rw [isRoot, root] at goesOn
  cases goesOn

/-- A method of another class than the root is met from the class through which the receiver
inherits, or from its raw form: nothing is met through the root that stands by for an
interface, or for an array. -/
theorem RootInheritsNothing.exists_start
    {table : ClassTable}
    (root : table.RootInheritsNothing)
    {receiver : Ty}
    {name : String}
    {found : FoundMethod}
    (finds : table.lookupMethod receiver name = some found)
    (notRoot : found.owner.name ≠ "Object") :
    ∃ full start,
      receiver.inheritingClass? = some full ∧
      receiverClass? receiver = some start ∧
      full.IsOrErases start ∧
      found.owner ∈ table.reachable table.parentClasses [start] := by
  have ownerApart : found.owner ≠ .object := fun isRoot => notRoot (by rw [isRoot]; rfl)
  obtain ⟨start, starts, inMet⟩ := exists_start_of_lookupMethod finds
  obtain ⟨standIns, isList, areRoot⟩ := receiverClasses_eq table starts
  have walks := table.walks_parentClasses (table.receiverClasses receiver)
  generalize table.reachable table.parentClasses (table.receiverClasses receiver) = metAll
    at walks inMet
  rw [isList] at walks
  obtain ⟨since, met, metBehind, walksStart, walksBehind, rfl⟩ := walks.split
  obtain rfl := walksStart.unique (table.walks_parentClasses [start])
  rcases List.mem_append.mp inMet with inStart | inBehind
  · rcases receiverClass?_eq_some starts with ⟨full, isFull, erases⟩ | rfl
    · exact ⟨full, start, isFull, starts, erases, inStart⟩
    · exact absurd (root.eq_object_of_mem walksStart (by simp) found.owner inStart) ownerApart
  · exact absurd (root.eq_object_of_mem walksBehind areRoot found.owner inBehind) ownerApart

/-- Where classes inherit from class types only and the root class from nothing, the
supertype search finds the class that declares a found method. It finds the same
instantiation if the method was looked up in the class through which the receiver
inherits; for a type variable or a wildcard whose bound has type arguments, the
method may belong to the raw form of what it finds. -/
theorem lookupMethod_owner
    {table : ClassTable}
    (inherits : table.InheritsClasses)
    (root : table.RootInheritsNothing)
    {receiver : Ty}
    {name : String}
    {found : FoundMethod}
    (finds : table.lookupMethod receiver name = some found)
    (notRoot : found.owner.name ≠ "Object") :
    ∃ inherited, table.findSupertype receiver found.owner.name = some inherited ∧
      (found.owner = inherited ∨ found.owner = inherited.raw) ∧
      (receiver.inheritingClass? = receiverClass? receiver → found.owner = inherited) := by
  obtain ⟨full, start, isFull, starts, erases, inMet⟩ := root.exists_start finds notRoot
  have walksStart := table.walks_parentClasses [start]
  have walksFull := table.walks_parentClasses [full]
  -- Both searches go through one hierarchy, one of them at the raw form of each class.
  obtain ⟨metAgain, walksAgain, areRelated⟩ := walksFull.related ClassType.IsOrErases.sameName
    inherits.isOrErases_parentClasses (List.forall₂_cons.mpr ⟨erases, .nil⟩)
  obtain rfl := walksAgain.unique walksStart
  have findsFull : table.findSupertype receiver found.owner.name =
      (table.reachable table.parentClasses [full]).find?
        fun classType => classType.name == found.owner.name := by
    rw [findSupertype, isFull, inherits.parents_eq]
    rfl
  have foundAlike := rel_find?_name ClassType.IsOrErases.sameName areRelated found.owner.name
  rw [← findsFull, walksStart.find?_name inMet] at foundAlike
  generalize isInherited : table.findSupertype receiver found.owner.name = result at foundAlike
  obtain @⟨inherited, _, ownerErases⟩ := foundAlike
  refine ⟨inherited, rfl, ownerErases, fun sameStart => ?_⟩
  obtain rfl : full = start := Option.some.inj (isFull.symm.trans (sameStart.trans starts))
  rw [findsFull, walksStart.find?_name inMet] at isInherited
  exact Option.some.inj isInherited

/-- The method `get` of a variable that is bounded by array lists of strings belongs to the
raw form of the lists of strings that the supertype search finds. -/
theorem boundedList_lookupMethod_owner :
    let receiver := Ty.typeVar "T" (.classType "ArrayList" [.string])
    builtin.InheritsClasses ∧ builtin.RootInheritsNothing ∧
      ∃ found, builtin.lookupMethod receiver "get" = some found ∧
        found.owner.name ≠ "Object" ∧
        ∃ inherited, builtin.findSupertype receiver found.owner.name = some inherited ∧
          found.owner = inherited.raw ∧ inherited.args = [.string] := by
  intro receiver
  have inherits : builtin.InheritsClasses := inheritsClasses_of_entries (by decide +kernel)
  have root : builtin.RootInheritsNothing := by
    unfold RootInheritsNothing
    decide +kernel
  have owner : (builtin.lookupMethod receiver "get").map FoundMethod.owner = some ⟨"List", []⟩ := by
    decide +kernel
  obtain ⟨found, finds, isList⟩ := Option.map_eq_some_iff.mp owner
  have notRoot : found.owner.name ≠ "Object" := by
    rw [isList]
    decide
  obtain ⟨inherited, findsInherited, erases, -⟩ := lookupMethod_owner inherits root finds notRoot
  have atStrings : builtin.findSupertype receiver found.owner.name = some ⟨"List", [.string]⟩ := by
    rw [isList]
    decide +kernel
  obtain rfl := Option.some.inj (findsInherited.symm.trans atStrings)
  refine ⟨inherits, root, found, finds, notRoot, _, findsInherited, ?_, rfl⟩
  rcases erases with same | isRaw
  · rw [isList] at same
    cases same
  · exact isRaw

end ClassTable

end LoopLowering
