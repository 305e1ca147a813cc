import Mathlib.Data.List.Forall2
import LoopLowering.Types.Supertypes

namespace LoopLowering

/-!
# Walks through a class hierarchy

A walk takes one class type after the other off a list, and puts the classes it
goes on to in its place unless its name has been visited. No name is entered
twice, so a class puts its supertypes on the list at most once, and the list runs
empty within the steps that are allowed for it: what a walk meets is given by its
rules alone. Walks that go on alike meet alike classes.
-/

namespace ClassTable

/-- The classes that a walk meets, given the names visited before it and the
classes it still has to visit. -/
inductive Walks
    (next : ClassType → List ClassType) :
    (visited : List String) →
    (pending met : List ClassType) →
    Prop where
  | done
      (visited : List String) :
      Walks next visited [] []
  | again
      {visited : List String}
      {classType : ClassType}
      {rest met : List ClassType}
      (known : classType.name ∈ visited)
      (later : Walks next visited rest met) :
      Walks next visited (classType :: rest) met
  | enters
      {visited : List String}
      {classType : ClassType}
      {rest met : List ClassType}
      (isNew : classType.name ∉ visited)
      (later : Walks next (classType.name :: visited) (next classType ++ rest) met) :
      Walks next visited (classType :: rest) (classType :: met)

namespace Walks

variable
  {next other : ClassType → List ClassType}
  {visited : List String}
  {pending met : List ClassType}

/-- What a walk meets is determined by where it starts. -/
theorem unique
    (walks : Walks next visited pending met)
    {others : List ClassType}
    (again : Walks next visited pending others) :
    met = others := by
  induction walks generalizing others with
  | done visited =>
      cases again
      rfl
  | again known later inductionHypothesis =>
      cases again with
      | again _ laterAgain =>
          exact inductionHypothesis laterAgain
      | enters isNew _ =>
          exact absurd known isNew
  | enters isNew later inductionHypothesis =>
      cases again with
      | again known _ =>
          exact absurd known isNew
      | enters _ laterAgain =>
          rw [inductionHypothesis laterAgain]

/-- A walk meets only classes of a kind that it starts at and stays within. -/
theorem forall_met
    (walks : Walks next visited pending met)
    (kind : ClassType → Prop)
    (stays : ∀ classType, kind classType → ∀ following ∈ next classType, kind following)
    (starts : ∀ classType ∈ pending, kind classType) :
    ∀ classType ∈ met, kind classType := by
  induction walks with
  | done visited =>
      simp
  | again known later inductionHypothesis =>
      exact inductionHypothesis fun classType inRest => starts classType (by simp [inRest])
  | @enters _ entered rest _ isNew later inductionHypothesis =>
      have startsHere := starts entered (by simp)
      refine List.forall_mem_cons.mpr ⟨startsHere, inductionHypothesis ?_⟩
      intro classType inList
      rcases List.mem_append.mp inList with inNext | inRest
      · exact stays entered startsHere classType inNext
      · exact starts classType (by simp [inRest])

/-- A walk meets no name that has been visited before, and none twice. -/
theorem names_apart
    (walks : Walks next visited pending met) :
    (∀ classType ∈ met, classType.name ∉ visited) ∧ (met.map ClassType.name).Nodup := by
  induction walks with
  | done visited =>
      simp
  | again known later inductionHypothesis =>
      exact inductionHypothesis
  | @enters visited entered _ met isNew later inductionHypothesis =>
      obtain ⟨apart, distinct⟩ := inductionHypothesis
      constructor
      · refine List.forall_mem_cons.mpr ⟨isNew, fun classType inMet known => ?_⟩
        exact apart classType inMet (List.mem_cons_of_mem _ known)
      · rw [List.map_cons, List.nodup_cons]
        refine ⟨fun again => ?_, distinct⟩
        obtain ⟨classType, inMet, sameName⟩ := List.mem_map.mp again
        exact apart classType inMet (by simp [sameName])

/-- A class that a walk meets is the only one of its name there. -/
theorem find?_name
    (walks : Walks next visited pending met)
    {classType : ClassType}
    (inMet : classType ∈ met) :
    met.find? (fun candidate => candidate.name == classType.name) = some classType := by
  have distinct := walks.names_apart.2
  clear walks
  induction met with
  | nil =>
      cases inMet
  | cons first rest inductionHypothesis =>
      obtain ⟨notAgain, restDistinct⟩ := List.nodup_cons.mp distinct
      rcases List.mem_cons.mp inMet with rfl | inRest
      · simp
      · have differs : first.name ≠ classType.name := fun same =>
          notAgain (List.mem_map.mpr ⟨classType, inRest, same.symm⟩)
        rw [List.find?_cons_of_neg (by simpa using differs)]
        exact inductionHypothesis inRest restDistinct

/-- A name that was visited before a walk or is met by it. -/
def Covers
    (visited : List String)
    (met : List ClassType)
    (name : String) :
    Prop :=
  name ∈ visited ∨ name ∈ met.map ClassType.name

/-- A walk leaves out no class it starts at, and none that a class it meets goes on
to: the name of each is visited. -/
theorem covers
    (walks : Walks next visited pending met) :
    (∀ classType ∈ pending, Covers visited met classType.name) ∧
      ∀ classType ∈ met, ∀ following ∈ next classType, Covers visited met following.name := by
  induction walks with
  | done visited =>
      simp
  | again known later inductionHypothesis =>
      obtain ⟨starts, stays⟩ := inductionHypothesis
      exact ⟨List.forall_mem_cons.mpr ⟨.inl known, starts⟩, stays⟩
  | @enters visited entered rest met isNew later inductionHypothesis =>
      obtain ⟨starts, stays⟩ := inductionHypothesis
      have widen : ∀ {name : String},
          Covers (entered.name :: visited) met name → Covers visited (entered :: met) name := by
        intro name covered
        simp only [Covers, List.mem_cons, List.map_cons] at covered ⊢
        rcases covered with (same | known) | inMet
        · exact .inr (.inl same)
        · exact .inl known
        · exact .inr (.inr inMet)
      refine ⟨List.forall_mem_cons.mpr ⟨.inr (by simp), fun classType inRest => ?_⟩,
        List.forall_mem_cons.mpr
          ⟨fun following inNext => ?_, fun classType inMet following inNext => ?_⟩⟩
      · exact widen (starts classType (List.mem_append_right _ inRest))
      · exact widen (starts following (List.mem_append_left _ inNext))
      · exact widen (stays classType inMet following inNext)

/-- A walk visits the classes on the first part of its list before those on the
second. -/
theorem split
    {first second : List ClassType}
    (walks : Walks next visited (first ++ second) met) :
    ∃ since metFirst metSecond,
      Walks next visited first metFirst ∧
      Walks next since second metSecond ∧
      met = metFirst ++ metSecond := by
  generalize whole : first ++ second = pending at walks
  induction walks generalizing first with
  | done visited =>
      obtain ⟨rfl, rfl⟩ := List.append_eq_nil_iff.mp whole
      exact ⟨visited, [], [], .done visited, .done visited, rfl⟩
  | @again visited classType rest met known later inductionHypothesis =>
      rcases List.append_eq_cons_iff.mp whole with ⟨rfl, rfl⟩ | ⟨others, rfl, rfl⟩
      · exact ⟨visited, [], met, .done visited, .again known later, rfl⟩
      · obtain ⟨since, metFirst, metSecond, walksFirst, walksSecond, rfl⟩ := inductionHypothesis rfl
        exact ⟨since, metFirst, metSecond, .again known walksFirst, walksSecond, rfl⟩
  | @enters visited classType rest met isNew later inductionHypothesis =>
      rcases List.append_eq_cons_iff.mp whole with ⟨rfl, rfl⟩ | ⟨others, rfl, rfl⟩
      · exact ⟨visited, [], classType :: met, .done visited, .enters isNew later, rfl⟩
      · obtain ⟨since, metFirst, metSecond, walksFirst, walksSecond, rfl⟩ :=
          inductionHypothesis (List.append_assoc _ _ _)
        exact ⟨since, classType :: metFirst, metSecond, .enters isNew walksFirst, walksSecond, rfl⟩

/-- Walks that start at related classes of the same names and go on to related
classes meet related classes. -/
theorem related
    (walks : Walks next visited pending met)
    {related : ClassType → ClassType → Prop}
    (sameName : ∀ {first second}, related first second → first.name = second.name)
    (steps : ∀ {first second}, related first second →
      List.Forall₂ related (next first) (other second))
    {others : List ClassType}
    (starts : List.Forall₂ related pending others) :
    ∃ otherMet, Walks other visited others otherMet ∧ List.Forall₂ related met otherMet := by
  induction walks generalizing others with
  | done visited =>
      cases starts
      exact ⟨[], .done visited, .nil⟩
  | again known later inductionHypothesis =>
      obtain _ | ⟨headRelated, restRelated⟩ := starts
      obtain ⟨otherMet, otherWalks, metRelated⟩ := inductionHypothesis restRelated
      exact ⟨otherMet, .again (sameName headRelated ▸ known) otherWalks, metRelated⟩
  | @enters _ entered _ _ isNew later inductionHypothesis =>
      obtain _ | ⟨headRelated, restRelated⟩ := starts
      rename_i head rest
      obtain ⟨otherMet, otherWalks, metRelated⟩ :=
        inductionHypothesis (List.rel_append (steps headRelated) restRelated)
      rw [sameName headRelated] at isNew otherWalks
      exact ⟨head :: otherMet, .enters isNew otherWalks, .cons headRelated metRelated⟩

end Walks

/-- Related classes of the same names are found by the same names. -/
theorem rel_find?_name
    {related : ClassType → ClassType → Prop}
    (sameName : ∀ {first second}, related first second → first.name = second.name)
    {met others : List ClassType}
    (areRelated : List.Forall₂ related met others)
    (target : String) :
    Option.Rel related (met.find? fun classType => classType.name == target)
      (others.find? fun classType => classType.name == target) := by
  induction areRelated with
  | nil =>
      exact .none
  | @cons first second _ _ headRelated _ inductionHypothesis =>
      by_cases isTarget : second.name = target
      · rw [List.find?_cons_of_pos (by simpa [sameName headRelated] using isTarget),
          List.find?_cons_of_pos (by simpa using isTarget)]
        exact .some headRelated
      · rw [List.find?_cons_of_neg (by simpa [sameName headRelated] using isTarget),
          List.find?_cons_of_neg (by simpa using isTarget)]
        exact inductionHypothesis

/-!
## Walks end

The supertypes that the classes of a table declare bound the length of a walk: as
long as a name has not been visited, those of its class may still come onto the
list.
-/

/-- The number of supertypes that the class of a name declares. -/
def supertypeCount
    (classes : NameTable ClassInfo)
    (name : String) :
    Nat :=
  ((classes.find? name).map fun info => info.supertypes.length).getD 0

/-- The number of supertypes that the declarations of unvisited names make. -/
def unvisitedSupertypes
    (visited : List String) :
    NameTable ClassInfo → Nat
  | [] => 0
  | (name, info) :: rest =>
      (if name ∈ visited then 0 else info.supertypes.length) + unvisitedSupertypes visited rest

/-- Before a walk, every declared supertype may still come onto the list. -/
theorem unvisitedSupertypes_nil
    (table : ClassTable) :
    unvisitedSupertypes [] table.classes = table.walkBound := by
  unfold walkBound
  induction table.classes with
  | nil =>
      rfl
  | cons entry rest inductionHypothesis =>
      simp [unvisitedSupertypes, inductionHypothesis]

/-- Visiting a name leaves no more supertypes to come. -/
theorem unvisitedSupertypes_cons_le
    (name : String)
    (visited : List String)
    (classes : NameTable ClassInfo) :
    unvisitedSupertypes (name :: visited) classes ≤ unvisitedSupertypes visited classes := by
  induction classes with
  | nil =>
      exact Nat.le_refl 0
  | cons entry rest inductionHypothesis =>
      have headLe : (if entry.1 ∈ name :: visited then 0 else entry.2.supertypes.length) ≤
          (if entry.1 ∈ visited then 0 else entry.2.supertypes.length) := by
        by_cases known : entry.1 ∈ visited
        · simp [known]
        · rw [if_neg known]
          split <;> omega
      exact Nat.add_le_add headLe inductionHypothesis

/-- Visiting a name for the first time uses up the supertypes of its class. -/
theorem unvisitedSupertypes_enter
    {name : String}
    {visited : List String}
    (isNew : name ∉ visited)
    (classes : NameTable ClassInfo) :
    supertypeCount classes name + unvisitedSupertypes (name :: visited) classes ≤
      unvisitedSupertypes visited classes := by
  induction classes with
  | nil =>
      exact Nat.le_refl 0
  | cons entry rest inductionHypothesis =>
      obtain ⟨declared, info⟩ := entry
      by_cases same : name = declared
      · subst same
        have found : supertypeCount ((name, info) :: rest) name = info.supertypes.length := by
          simp [supertypeCount, NameTable.find?]
        have restLe := unvisitedSupertypes_cons_le name visited rest
        simp only [unvisitedSupertypes, found, List.mem_cons, true_or, if_true, if_neg isNew]
        omega
      · have found : supertypeCount ((declared, info) :: rest) name = supertypeCount rest name := by
          simp [supertypeCount, NameTable.find?, List.lookup_cons, beq_eq_false_iff_ne.mpr same]
        have headSame : declared ∈ name :: visited ↔ declared ∈ visited := by
          simp [Ne.symm same]
        simp only [unvisitedSupertypes, found, headSame]
        omega

section Ending

variable
  {table : ClassTable}

/-- A walk that starts nowhere meets nothing. -/
theorem walk_nil
    (next : ClassType → List ClassType)
    (count : Nat)
    (seen : List String) :
    walk next count seen [] = [] := by
  cases count <;> rfl

/-- A walk that goes on to at most the declared supertypes of each class runs out of
classes to visit before it runs out of steps. -/
theorem walks_walk
    (table : ClassTable)
    {next : ClassType → List ClassType}
    (bounded : ∀ classType, (next classType).length ≤ supertypeCount table.classes classType.name) :
    ∀ {steps : Nat} {visited : List String} {pending : List ClassType},
      pending.length + unvisitedSupertypes visited table.classes ≤ steps →
      Walks next visited pending (walk next steps visited pending)
  | 0, visited, pending, enough => by
      obtain rfl : pending = [] := List.eq_nil_of_length_eq_zero (by omega)
      exact .done visited
  | steps + 1, visited, [], _ => .done visited
  | steps + 1, visited, classType :: rest, enough => by
      rw [List.length_cons] at enough
      rw [walk]
      split
      · next known =>
          exact .again (by simpa using known) (walks_walk table bounded (by omega))
      · next isNew =>
          have unvisited : classType.name ∉ visited := by simpa using isNew
          have usesUp := unvisitedSupertypes_enter unvisited table.classes
          have few := bounded classType
          refine .enters unvisited (walks_walk table bounded ?_)
          rw [List.length_append]
          omega

/-- A class has as many direct supertypes as it declares. -/
theorem length_directSupertypes
    (table : ClassTable)
    (classType : ClassType) :
    (table.directSupertypes classType).length = supertypeCount table.classes classType.name := by
  unfold directSupertypes supertypeCount class?
  cases table.classes.find? classType.name <;> simp

/-- What is reached is what a walk through the supertypes of each class meets, as
long as it goes on to some of them only. -/
theorem walks_reachable
    {select : Ty → Option ClassType}
    (start : List ClassType) :
    Walks (fun classType => (table.directSupertypes classType).filterMap select) []
      start (table.reachable
        (fun classType => (table.directSupertypes classType).filterMap select) start) := by
  refine walks_walk table (fun classType => ?_) ?_
  · rw [← length_directSupertypes]
    exact List.length_filterMap_le ..
  · exact Nat.le_of_eq (by rw [unvisitedSupertypes_nil])

/-- The classes met through the bounds of variables and wildcards among the
supertypes. -/
theorem walks_parents
    (table : ClassTable)
    (start : List ClassType) :
    Walks table.parents [] start (table.reachable table.parents start) :=
  walks_reachable start

/-- The classes met through the class types among the supertypes. -/
theorem walks_parentClasses
    (table : ClassTable)
    (start : List ClassType) :
    Walks table.parentClasses [] start (table.reachable table.parentClasses start) :=
  walks_reachable start

end Ending

/-!
## Hierarchies of classes

Where every declared supertype is a class type, the names a class goes on to do
not depend on its type arguments, and no bound is looked into on the way.
-/

/-- Every class of a table inherits from class types only. -/
def InheritsClasses
    (table : ClassTable) :
    Prop :=
  ∀ {name info}, table.class? name = some info →
    ∀ ty ∈ info.supertypes, ∃ inherited : ClassType, inherited.toTy = ty

end ClassTable

namespace ClassType

@[simp] theorem classType?_toTy
    (classType : ClassType) :
    classType.toTy.classType? = some classType :=
  rfl

@[simp] theorem inheritingClass?_toTy
    (classType : ClassType) :
    classType.toTy.inheritingClass? = some classType :=
  rfl

end ClassType

/-- A type that is a class type is the type of it. -/
theorem Ty.eq_toTy_of_classType?
    {ty : Ty}
    {classType : ClassType}
    (isClass : ty.classType? = some classType) :
    ty = classType.toTy := by
  cases ty with
  | classType name args =>
      cases isClass
      rfl
  | _ =>
      cases isClass

namespace ClassInfo

/-- The class types that a class declares to inherit from. -/
def inheritedClasses
    (info : ClassInfo) :
    List ClassType :=
  info.supertypes.filterMap Ty.classType?

/-- A class type from the declaration of a class as seen through a use of it. -/
def seenClass
    (info : ClassInfo)
    (args : List Ty)
    (declared : ClassType) :
    ClassType :=
  ⟨declared.name,
    if info.isRaw args then [] else Ty.substituteAll (info.bindings args) declared.args⟩

/-- A class type is seen as one. -/
theorem seenFrom_toTy
    (info : ClassInfo)
    (args : List Ty)
    (declared : ClassType) :
    info.seenFrom args declared.toTy = (info.seenClass args declared).toTy := by
  unfold seenFrom seenClass ClassType.toTy
  split <;> simp [Ty.erasure, Ty.substitute]

end ClassInfo

namespace ClassTable

variable
  {table : ClassTable}
  {classType : ClassType}

/-- A class that is not declared has no supertypes. -/
theorem directSupertypes_of_missing
    (missing : table.class? classType.name = none) :
    table.directSupertypes classType = [] := by
  simp [directSupertypes, missing]

namespace InheritsClasses

/-- The direct supertypes of a class are the classes it declares to inherit from,
seen through its arguments. -/
theorem directSupertypes_eq
    (inherits : table.InheritsClasses)
    {info : ClassInfo}
    (found : table.class? classType.name = some info) :
    table.directSupertypes classType =
      (info.inheritedClasses.map (info.seenClass classType.args)).map ClassType.toTy := by
  have areClasses := inherits found
  simp only [directSupertypes, ClassInfo.inheritedClasses, found]
  generalize info.supertypes = types at areClasses
  induction types with
  | nil =>
      rfl
  | cons ty rest inductionHypothesis =>
      obtain ⟨⟨declared, rfl⟩, restAreClasses⟩ := List.forall_mem_cons.mp areClasses
      simp only [List.map_cons, List.filterMap_cons, ClassType.classType?_toTy,
        ClassInfo.seenFrom_toTy, inductionHypothesis restAreClasses]

/-- A walk goes on to the classes a class declares to inherit from, seen through its
arguments. -/
theorem parentClasses_eq
    (inherits : table.InheritsClasses)
    {info : ClassInfo}
    (found : table.class? classType.name = some info) :
    table.parentClasses classType =
      info.inheritedClasses.map (info.seenClass classType.args) := by
  simp [parentClasses, inherits.directSupertypes_eq found, List.filterMap_map, Function.comp_def]

/-- No bound is looked into on the way to the supertypes of a class. -/
theorem parents_eq
    (inherits : table.InheritsClasses) :
    table.parents = table.parentClasses := by
  funext classType
  unfold parents parentClasses
  cases found : table.class? classType.name with
  | none =>
      rw [directSupertypes_of_missing found]
      rfl
  | some info =>
      simp [inherits.directSupertypes_eq found, List.filterMap_map, Function.comp_def]

/-- Uses of one class go on to related classes if each of the classes it declares to
inherit from is related as the two of them see it. -/
theorem forall₂_parentClasses
    (inherits : table.InheritsClasses)
    {related : ClassType → ClassType → Prop}
    {first second : ClassType}
    (sameName : first.name = second.name)
    (seenAlike : ∀ {info}, table.class? first.name = some info →
      ∀ declared ∈ info.inheritedClasses,
        related (info.seenClass first.args declared) (info.seenClass second.args declared)) :
    List.Forall₂ related (table.parentClasses first) (table.parentClasses second) := by
  cases found : table.class? first.name with
  | none =>
      have alsoMissing := sameName ▸ found
      simp [parentClasses, directSupertypes_of_missing found,
        directSupertypes_of_missing alsoMissing]
  | some info =>
      rw [inherits.parentClasses_eq found, inherits.parentClasses_eq (sameName ▸ found),
        List.forall₂_map_left_iff, List.forall₂_map_right_iff, List.forall₂_same]
      exact seenAlike found

end InheritsClasses

end ClassTable

end LoopLowering
