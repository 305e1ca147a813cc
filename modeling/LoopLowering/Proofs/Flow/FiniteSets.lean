import LoopLowering.Flow.VarSet
import Mathlib.Data.Finset.Card

namespace LoopLowering

/-!
# Sets of locals as finite sets

Stored sets of different length meet in every operation. The members of the result are all the
same those of the operation on finite sets, and so they are after any number of operations on
any number of sets. What can be asked of a stored set is then answered as the finite set of its
members answers it, in however many words the set is stored.
-/

namespace PackedSet

/-- The members as a finite set. -/
def toFinset
    (set : PackedSet) :
    Finset Nat :=
  set.members.toFinset

variable
  (set first second : PackedSet)

@[simp] theorem mem_toFinset
    (id : Nat) :
    id ∈ set.toFinset ↔ set.contains id = true := by
  rw [toFinset, List.mem_toFinset, members, List.mem_filter, List.mem_range, and_iff_right_iff_imp]
  intro member
  by_contra notStored
  rw [contains_of_length_le (Nat.le_of_not_lt notStored)] at member
  cases member

/-- Each member is counted once. -/
theorem card_toFinset :
    set.toFinset.card = set.size := by
  rw [toFinset, size_eq_length]
  exact List.toFinset_card_of_nodup (List.nodup_range.filter set.contains)

/-- The empty set has no members. -/
theorem toFinset_empty :
    empty.toFinset = ∅ := by
  ext id
  simp

/-- Inserting adds a member. -/
theorem toFinset_insert
    (added : Nat) :
    (set.insert added).toFinset = Insert.insert added set.toFinset := by
  ext id
  rw [mem_toFinset, Finset.mem_insert, mem_toFinset, contains_insert, Bool.or_eq_true,
    decide_eq_true_iff, or_comm, eq_comm]

/-- The members of a union are those of both sets. -/
theorem toFinset_union :
    (first.union second).toFinset = first.toFinset ∪ second.toFinset := by
  ext id
  simp

/-- The members of an intersection are the common ones. -/
theorem toFinset_inter :
    (first.inter second).toFinset = first.toFinset ∩ second.toFinset := by
  ext id
  simp

/-- A set counts as empty if it has no members. -/
theorem isEmpty_iff_toFinset :
    set.isEmpty = true ↔ set.toFinset = ∅ := by
  rw [isEmpty_iff, Finset.eq_empty_iff_forall_notMem]
  exact forall_congr' fun id => by simp

/-- Sets have the same words if they have the same members. -/
theorem sameWords_iff_toFinset :
    first.sameWords second = true ↔ first.toFinset = second.toFinset := by
  rw [sameWords_iff, Finset.ext_iff]
  exact forall_congr' fun id => by rw [mem_toFinset, mem_toFinset, Bool.eq_iff_iff]

end PackedSet

/-! ### Operations on many sets -/

/-- The operations that make sets of locals. -/
structure SetOperations
    (Stored : Type) where
  empty : Stored
  insert : LocalId → Stored → Stored
  union : Stored → Stored → Stored
  inter : Stored → Stored → Stored

namespace SetOperations

/-- The operations on words. -/
def packed :
    SetOperations PackedSet :=
  ⟨.empty, .insert, .union, .inter⟩

/-- The operations on sets that do not depend on the words. -/
def shared :
    SetOperations VarSet :=
  ⟨.empty, .insert, .union, .inter⟩

/-- The operations on finite sets. -/
def finite :
    SetOperations (Finset Nat) :=
  ⟨∅, Insert.insert, (· ∪ ·), (· ∩ ·)⟩

/-- Sets can be seen as others that have the same operations. -/
structure Preserves
    {Stored Seen : Type}
    (operations : SetOperations Stored)
    (others : SetOperations Seen)
    (view : Stored → Seen) :
    Prop where
  empty : view operations.empty = others.empty
  insert : ∀ id set, view (operations.insert id set) = others.insert id (view set)
  union : ∀ first second,
    view (operations.union first second) = others.union (view first) (view second)
  inter : ∀ first second,
    view (operations.inter first second) = others.inter (view first) (view second)

/-- Stored sets can be seen as finite sets. -/
theorem preserves_toFinset :
    packed.Preserves finite PackedSet.toFinset where
  empty := PackedSet.toFinset_empty
  insert := fun id set => PackedSet.toFinset_insert set id
  union := PackedSet.toFinset_union
  inter := PackedSet.toFinset_inter

/-- Stored sets can be seen without their words. -/
theorem preserves_ofPacked :
    packed.Preserves shared VarSet.ofPacked where
  empty := rfl
  insert := fun _ _ => rfl
  union := fun _ _ => rfl
  inter := fun _ _ => rfl

end SetOperations

/-- A step that changes one of many sets. -/
inductive SetStep where
  | create (set : Nat)
  | insert (set : Nat) (id : LocalId)
  | union (set other : Nat)
  | inter (set other : Nat)
  | clone (set other : Nat)
  deriving Repr

namespace SetStep

variable
  {Stored Seen : Type}

/-- The set that a step changes. -/
def target :
    SetStep → Nat
  | .create set | .insert set _ | .union set _ | .inter set _ | .clone set _ => set

/-- What a step makes of the set it changes. -/
def result
    (operations : SetOperations Stored)
    (sets : Nat → Stored) :
    SetStep → Stored
  | .create _ => operations.empty
  | .insert set id => operations.insert id (sets set)
  | .union set other => operations.union (sets set) (sets other)
  | .inter set other => operations.inter (sets set) (sets other)
  | .clone _ other => sets other

/-- The sets after a step. -/
def run
    (operations : SetOperations Stored)
    (sets : Nat → Stored)
    (step : SetStep) :
    Nat → Stored :=
  fun set => if set = step.target then step.result operations sets else sets set

/-- The sets after some steps. -/
def runAll
    (operations : SetOperations Stored)
    (sets : Nat → Stored)
    (steps : List SetStep) :
    Nat → Stored :=
  steps.foldl (run operations) sets

variable
  {operations : SetOperations Stored}
  {others : SetOperations Seen}
  {view : Stored → Seen}

/-- A step can be seen as a step of what the sets are seen as. -/
theorem run_view
    (preserves : operations.Preserves others view)
    (sets : Nat → Stored)
    (step : SetStep) :
    view ∘ step.run operations sets = step.run others (view ∘ sets) := by
  funext set
  simp only [Function.comp_apply, run]
  split
  · cases step with
    | create => exact preserves.empty
    | insert set id => exact preserves.insert id (sets set)
    | union set other => exact preserves.union (sets set) (sets other)
    | inter set other => exact preserves.inter (sets set) (sets other)
    | clone => rfl
  · rfl

/-- So can any number of steps. -/
theorem runAll_view
    (preserves : operations.Preserves others view)
    (sets : Nat → Stored)
    (steps : List SetStep) :
    view ∘ runAll operations sets steps = runAll others (view ∘ sets) steps := by
  induction steps generalizing sets with
  | nil =>
      rfl
  | cons step rest inductionHypothesis =>
      rw [runAll, List.foldl_cons, ← runAll, inductionHypothesis, run_view preserves]
      rfl

end SetStep

/-- Whatever is done with any number of stored sets, they answer as finite sets do with which
the same has been done: to whether they contain a local, to whether they are empty, to how many
members they have, and to whether they are equal. In how many words they are stored has no part
in it, and so the same is true of the sets without their words. -/
theorem PackedSet.answers_asFinset
    (sets : Nat → PackedSet)
    (steps : List SetStep)
    (set other : Nat) :
    let stored := SetStep.runAll .packed sets steps
    let shared := SetStep.runAll .shared (VarSet.ofPacked ∘ sets) steps
    let exact := SetStep.runAll .finite (PackedSet.toFinset ∘ sets) steps
    ((∀ id, (stored set).contains id = true ↔ id ∈ exact set) ∧
      ((stored set).isEmpty = true ↔ exact set = ∅) ∧
      (stored set).size = (exact set).card ∧
      ((stored set).sameWords (stored other) = true ↔ exact set = exact other)) ∧
    ((∀ id, (shared set).contains id = true ↔ id ∈ exact set) ∧
      ((shared set).isEmpty = true ↔ exact set = ∅) ∧
      (shared set).size = (exact set).card ∧
      (shared set = shared other ↔ exact set = exact other)) := by
  intro stored shared exact
  have isExact : ∀ number, exact number = (stored number).toFinset := fun number =>
    (congrFun (SetStep.runAll_view SetOperations.preserves_toFinset sets steps) number).symm
  have isShared : ∀ number, shared number = VarSet.ofPacked (stored number) := fun number =>
    (congrFun (SetStep.runAll_view SetOperations.preserves_ofPacked sets steps) number).symm
  have members : ∀ id, (stored set).contains id = true ↔ id ∈ exact set := fun id => by
    rw [isExact, mem_toFinset]
  have isEmpty : (stored set).isEmpty = true ↔ exact set = ∅ := by
    rw [isExact, isEmpty_iff_toFinset]
  have size : (stored set).size = (exact set).card := by
    rw [isExact, card_toFinset]
  have same : (stored set).sameWords (stored other) = true ↔ exact set = exact other := by
    rw [isExact, isExact, sameWords_iff_toFinset]
  refine ⟨⟨members, isEmpty, size, same⟩, ?_⟩
  rw [isShared, isShared]
  exact ⟨members, isEmpty, size, ⟨fun equal => same.mp (Quotient.exact equal),
    fun equal => Quotient.sound (same.mpr equal)⟩⟩

/-- A long set is equal to a short one once it has only the members of the short one. -/
example :
    let sets := SetStep.runAll .packed (fun _ => .empty)
      [.insert 0 130, .clone 1 0, .insert 1 7, .inter 1 0, .insert 2 7, .inter 0 2]
    (sets 0).words.length = 3 ∧ (sets 2).words.length = 1 ∧ (sets 0).isEmpty = true ∧
      (sets 1).size = 1 ∧ (sets 0).sameWords .empty = true ∧
      (sets 1).sameWords (sets 2) = false := by
  decide

end LoopLowering
