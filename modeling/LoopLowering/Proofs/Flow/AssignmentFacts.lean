import LoopLowering.Proofs.Flow.AlikeStates
import LoopLowering.Proofs.Flow.NullTables
import LoopLowering.Proofs.Flow.Targets

namespace LoopLowering

/-!
# What flow states know about assignments

Every operation on flow states keeps that a local which every path has assigned is one that
some path has assigned, and no operation that brings two states together forgets what either
of them may have assigned. A second assignment to a final local can therefore be told from the
locals that may have been assigned.
-/

/-- Parts of two sets with the same further local are parts of the sets with it. -/
theorem VarSet.Within.insert
    {first second : VarSet}
    (within : first.Within second)
    (added : LocalId) :
    (first.insert added).Within (second.insert added) := by
  intro id member
  rw [contains_insert, Bool.or_eq_true] at member ⊢
  exact member.imp_left (within id)

namespace FlowState

/-- What every path has assigned some path has assigned, and nothing idle is kept about
references. -/
structure IsConsistent
    (state : FlowState) :
    Prop where
  assigned : state.definite.Within state.potential
  telling : ∀ fact ∈ state.nulls, fact.2 ≠ .unknown

variable
  {state first second : FlowState}

/-- What code that has run may have assigned may be assigned after it. -/
theorem potential_afterRun
    (state run : FlowState) :
    (state.afterRun run).potential = state.potential.union run.potential :=
  (afterRun_assigns state run).potential.symm

/-- Where two paths meet, what both have assigned is assigned on either of them. -/
theorem within_merge
    (isFirst : first.definite.Within first.potential)
    (isSecond : second.definite.Within second.potential) :
    (first.merge second).definite.Within (first.merge second).potential := by
  have left : first.definite.Within (first.potential.union second.potential) :=
    isFirst.trans (VarSet.within_union_left _ _)
  have right : second.definite.Within (first.potential.union second.potential) :=
    isSecond.trans (VarSet.within_union_right _ _)
  rw [potential_merge]
  unfold merge
  split
  · exact (VarSet.inter_within_left _ _).trans left
  · exact left
  · exact right
  · exact (VarSet.inter_within_left _ _).trans left

/-- What code that has run has assigned it may have assigned. -/
theorem within_afterRun
    (isFirst : first.definite.Within first.potential)
    (isSecond : second.definite.Within second.potential) :
    (first.afterRun second).definite.Within (first.afterRun second).potential := by
  rw [potential_afterRun, ← (afterRun_assigns first second).definite]
  exact (isFirst.trans (VarSet.within_union_left _ _)).union
    (isSecond.trans (VarSet.within_union_right _ _))

/-- Code that may have run takes nothing away. -/
theorem within_afterOptional
    (isFirst : first.definite.Within first.potential)
    (optional : FlowState) :
    (first.afterOptional optional).definite.Within (first.afterOptional optional).potential :=
  isFirst.trans (VarSet.within_union_left _ _)

/-- A state that operations lead to is consistent. -/
theorem IsBuilt.isConsistent
    (built : state.IsBuilt) :
    state.IsConsistent := by
  refine ⟨?_, built.isTable.telling⟩
  induction built with
  | initial | deadEnd =>
      exact .refl _
  | unreachable _ within | setNull _ _ _ within | withoutNulls _ within =>
      exact within
  | assign id _ within =>
      exact within.insert id
  | merge _ _ isFirst isSecond =>
      exact within_merge isFirst isSecond
  | afterRun _ _ isFirst isSecond =>
      exact within_afterRun isFirst isSecond
  | @afterOptional _ optional _ _ isFirst _ =>
      exact within_afterOptional isFirst optional
  | @mergeBranches first second _ _ _ _ _ isFirst isSecond =>
      unfold FlowState.mergeBranches
      split
      · split
        · exact isSecond
        · exact within_afterOptional isFirst second
      · split
        · split
          · exact isFirst
          · exact within_afterOptional isSecond first
        · exact within_merge isFirst isSecond

/-- A dead end has assigned nothing. -/
theorem potential_of_isDeadEnd
    (dead : state.isDeadEnd = true) :
    state.potential = .empty := by
  simp only [isDeadEnd, VarSet.isEmpty_iff, Bool.and_eq_true] at dead
  ext id
  rw [dead.1.2 id, VarSet.contains_empty]

/-- A state that operations lead to knows of every local assigned on all paths that it is
assigned on some path, and keeps nothing idle about references. Where it is brought together
with another one, what either of them may have assigned may be assigned; only a dead end adds
nothing, and it has nothing to add. -/
theorem IsBuilt.keepsAssignments
    (built : state.IsBuilt) :
    (∀ id, state.definite.contains id = true → state.potential.contains id = true) ∧
    (∀ fact ∈ state.nulls, fact.2 ≠ .unknown) ∧
    ∀ other : FlowState, other.IsBuilt →
      (state.potential.Within (state.merge other).potential ∧
        other.potential.Within (state.merge other).potential) ∧
      (state.potential.Within (state.afterRun other).potential ∧
        other.potential.Within (state.afterRun other).potential) ∧
      (state.potential.Within (state.afterOptional other).potential ∧
        other.potential.Within (state.afterOptional other).potential) ∧
      (other.isDeadEnd = true → state.afterRun other = state ∧ other.potential = .empty) := by
  have consistent := built.isConsistent
  refine ⟨consistent.assigned, consistent.telling, fun other _ => ⟨?_, ?_, ?_, ?_⟩⟩
  · rw [potential_merge]
    exact ⟨VarSet.within_union_left _ _, VarSet.within_union_right _ _⟩
  · rw [potential_afterRun]
    exact ⟨VarSet.within_union_left _ _, VarSet.within_union_right _ _⟩
  · exact ⟨VarSet.within_union_left _ _, VarSet.within_union_right _ _⟩
  · intro dead
    exact ⟨if_pos dead, potential_of_isDeadEnd dead⟩

/-- A local is null where a path that has assigned another one ends. -/
def joinsEndedPath :
    FlowState :=
  ((initial.assign 0).setNull 0 .null).merge (deadEnd.assign 70)

/-- The other local is not assigned there but may have been, also after further code. -/
theorem joinsEndedPath_keepsAssignments :
    joinsEndedPath.IsBuilt ∧ (initial.assign 1).IsBuilt ∧
      joinsEndedPath.definite.contains 0 = true ∧ joinsEndedPath.potential.contains 0 = true ∧
      joinsEndedPath.definite.contains 70 = false ∧
      (joinsEndedPath.afterRun (initial.assign 1)).potential.contains 70 = true ∧
      deadEnd.isDeadEnd = true ∧ joinsEndedPath.afterRun deadEnd = joinsEndedPath := by
  have built : joinsEndedPath.IsBuilt :=
    .merge (.setNull 0 .null (.assign 0 .initial)) (.assign 70 .deadEnd)
  have further : (initial.assign 1).IsBuilt := .assign 1 .initial
  have assigned : joinsEndedPath.definite.contains 0 = true := by decide
  have mayBe : joinsEndedPath.potential.contains 70 = true := by decide
  obtain ⟨within, -, together⟩ := built.keepsAssignments
  exact ⟨built, further, assigned, within 0 assigned, by decide,
    (together _ further).2.1.1 70 mayBe, by decide, ((together _ .deadEnd).2.2.2 (by decide)).1⟩

end FlowState

end LoopLowering
