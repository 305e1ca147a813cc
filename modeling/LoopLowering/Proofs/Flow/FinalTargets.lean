import LoopLowering.Proofs.Flow.Reachability

namespace LoopLowering

/-!
# Assignments that jump targets collect

A local may be assigned at the target of a jump if it was assigned on some path to
the jump. The loops around an assignment to a final local keep the assignment
until they know whether another iteration repeats it, up to the loop in which the
local is declared.
-/

namespace FlowState

variable
  {id : LocalId}

@[simp] theorem mayBeAssigned_assign
    (assigned : LocalId)
    (flow : FlowState) :
    (flow.assign assigned).mayBeAssigned id =
      (flow.mayBeAssigned id || decide (assigned = id)) := by
  simp [mayBeAssigned, assign]

@[simp] theorem mayBeAssigned_setNull
    (local_ : LocalId)
    (status : NullStatus)
    (flow : FlowState) :
    (flow.setNull local_ status).mayBeAssigned id = flow.mayBeAssigned id :=
  rfl

@[simp] theorem mayBeAssigned_withoutNulls
    (flow : FlowState) :
    flow.withoutNulls.mayBeAssigned id = flow.mayBeAssigned id :=
  rfl

@[simp] theorem mayBeAssigned_merge
    (first second : FlowState) :
    (first.merge second).mayBeAssigned id =
      (first.mayBeAssigned id || second.mayBeAssigned id) := by
  unfold merge mayBeAssigned
  split <;> simp

@[simp] theorem mayBeAssigned_afterOptional
    (flow optional : FlowState) :
    (flow.afterOptional optional).mayBeAssigned id =
      (flow.mayBeAssigned id || optional.mayBeAssigned id) := by
  simp [mayBeAssigned, afterOptional]

/-- After code that has run on a path, what may be assigned by it or before may be
assigned. -/
theorem mayBeAssigned_afterRun
    (flow : FlowState)
    {run : FlowState}
    (reached : run.reachable = true) :
    (flow.afterRun run).mayBeAssigned id = (flow.mayBeAssigned id || run.mayBeAssigned id) := by
  simp [mayBeAssigned, afterRun, isDeadEnd, reached]

end FlowState

namespace JumpStack

@[simp] theorem not_continues_breaks
    (stack : JumpStack)
    (label : Option String) :
    ¬stack.Continues (.breaks label) := by
  simp [Continues]

/-- Between two times the targets of jumps have collected that a local may be
assigned, given the ends of the executions on which it is, and the loops around the
code that do not declare the local have kept its assignments, if there are any. -/
def Tracks
    (id : LocalId)
    (within : ScopeId → Bool) :
    (before after : JumpStack) → (ends : TraceEnd → Prop) → (assigned : Prop) → Prop
  | [], [], _, _ => True
  | .loop earlier :: before, .loop later :: after, ends, assigned =>
      later.scope = earlier.scope ∧
        (earlier.onBreak.mayBeAssigned id = true ∨ ends (.breaks none) →
          later.onBreak.mayBeAssigned id = true) ∧
        (earlier.onContinue.mayBeAssigned id = true ∨
            (∃ outcome, ends outcome ∧ Continues before outcome) →
          later.onContinue.mayBeAssigned id = true) ∧
        (∀ use ∈ earlier.deferredFinals, use ∈ later.deferredFinals) ∧
        (within earlier.scope = false → assigned → ∃ span, (id, span) ∈ later.deferredFinals) ∧
        Tracks id within before after
          (fun outcome => ends outcome ∧ outcome ≠ .breaks none ∧ ¬Continues before outcome)
          (within earlier.scope = false ∧ assigned)
  | .label earlier :: before, .label later :: after, ends, assigned =>
      later.name = earlier.name ∧ later.labelsLoop = earlier.labelsLoop ∧
        (earlier.onBreak.mayBeAssigned id = true ∨ ends (.breaks (some earlier.name)) →
          later.onBreak.mayBeAssigned id = true) ∧
        Tracks id within before after
          (fun outcome => ends outcome ∧ outcome ≠ .breaks (some earlier.name)) assigned
  | _, _, _, _ => False

namespace Tracks

variable
  {id : LocalId}
  {within : ScopeId → Bool}
  {before after : JumpStack}
  {ends others : TraceEnd → Prop}
  {assigned repeated : Prop}

theorem mono :
    ∀ {before after : JumpStack} {ends others : TraceEnd → Prop} {assigned repeated : Prop},
      before.Tracks id within after ends assigned →
      (∀ label, (others (.breaks label) → ends (.breaks label)) ∧
        (others (.continues label) → ends (.continues label))) →
      (repeated → assigned) →
      before.Tracks id within after others repeated
  | [], [], _, _, _, _, _, _, _ => trivial
  | .loop earlier :: before, .loop later :: after, ends, others, _, _, tracks, fewer, less => by
      obtain ⟨scope, onBreak, onContinue, keeps, defers, rest⟩ := tracks
      have continues : ∀ outcome, Continues before outcome → others outcome → ends outcome := by
        rintro outcome (rfl | ⟨name, -, rfl⟩)
        · exact (fewer none).2
        · exact (fewer (some name)).2
      refine ⟨scope, fun breaks => onBreak (breaks.imp_right (fewer none).1),
        fun resumed => onContinue (resumed.imp_right ?_), keeps,
        fun outside isAssigned => defers outside (less isAssigned), rest.mono (fun label => ?_)
          (And.imp_right less)⟩
      · exact fun ⟨outcome, isEnd, isContinue⟩ =>
          ⟨outcome, continues outcome isContinue isEnd, isContinue⟩
      · exact ⟨And.imp_left (fewer label).1, And.imp_left (fewer label).2⟩
  | .label earlier :: before, .label later :: after, ends, others, _, _, tracks, fewer, less => by
      obtain ⟨name, labelsLoop, onBreak, rest⟩ := tracks
      exact ⟨name, labelsLoop, fun breaks => onBreak (breaks.imp_right (fewer _).1),
        rest.mono (fun label => ⟨And.imp_left (fewer label).1, And.imp_left (fewer label).2⟩) less⟩

theorem refl :
    ∀ (stack : JumpStack), stack.Tracks id within stack (fun _ => False) False
  | [] => trivial
  | .loop record :: stack =>
      ⟨rfl, by simp, by simp, fun _ member => member, by simp,
        (refl stack).mono (by simp) (by simp)⟩
  | .label record :: stack =>
      ⟨rfl, rfl, by simp, (refl stack).mono (by simp) (by simp)⟩

/-- The label around a loop stays the same. -/
theorem loopLabel?_eq :
    ∀ {before after : JumpStack},
      before.Tracks id within after ends assigned →
      after.loopLabel? = before.loopLabel?
  | [], [], _ => rfl
  | .loop _ :: _, .loop _ :: _, _ => rfl
  | .label earlier :: before, .label later :: after, tracks => by
      obtain ⟨name, labelsLoop, -⟩ := tracks
      simp only [loopLabel?, name, labelsLoop]

theorem trans :
    ∀ {first second third : JumpStack} {ends others : TraceEnd → Prop} {assigned repeated : Prop},
      first.Tracks id within second ends assigned →
      second.Tracks id within third others repeated →
      first.Tracks id within third (fun outcome => ends outcome ∨ others outcome)
        (assigned ∨ repeated)
  | [], [], [], _, _, _, _, _, _ => trivial
  | .loop first :: before, .loop second :: middle, .loop third :: after, ends, others, assigned,
      repeated, tracks, further => by
      obtain ⟨scope, onBreak, onContinue, keeps, defers, rest⟩ := tracks
      obtain ⟨laterScope, laterBreak, laterContinue, laterKeeps, laterDefers, laterRest⟩ := further
      have same : ∀ outcome, Continues middle outcome ↔ Continues before outcome := by
        simp only [Continues, rest.loopLabel?_eq, implies_true]
      simp only [same] at laterContinue laterRest
      rw [scope] at laterScope laterDefers laterRest
      refine ⟨laterScope, ?_, ?_, fun use member => laterKeeps use (keeps use member), ?_,
        (rest.trans laterRest).mono ?_ ?_⟩
      · rintro (earlier | breaks | breaks)
        · exact laterBreak (.inl (onBreak (.inl earlier)))
        · exact laterBreak (.inl (onBreak (.inr breaks)))
        · exact laterBreak (.inr breaks)
      · rintro (earlier | ⟨outcome, isEnd | isEnd, isContinue⟩)
        · exact laterContinue (.inl (onContinue (.inl earlier)))
        · exact laterContinue (.inl (onContinue (.inr ⟨outcome, isEnd, isContinue⟩)))
        · exact laterContinue (.inr ⟨outcome, isEnd, isContinue⟩)
      · rintro outside (isAssigned | isRepeated)
        · exact (defers outside isAssigned).imp fun span => laterKeeps (id, span)
        · exact laterDefers outside isRepeated
      · simp only [or_and_right, imp_self, and_self, implies_true]
      · exact and_or_left.mp
  | .label first :: before, .label second :: middle, .label third :: after, ends, others, assigned,
      repeated, tracks, further => by
      obtain ⟨name, labelsLoop, onBreak, rest⟩ := tracks
      obtain ⟨laterName, laterLoop, laterBreak, laterRest⟩ := further
      rw [name] at laterName laterBreak laterRest
      refine ⟨laterName, laterLoop.trans labelsLoop, ?_,
        (rest.trans laterRest).mono ?_ fun isAssigned => isAssigned⟩
      · rintro (earlier | breaks | breaks)
        · exact laterBreak (.inl (onBreak (.inl earlier)))
        · exact laterBreak (.inl (onBreak (.inr breaks)))
        · exact laterBreak (.inr breaks)
      · simp only [or_and_right, imp_self, and_self, implies_true]

/-- An assignment to the local is kept by the loops around it that do not declare it. -/
theorem deferFinal
    (scopes : MethodScope)
    (id : LocalId)
    (declaredIn : ScopeId)
    (span : Span) :
    ∀ (stack : JumpStack),
      stack.Tracks id (scopes.isWithin declaredIn) (stack.deferFinal scopes id declaredIn span)
        (fun _ => False) True
  | [] => trivial
  | .label record :: stack =>
      ⟨rfl, rfl, by simp, (deferFinal scopes id declaredIn span stack).mono (by simp) (by simp)⟩
  | .loop record :: stack => by
      simp only [JumpStack.deferFinal]
      split
      · next inside =>
          exact ⟨rfl, by simp, by simp, fun _ member => member, by simp [inside],
            (refl stack).mono (by simp) (by simp [inside])⟩
      · exact ⟨rfl, by simp, by simp, fun _ member => List.mem_append_left _ member,
          fun _ _ => ⟨span, by simp⟩,
          (deferFinal scopes id declaredIn span stack).mono (by simp) (by simp)⟩

/-- An assignment to another local does not matter. -/
theorem deferFinal_other
    (scopes : MethodScope)
    (other : LocalId)
    (declaredIn : ScopeId)
    (span : Span) :
    ∀ (stack : JumpStack),
      stack.Tracks id within (stack.deferFinal scopes other declaredIn span) (fun _ => False) False
  | [] => trivial
  | .label record :: stack =>
      ⟨rfl, rfl, by simp,
        (deferFinal_other scopes other declaredIn span stack).mono (by simp) (by simp)⟩
  | .loop record :: stack => by
      simp only [JumpStack.deferFinal]
      split
      · exact .refl _
      · exact ⟨rfl, by simp, by simp, fun _ member => List.mem_append_left _ member, by simp,
          (deferFinal_other scopes other declaredIn span stack).mono (by simp) (by simp)⟩

/-- The use of a reference does not matter. -/
theorem deferNull
    (scopes : MethodScope)
    (used : LocalId)
    (declaredIn : ScopeId)
    (span : Span) :
    ∀ (stack : JumpStack),
      stack.Tracks id within (stack.deferNull scopes used declaredIn span) (fun _ => False) False
  | [] => trivial
  | .label record :: stack =>
      ⟨rfl, rfl, by simp, (deferNull scopes used declaredIn span stack).mono (by simp) (by simp)⟩
  | .loop record :: stack => by
      simp only [JumpStack.deferNull]
      split
      · exact .refl _
      · exact ⟨rfl, by simp, by simp, fun _ member => member, by simp,
          (refl stack).mono (by simp) (by simp)⟩

end Tracks

/-- A jump that is recorded takes along what may be assigned. -/
theorem Takes.tracks
    {id : LocalId}
    {within : ScopeId → Bool}
    {jump : TakenJump}
    {stack after : JumpStack}
    (takes : Takes jump stack after) :
    stack.Tracks id within after
      (fun outcome => jump.state.mayBeAssigned id = true ∧ outcome = jump.ending) False := by
  induction takes with
  | breaksLoop =>
      exact ⟨rfl, by simp [LoopRecord.addBreak, TakenJump.state, TakenJump.ending],
        by simp +contextual [LoopRecord.addBreak, TakenJump.ending], fun _ member => member,
        by simp, (Tracks.refl _).mono (by simp [TakenJump.ending]) (by simp)⟩
  | continuesLoop =>
      exact ⟨rfl, by simp [LoopRecord.addContinue, TakenJump.ending],
        by simp +contextual [LoopRecord.addContinue, TakenJump.state, or_imp],
        fun _ member => member, by simp,
        (Tracks.refl _).mono (by simp +contextual [TakenJump.ending, Continues]) (by simp)⟩
  | breaksLabel =>
      exact ⟨rfl, rfl, by simp [LabelRecord.addBreak, TakenJump.state, TakenJump.ending],
        (Tracks.refl _).mono (by simp +contextual [TakenJump.ending]) (by simp)⟩
  | continuesLabeled labelsLoop =>
      exact ⟨rfl, by simp [LoopRecord.addContinue, TakenJump.ending],
        by simp +contextual [LoopRecord.addContinue, TakenJump.state, or_imp],
        fun _ member => member, by simp,
        (Tracks.refl _).mono
          (by simp +contextual [TakenJump.ending, Continues, loopLabel?, labelsLoop]) (by simp)⟩
  | @passesLabel jump record rest after isOther takes inductionHypothesis =>
      have passes := (TakenJump.ending_ne isOther).1
      exact ⟨rfl, rfl, by simp [passes.symm],
        inductionHypothesis.mono (by simp +contextual) (by simp)⟩
  | breakPasses takes inductionHypothesis =>
      exact ⟨rfl, by simp [TakenJump.ending], by simp +contextual [TakenJump.ending],
        fun _ member => member, by simp, inductionHypothesis.mono (by simp +contextual) (by simp)⟩
  | continuePasses isOther takes inductionHypothesis =>
      have passes := not_continues isOther
      exact ⟨rfl, by simp [TakenJump.ending], by simp +contextual [TakenJump.ending, passes],
        fun _ member => member, by simp, inductionHypothesis.mono (by simp +contextual) (by simp)⟩

end JumpStack

end LoopLowering
