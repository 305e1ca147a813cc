import LoopLowering.Proofs.Flow.Behaviour
import LoopLowering.Proofs.Flow.Narrowing

namespace LoopLowering

/-!
# Where executions arrive

What matters about an execution for the control flow is how it ends. Between two
points flow analysis has followed some code if the later point is reached exactly
if an execution completes, and if the targets of jumps have collected exactly the
jumps by which executions end.
-/

namespace Behaviour

/-- Some execution ends in a way. -/
def Ends
    (behaviour : Behaviour)
    (outcome : TraceEnd) :
    Prop :=
  ∃ trace, behaviour trace outcome

variable
  {first second body : Behaviour}
  {outcome : TraceEnd}

@[simp] theorem ends_only
    {trace : LocalTrace}
    {ending : TraceEnd} :
    (only trace ending).Ends outcome ↔ outcome = ending := by
  simp [Ends, only]

@[simp] theorem ends_followedBy :
    (first.followedBy second).Ends outcome ↔
      (first.Ends .completes ∧ second.Ends outcome) ∨
        (first.Ends outcome ∧ outcome ≠ .completes) := by
  constructor
  · rintro ⟨trace, ⟨earlier, later, -, isFirst, isSecond⟩ | ⟨isFirst, notComplete⟩⟩
    · exact .inl ⟨⟨earlier, isFirst⟩, later, isSecond⟩
    · exact .inr ⟨⟨trace, isFirst⟩, notComplete⟩
  · rintro (⟨⟨earlier, isFirst⟩, later, isSecond⟩ | ⟨⟨trace, isFirst⟩, notComplete⟩)
    · exact ⟨earlier ++ later, .inl ⟨earlier, later, rfl, isFirst, isSecond⟩⟩
    · exact ⟨trace, .inr ⟨isFirst, notComplete⟩⟩

@[simp] theorem ends_either :
    (first.either second).Ends outcome ↔ first.Ends outcome ∨ second.Ends outcome := by
  simp only [Ends, either, exists_or]

/-- A labeled statement ends as its body, apart from the breaks to the label. -/
theorem ends_leaving
    {label : String} :
    (body.leaving label).Ends outcome ↔ ∃ ending, body.Ends ending ∧
      outcome = ending.leaving label := by
  constructor
  · rintro ⟨trace, ending, isBody, isOutcome⟩
    exact ⟨ending, ⟨trace, isBody⟩, isOutcome⟩
  · rintro ⟨ending, ⟨trace, isBody⟩, isOutcome⟩
    exact ⟨trace, ending, isBody, isOutcome⟩

/-- A loop completes, or it ends as its body does when that neither goes on with the
loop nor breaks out of it. -/
theorem ends_iterated
    {labels : List String}
    {element : Option LocalId} :
    Ends (Iterated labels element body) outcome ↔ outcome = .completes ∨
      (body.Ends outcome ∧ outcome.resumes labels = false ∧ outcome ≠ .breaks none) := by
  constructor
  · rintro ⟨trace, iterated⟩
    induction iterated with
    | exhausted | broken isBody =>
        exact .inl rfl
    | again isBody resumed rest inductionHypothesis =>
        exact inductionHypothesis
    | left isBody resumed notBreak =>
        exact .inr ⟨⟨_, isBody⟩, resumed, notBreak⟩
  · rintro (rfl | ⟨⟨trace, isBody⟩, resumed, notBreak⟩)
    · exact ⟨[], .exhausted⟩
    · exact ⟨_, .left isBody resumed notBreak⟩

end Behaviour

namespace FlowState

@[simp] theorem reachable_merge
    (first second : FlowState) :
    (first.merge second).reachable = (first.reachable || second.reachable) := by
  unfold merge
  split <;> next isFirst isSecond => simp [isFirst, isSecond]

@[simp] theorem reachable_afterRun
    (flow run : FlowState) :
    (flow.afterRun run).reachable = flow.reachable := by
  unfold afterRun
  split <;> rfl

@[simp] theorem reachable_afterOptional
    (flow optional : FlowState) :
    (flow.afterOptional optional).reachable = flow.reachable :=
  rfl

end FlowState

/-- How an execution ends by a jump. -/
def TakenJump.ending :
    TakenJump → TraceEnd
  | .breakTo label _ => .breaks label
  | .continueTo label _ => .continues label

/-- An execution that ends by a jump to another label does not end by one to the label. -/
theorem TakenJump.ending_ne
    {jump : TakenJump}
    {name : String}
    (isOther : jump.label ≠ some name) :
    jump.ending ≠ .breaks (some name) ∧ jump.ending ≠ .continues (some name) := by
  cases jump <;> simpa [ending, label] using isOther

namespace JumpStack

/-- The label directly around a loop that is entered within these targets. -/
def loopLabel? :
    JumpStack → Option String
  | .label record :: _ => if record.labelsLoop then some record.name else none
  | _ => none

/-- An execution of a body that ends so continues a loop that was entered within
these targets. -/
def Continues
    (stack : JumpStack)
    (outcome : TraceEnd) :
    Prop :=
  outcome = .continues none ∨
    ∃ name, stack.loopLabel? = some name ∧ outcome = .continues (some name)

/-- Between two times the targets of jumps have collected exactly the jumps by which
executions end, and no execution ends by a jump without a target. -/
def Arrives :
    (before after : JumpStack) → (ends : TraceEnd → Prop) → Prop
  | [], [], ends => ∀ label, ¬ends (.breaks label) ∧ ¬ends (.continues label)
  | .loop earlier :: before, .loop later :: after, ends =>
      (later.onBreak.reachable = true ↔ earlier.onBreak.reachable = true ∨ ends (.breaks none)) ∧
        (later.onContinue.reachable = true ↔
          earlier.onContinue.reachable = true ∨
            ∃ outcome, ends outcome ∧ Continues before outcome) ∧
        Arrives before after fun outcome =>
          ends outcome ∧ outcome ≠ .breaks none ∧ ¬Continues before outcome
  | .label earlier :: before, .label later :: after, ends =>
      later.name = earlier.name ∧ later.labelsLoop = earlier.labelsLoop ∧
        (later.onBreak.reachable = true ↔
          earlier.onBreak.reachable = true ∨ ends (.breaks (some earlier.name))) ∧
        ¬ends (.continues (some earlier.name)) ∧
        Arrives before after fun outcome => ends outcome ∧ outcome ≠ .breaks (some earlier.name)
  | _, _, _ => False

namespace Arrives

variable
  {before after : JumpStack}
  {ends others : TraceEnd → Prop}

theorem congr :
    ∀ {before after : JumpStack} {ends others : TraceEnd → Prop},
      before.Arrives after ends →
      (∀ label, (ends (.breaks label) ↔ others (.breaks label)) ∧
        (ends (.continues label) ↔ others (.continues label))) →
      before.Arrives after others
  | [], [], ends, others, arrives, same => by
      intro label
      rw [← (same label).1, ← (same label).2]
      exact arrives label
  | .loop earlier :: before, .loop later :: after, ends, others, arrives, same => by
      obtain ⟨onBreak, onContinue, rest⟩ := arrives
      refine ⟨onBreak.trans (or_congr_right (same none).1), onContinue.trans (or_congr_right ?_),
        rest.congr fun label => ⟨and_congr_left fun _ => (same label).1,
          and_congr_left fun _ => (same label).2⟩⟩
      have continues : ∀ outcome, Continues before outcome → (ends outcome ↔ others outcome) := by
        rintro outcome (rfl | ⟨name, -, rfl⟩)
        · exact (same none).2
        · exact (same (some name)).2
      exact exists_congr fun outcome => and_congr_left (continues outcome)
  | .label earlier :: before, .label later :: after, ends, others, arrives, same => by
      obtain ⟨name, labelsLoop, onBreak, noContinue, rest⟩ := arrives
      refine ⟨name, labelsLoop, onBreak.trans (or_congr_right (same _).1), ?_,
        rest.congr fun label => ⟨and_congr_left fun _ => (same label).1,
          and_congr_left fun _ => (same label).2⟩⟩
      rwa [← (same _).2]

theorem refl :
    ∀ (stack : JumpStack), stack.Arrives stack fun _ => False
  | [] => fun _ => ⟨id, id⟩
  | .loop record :: stack =>
      ⟨by simp, by simp, (refl stack).congr (by simp)⟩
  | .label record :: stack =>
      ⟨rfl, rfl, by simp, id, (refl stack).congr (by simp)⟩

/-- The label around a loop stays the same. -/
theorem loopLabel?_eq :
    ∀ {before after : JumpStack},
      before.Arrives after ends →
      after.loopLabel? = before.loopLabel?
  | [], [], _ => rfl
  | .loop _ :: _, .loop _ :: _, _ => rfl
  | .label earlier :: before, .label later :: after, arrives => by
      obtain ⟨name, labelsLoop, -⟩ := arrives
      simp only [loopLabel?, name, labelsLoop]

/-- Which outcomes continue a loop stays the same. -/
theorem continues_iff
    (arrives : before.Arrives after ends)
    (outcome : TraceEnd) :
    after.Continues outcome ↔ before.Continues outcome := by
  simp only [Continues, arrives.loopLabel?_eq]

theorem trans :
    ∀ {first second third : JumpStack} {earlier later : TraceEnd → Prop},
      first.Arrives second earlier →
      second.Arrives third later →
      first.Arrives third fun outcome => earlier outcome ∨ later outcome
  | [], [], [], _, _, arrives, further => fun label =>
      ⟨not_or.mpr ⟨(arrives label).1, (further label).1⟩,
        not_or.mpr ⟨(arrives label).2, (further label).2⟩⟩
  | .loop first :: before, .loop second :: middle, .loop third :: after, earlier, later,
      arrives, further => by
      obtain ⟨onBreak, onContinue, rest⟩ := arrives
      obtain ⟨laterBreak, laterContinue, laterRest⟩ := further
      have same := rest.continues_iff
      refine ⟨?_, ?_, (rest.trans laterRest).congr fun label => ?_⟩
      · rw [laterBreak, onBreak, or_assoc]
      · rw [laterContinue, onContinue, or_assoc]
        refine or_congr_right ?_
        simp only [same, or_and_right, exists_or]
      · simp only [same, or_and_right, and_self]
  | .label first :: before, .label second :: middle, .label third :: after, earlier, later,
      arrives, further => by
      obtain ⟨name, labelsLoop, onBreak, noContinue, rest⟩ := arrives
      obtain ⟨laterName, laterLoop, laterBreak, laterContinue, laterRest⟩ := further
      rw [name] at laterName laterBreak laterContinue laterRest
      refine ⟨laterName, laterLoop.trans labelsLoop, ?_, not_or.mpr ⟨noContinue, laterContinue⟩,
        (rest.trans laterRest).congr fun label => ?_⟩
      · rw [laterBreak, onBreak, or_assoc]
      · simp only [or_and_right, and_self]

/-- Deferring an assignment collects nothing. -/
theorem deferFinal
    (scopes : MethodScope)
    (assigned : LocalId)
    (declaredIn : ScopeId)
    (span : Span) :
    ∀ (stack : JumpStack),
      stack.Arrives (stack.deferFinal scopes assigned declaredIn span) fun _ => False
  | [] => .refl []
  | .label record :: stack =>
      ⟨rfl, rfl, by simp, id, (deferFinal scopes assigned declaredIn span stack).congr (by simp)⟩
  | .loop record :: stack => by
      simp only [JumpStack.deferFinal]
      split
      · exact .refl _
      · exact ⟨by simp, by simp, (deferFinal scopes assigned declaredIn span stack).congr (by simp)⟩

/-- Deferring a use collects nothing. -/
theorem deferNull
    (scopes : MethodScope)
    (used : LocalId)
    (declaredIn : ScopeId)
    (span : Span) :
    ∀ (stack : JumpStack),
      stack.Arrives (stack.deferNull scopes used declaredIn span) fun _ => False
  | [] => .refl []
  | .label record :: stack =>
      ⟨rfl, rfl, by simp, id, (deferNull scopes used declaredIn span stack).congr (by simp)⟩
  | .loop record :: stack => by
      simp only [JumpStack.deferNull]
      split
      · exact .refl _
      · exact ⟨by simp, by simp, (refl stack).congr (by simp)⟩

end Arrives

/-- A labeled continue that passes a loop does not continue it. -/
theorem not_continues
    {stack : JumpStack}
    {name : String}
    (isOther : ∀ around outer, stack = .label around :: outer → around.name ≠ name) :
    ¬Continues stack (.continues (some name)) := by
  simp only [Continues, loopLabel?]
  split
  · next around outer =>
      simp [isOther around outer rfl]
  · simp

/-- A jump that is recorded arrives at its target. -/
theorem Takes.arrives
    {jump : TakenJump}
    {stack after : JumpStack}
    (takes : Takes jump stack after)
    (reached : jump.state.reachable = true) :
    stack.Arrives after fun outcome => outcome = jump.ending := by
  induction takes with
  | breaksLoop =>
      dsimp only [TakenJump.state] at reached
      exact ⟨by simp [LoopRecord.addBreak, TakenJump.ending, reached],
        by simp [LoopRecord.addBreak, TakenJump.ending, Continues],
        (Arrives.refl _).congr (by simp [TakenJump.ending])⟩
  | continuesLoop =>
      dsimp only [TakenJump.state] at reached
      exact ⟨by simp [LoopRecord.addContinue, TakenJump.ending],
        by simp [LoopRecord.addContinue, TakenJump.ending, Continues, reached],
        (Arrives.refl _).congr (by simp +contextual [TakenJump.ending, Continues])⟩
  | breaksLabel =>
      dsimp only [TakenJump.state] at reached
      exact ⟨rfl, rfl, by simp [LabelRecord.addBreak, TakenJump.ending, reached],
        by simp [TakenJump.ending], (Arrives.refl _).congr (by simp [TakenJump.ending])⟩
  | continuesLabeled labelsLoop =>
      dsimp only [TakenJump.state] at reached
      exact ⟨by simp [LoopRecord.addContinue, TakenJump.ending],
        by simp [LoopRecord.addContinue, TakenJump.ending, Continues, loopLabel?, labelsLoop,
          reached],
        (Arrives.refl _).congr
          (by simp +contextual [TakenJump.ending, Continues, loopLabel?, labelsLoop])⟩
  | @passesLabel jump record rest after isOther takes inductionHypothesis =>
      have passes := TakenJump.ending_ne isOther
      refine ⟨rfl, rfl, by simp [passes.1.symm], passes.2.symm,
        (inductionHypothesis reached).congr fun label => ?_⟩
      have leaves : ∀ outcome, outcome = jump.ending ↔
          outcome = jump.ending ∧ outcome ≠ .breaks (some record.name) :=
        fun outcome => ⟨fun isEnding => ⟨isEnding, isEnding ▸ passes.1⟩, And.left⟩
      exact ⟨leaves _, leaves _⟩
  | breakPasses takes inductionHypothesis =>
      exact ⟨by simp [TakenJump.ending], by simp [TakenJump.ending, Continues],
        (inductionHypothesis reached).congr (by simp +contextual [TakenJump.ending, Continues])⟩
  | continuePasses isOther takes inductionHypothesis =>
      have passes := not_continues isOther
      exact ⟨by simp [TakenJump.ending], by simp [TakenJump.ending, passes],
        (inductionHypothesis reached).congr (by simp +contextual [TakenJump.ending, passes])⟩

end JumpStack

end LoopLowering
