import LoopLowering.Code.JumpTarget
import LoopLowering.Proofs.Flow.Merging

namespace LoopLowering

/-!
# Jumps select the same statement

Flow analysis and code generation both keep the loops and labeled statements around
a statement, innermost first, and search them in ways of their own. Where the two
stacks mirror each other, a jump that flow analysis records in a statement goes to
the branch target of that statement.
-/

namespace JumpRecord

/-- A break that leaves a statement. -/
def addBreak
    (state : FlowState) :
    JumpRecord → JumpRecord
  | .loop record => .loop (record.addBreak state)
  | .label record => .label (record.addBreak state)

/-- What flow analysis and code generation know about one statement: both take it for
a loop, or for a statement of the same label that is itself a loop or not. -/
def Mirrors :
    JumpRecord → JumpTarget → Prop
  | .loop _, .loop _ _ => True
  | .label record, .label name _ labelsLoop =>
      name = record.name ∧ labelsLoop = record.labelsLoop
  | _, _ => False

/-- What mirrors a record mirrors it when more jumps have been collected. -/
theorem Mirrors.narrows
    {before after : JumpRecord}
    {target : JumpTarget}
    (mirrors : before.Mirrors target)
    (narrows : before.Narrows after) :
    after.Mirrors target := by
  cases before <;> cases after <;> cases target <;>
    simp only [Mirrors, Narrows] at mirrors narrows ⊢
  exact ⟨mirrors.1.trans narrows.1.symm, mirrors.2.trans narrows.2.1.symm⟩

end JumpRecord

/-- The branch target that leaves a statement. -/
def JumpTarget.onBreak :
    JumpTarget → Label
  | .loop onBreak _ | .label _ onBreak _ => onBreak

/-- The search of code generation for the target of a jump ends at a statement. What is inside
the first statement does not matter to a labeled continue. -/
def TakenJump.LeadsTo
    (targets : List JumpTarget)
    (selected : JumpTarget) :
    TakenJump → Prop
  | .breakTo wanted _ => targets.findSome? (JumpTarget.breakLabel? wanted) = some selected.onBreak
  | .continueTo none _ => selected.isLoop = true ∧ targets.find? JumpTarget.isLoop = some selected
  | .continueTo (some name) _ => selected.isLoop = true ∧ ∀ inside,
      JumpTarget.insideOf? (JumpTarget.labelsLoopAs name) inside targets = some selected

namespace JumpStack

/-- The statements around a statement as flow analysis and code generation know
them. -/
def Mirrors :
    JumpStack → List JumpTarget → Prop
  | [], [] => True
  | record :: jumps, target :: targets => record.Mirrors target ∧ Mirrors jumps targets
  | _, _ => False

/-- What mirrors a stack mirrors it when more jumps have been collected. -/
theorem Mirrors.narrows :
    ∀ {before after : JumpStack} {targets : List JumpTarget},
      Mirrors before targets →
      before.Narrows after →
      Mirrors after targets
  | [], [], [], _, _ => trivial
  | _ :: _, _ :: _, _ :: _, mirrors, narrows =>
      ⟨mirrors.1.narrows narrows.1, mirrors.2.narrows narrows.2⟩
  | [], [], _ :: _, mirrors, _ | _ :: _, _ :: _, [], mirrors, _ => mirrors.elim
  | [], _ :: _, _, _, narrows | _ :: _, [], _, _, narrows => narrows.elim

/-- One statement is selected: its record changes, and its branch targets are those at
the same place. -/
structure Selects
    (jumps : JumpStack)
    (targets : List JumpTarget)
    (index : Nat)
    (before after : JumpRecord)
    (selected : JumpTarget)
    (changed : JumpStack) :
    Prop where
  record : jumps[index]? = some before
  target : targets[index]? = some selected
  mirrors : before.Mirrors selected
  changed : changed = jumps.set index after

/-- The innermost statement is selected. -/
theorem selects_first
    {before after : JumpRecord}
    {selected : JumpTarget}
    (mirrors : before.Mirrors selected)
    (jumps : JumpStack)
    (targets : List JumpTarget) :
    Selects (before :: jumps) (selected :: targets) 0 before after selected (after :: jumps) :=
  ⟨rfl, rfl, mirrors, rfl⟩

/-- A statement that is selected is selected from further inside as well. -/
theorem Selects.inward
    {jumps changed : JumpStack}
    {targets : List JumpTarget}
    {index : Nat}
    {before after : JumpRecord}
    {selected : JumpTarget}
    (selects : Selects jumps targets index before after selected changed)
    (record : JumpRecord)
    (target : JumpTarget) :
    Selects (record :: jumps) (target :: targets) (index + 1) before after selected
      (record :: changed) where
  record := selects.record
  target := selects.target
  mirrors := selects.mirrors
  changed := by
    rw [List.set_cons_succ, selects.changed]

/-- What mirrors a loop is a loop. -/
theorem Mirrors.exists_loop
    {record : LoopRecord}
    {jumps : JumpStack}
    {targets : List JumpTarget}
    (mirrors : Mirrors (.loop record :: jumps) targets) :
    ∃ onBreak onContinue outer, targets = .loop onBreak onContinue :: outer ∧
      Mirrors jumps outer := by
  match targets, mirrors with
  | .loop onBreak onContinue :: outer, mirrors =>
      exact ⟨onBreak, onContinue, outer, rfl, mirrors.2⟩
  | .label .. :: _, mirrors => exact mirrors.1.elim

/-- What mirrors a labeled statement has its label. -/
theorem Mirrors.exists_label
    {record : LabelRecord}
    {jumps : JumpStack}
    {targets : List JumpTarget}
    (mirrors : Mirrors (.label record :: jumps) targets) :
    ∃ onBreak outer, targets = .label record.name onBreak record.labelsLoop :: outer ∧
      Mirrors jumps outer := by
  match targets, mirrors with
  | .label _ onBreak _ :: outer, ⟨⟨rfl, rfl⟩, mirrors⟩ => exact ⟨onBreak, outer, rfl, mirrors⟩
  | .loop .. :: _, mirrors => exact mirrors.1.elim

/-- Both stacks have the same target of a jump that is recorded. -/
theorem Takes.selects
    {jump : TakenJump}
    {jumps changed : JumpStack}
    {targets : List JumpTarget}
    (takes : Takes jump jumps changed)
    (mirrors : Mirrors jumps targets) :
    ∃ index record selected,
      Selects jumps targets index record (record.collect jump) selected changed ∧
        jump.LeadsTo targets selected := by
  induction takes generalizing targets with
  | breaksLoop =>
      obtain ⟨onBreak, onContinue, outer, rfl, -⟩ := mirrors.exists_loop
      exact ⟨0, _, _, selects_first mirrors.1 _ _, rfl⟩
  | continuesLoop =>
      obtain ⟨onBreak, onContinue, outer, rfl, -⟩ := mirrors.exists_loop
      exact ⟨0, _, _, selects_first mirrors.1 _ _, rfl, rfl⟩
  | breaksLabel =>
      obtain ⟨onBreak, outer, rfl, -⟩ := mirrors.exists_label
      exact ⟨0, _, _, selects_first mirrors.1 _ _, by
        simp [TakenJump.LeadsTo, JumpTarget.breakLabel?, JumpTarget.onBreak]⟩
  | continuesLabeled labelsLoop =>
      obtain ⟨onBreak, onContinue, outer, rfl, mirrorsLabel⟩ := mirrors.exists_loop
      obtain ⟨leave, outer, rfl, -⟩ := mirrorsLabel.exists_label
      exact ⟨0, _, _, selects_first mirrors.1 _ _, rfl, fun inside => by
        simp [JumpTarget.insideOf?, JumpTarget.labelsLoopAs, labelsLoop]⟩
  | @passesLabel jump record rest after isOther takes inductionHypothesis =>
      obtain ⟨onBreak, outer, rfl, mirrorsRest⟩ := mirrors.exists_label
      obtain ⟨index, found, selected, selects, leads⟩ := inductionHypothesis mirrorsRest
      refine ⟨index + 1, found, selected, selects.inward _ _, ?_⟩
      rcases jump with ⟨wanted, state⟩ | ⟨_ | wanted, state⟩
      · have differs : wanted ≠ some record.name := isOther
        simpa [TakenJump.LeadsTo, JumpTarget.breakLabel?, differs] using leads
      · exact leads
      · have differs : ¬record.name = wanted := fun same => isOther (congrArg some same.symm)
        refine ⟨leads.1, fun inside => ?_⟩
        simpa [JumpTarget.insideOf?, JumpTarget.labelsLoopAs, differs] using leads.2 _
  | breakPasses takes inductionHypothesis =>
      obtain ⟨onBreak, onContinue, outer, rfl, mirrorsRest⟩ := mirrors.exists_loop
      obtain ⟨index, found, selected, selects, leads⟩ := inductionHypothesis mirrorsRest
      exact ⟨index + 1, found, selected, selects.inward _ _, leads⟩
  | continuePasses isOther takes inductionHypothesis =>
      obtain ⟨onBreak, onContinue, outer, rfl, mirrorsRest⟩ := mirrors.exists_loop
      obtain ⟨index, found, selected, selects, leads⟩ := inductionHypothesis mirrorsRest
      exact ⟨index + 1, found, selected, selects.inward _ _, leads.1, fun inside => leads.2 _⟩

/-- A break that is recorded in a statement goes to the branch target that leaves
it. -/
theorem Mirrors.selects_recordBreak
    {jumps changed : JumpStack}
    {targets : List JumpTarget}
    (mirrors : Mirrors jumps targets)
    {wanted : Option String}
    {state : FlowState}
    (recorded : jumps.recordBreak wanted state = .ok changed) :
    ∃ index record selected,
      Selects jumps targets index record (record.addBreak state) selected changed ∧
        JumpTarget.ofBreak targets wanted = .ok selected.onBreak := by
  obtain ⟨index, record, selected, selects, leads⟩ :=
    (takes_of_recordBreak recorded).selects mirrors
  have isLeft : targets.findSome? (JumpTarget.breakLabel? wanted) = some selected.onBreak := leads
  refine ⟨index, record, selected, ?_, by rw [JumpTarget.ofBreak, isLeft]⟩
  cases record <;> exact selects

/-- A continue that is recorded in a loop goes to the branch target that continues it,
if there is one. -/
theorem Mirrors.selects_recordContinue
    {jumps changed : JumpStack}
    {targets : List JumpTarget}
    (mirrors : Mirrors jumps targets)
    {wanted : Option String}
    {state : FlowState}
    (recorded : jumps.recordContinue wanted state = .ok changed) :
    ∃ index record onBreak onContinue,
      Selects jumps targets index (.loop record) (.loop (record.addContinue state))
          (.loop onBreak onContinue) changed ∧
        ∀ label, onContinue = some label → JumpTarget.ofContinue targets wanted = .ok label := by
  obtain ⟨index, record, selected, selects, leads⟩ :=
    (takes_of_recordContinue recorded).selects mirrors
  have isContinued :
      selected.isLoop = true ∧ JumpTarget.continued? targets wanted = some selected := by
    cases wanted with
    | none =>
        exact leads
    | some name =>
        exact ⟨leads.1, leads.2 none⟩
  have mirrorsLoop := selects.mirrors
  match record, selected, isContinued with
  | .loop record, .loop onBreak onContinue, isContinued =>
      refine ⟨index, record, onBreak, onContinue, selects, ?_⟩
      rintro label rfl
      simp [JumpTarget.ofContinue, isContinued.2, JumpTarget.continueLabel?]
  | .label record, .loop .., _ => exact mirrorsLoop.elim

end JumpStack

end LoopLowering
