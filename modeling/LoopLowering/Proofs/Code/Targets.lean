import LoopLowering.Code.JumpTarget
import LoopLowering.Proofs.Flow.Targets

namespace LoopLowering

/-!
# Branch targets of jumps

Code generation knows the statements around a statement by their branch targets,
and flow analysis knows them by their exits. Where the two correspond, a jump
goes to the branch target of the exit that it takes.
-/

namespace JumpFrame

/-- The branch targets of the statements around a statement belong to the exits
that these offer. -/
def Matches
    (leads : FlowExit → Label → Prop) :
    List JumpFrame → List JumpTarget → Prop
  | [], [] => True
  | .loop onBreak onContinue :: frames, .loop breakLabel continueLabel :: targets =>
      leads onBreak breakLabel ∧ (∀ label, continueLabel = some label → leads onContinue label) ∧
        Matches leads frames targets
  | .label name labelsLoop onBreak :: frames, .label other breakLabel otherLoop :: targets =>
      other = name ∧ otherLoop = labelsLoop ∧ leads onBreak breakLabel ∧
        Matches leads frames targets
  | _, _ => False

namespace Matches

variable
  {leads : FlowExit → Label → Prop}

/-- Branch targets that belong to exits also belong to them in a weaker way. -/
theorem imp
    {others : FlowExit → Label → Prop}
    (implies : ∀ exit label, leads exit label → others exit label) :
    ∀ {frames : List JumpFrame} {targets : List JumpTarget},
      Matches leads frames targets →
      Matches others frames targets
  | [], [], _ => trivial
  | .loop _ _ :: _, .loop _ _ :: _, matches_ =>
      ⟨implies _ _ matches_.1, fun label isLabel => implies _ _ (matches_.2.1 label isLabel),
        matches_.2.2.imp implies⟩
  | .label .. :: _, .label .. :: _, matches_ =>
      ⟨matches_.1, matches_.2.1, implies _ _ matches_.2.2.1, matches_.2.2.2.imp implies⟩
  | [], _ :: _, matches_ | .loop _ _ :: _, [], matches_ | .label .. :: _, [], matches_
  | .loop _ _ :: _, .label .. :: _, matches_ | .label .. :: _, .loop _ _ :: _, matches_ =>
      matches_.elim

/-- Exits and branch targets that belong together come from the same kinds of
statements. -/
theorem heads :
    ∀ {frames : List JumpFrame} {targets : List JumpTarget},
      Matches leads frames targets →
      (frames = [] ∧ targets = []) ∨
        (∃ onBreak onContinue inner breakLabel next outer,
          frames = .loop onBreak onContinue :: inner ∧
            targets = .loop breakLabel next :: outer) ∨
        ∃ name labelsLoop onBreak inner breakLabel outer,
          frames = .label name labelsLoop onBreak :: inner ∧
            targets = .label name breakLabel labelsLoop :: outer
  | [], [], _ => .inl ⟨rfl, rfl⟩
  | .loop _ _ :: _, .loop _ _ :: _, _ => .inr (.inl ⟨_, _, _, _, _, _, rfl, rfl⟩)
  | .label .. :: _, .label .. :: _, matches_ => by
      obtain ⟨rfl, rfl, -⟩ := matches_
      exact .inr (.inr ⟨_, _, _, _, _, _, rfl, rfl⟩)
  | [], _ :: _, matches_ | .loop _ _ :: _, [], matches_ | .label .. :: _, [], matches_
  | .loop _ _ :: _, .label .. :: _, matches_ | .label .. :: _, .loop _ _ :: _, matches_ =>
      matches_.elim

/-- A break goes to the branch target of the exit that it takes. -/
theorem ofBreak
    {wanted : Option String}
    {label : Label} :
    ∀ {frames : List JumpFrame} {targets : List JumpTarget},
      Matches leads frames targets →
      JumpTarget.ofBreak targets wanted = .ok label →
      leads (breakExit wanted frames) label
  | [], [], _, found => by
      cases found
  | .loop onBreak _ :: frames, .loop breakLabel _ :: targets, matches_, found => by
      cases unlabeled : wanted.isNone with
      | true =>
          simp only [JumpTarget.ofBreak, List.findSome?_cons, JumpTarget.breakLabel?, unlabeled,
            if_true, Except.ok.injEq] at found
          subst found
          simpa [breakExit, unlabeled] using matches_.1
      | false =>
          have deeper : JumpTarget.ofBreak targets wanted = .ok label := by
            simpa [JumpTarget.ofBreak, JumpTarget.breakLabel?, unlabeled] using found
          simpa [breakExit, unlabeled] using matches_.2.2.ofBreak deeper
  | .label name _ onBreak :: frames, .label other breakLabel _ :: targets, matches_, found => by
      obtain ⟨rfl, -, leadsBreak, rest⟩ := matches_
      by_cases named : wanted = some other
      · simp only [JumpTarget.ofBreak, List.findSome?_cons, JumpTarget.breakLabel?, named,
          if_true, Except.ok.injEq] at found
        subst found
        simpa [breakExit, named] using leadsBreak
      · have deeper : JumpTarget.ofBreak targets wanted = .ok label := by
          simpa [JumpTarget.ofBreak, JumpTarget.breakLabel?, named] using found
        simpa [breakExit, named] using rest.ofBreak deeper
  | [], _ :: _, matches_, _ | .loop _ _ :: _, [], matches_, _ | .label .. :: _, [], matches_, _
  | .loop _ _ :: _, .label .. :: _, matches_, _ | .label .. :: _, .loop _ _ :: _, matches_, _ =>
      matches_.elim

/-- A plain continue goes to the branch target of the exit that it takes. -/
theorem innermost
    {target : JumpTarget}
    {label : Label} :
    ∀ {frames : List JumpFrame} {targets : List JumpTarget},
      Matches leads frames targets →
      targets.find? JumpTarget.isLoop = some target →
      target.continueLabel? = some label →
      leads (innermostContinue frames) label
  | [], [], _, found, _ => by
      cases found
  | .loop _ onContinue :: frames, .loop onBreak next :: targets, matches_, found, isLabel => by
      simp only [List.find?_cons, JumpTarget.isLoop, Option.some.injEq] at found
      subst found
      exact matches_.2.1 label isLabel
  | .label .. :: frames, .label .. :: targets, matches_, found, isLabel => by
      simp only [List.find?_cons, JumpTarget.isLoop] at found
      exact matches_.2.2.2.innermost found isLabel
  | [], _ :: _, matches_, _, _ | .loop _ _ :: _, [], matches_, _, _
  | .label .. :: _, [], matches_, _, _ | .loop _ _ :: _, .label .. :: _, matches_, _, _
  | .label .. :: _, .loop _ _ :: _, matches_, _, _ => matches_.elim

/-- A labeled continue goes to the branch target of the exit that it takes. -/
theorem inside
    {name : String}
    {set : VarSet}
    {target : JumpTarget}
    {label : Label} :
    ∀ {frames : List JumpFrame} {targets : List JumpTarget} {around : Option JumpTarget},
      Matches leads frames targets →
      (continueExitTo name frames).Admits set →
      JumpTarget.insideOf? (JumpTarget.labelsLoopAs name) around targets = some target →
      target.continueLabel? = some label →
      leads (continueExitTo name frames) label
  | [], [], _, _, admits, _, _ => by
      obtain ⟨needed, isExit, -⟩ := admits
      cases isExit
  | .loop onBreak onContinue :: .label other labelsLoop labelBreak :: frames,
      .loop breakLabel next :: .label found outer otherLoop :: targets, around, matches_, admits,
      isTarget, isLabel => by
      obtain ⟨-, leadsContinue, sameName, sameLoop, leadsBreak, rest⟩ := matches_
      by_cases named : other = name
      · cases isLoop : labelsLoop with
        | false =>
            obtain ⟨needed, isExit, -⟩ := admits
            simp [continueExitTo, named, isLoop] at isExit
        | true =>
            simp only [JumpTarget.insideOf?, JumpTarget.labelsLoopAs, Bool.false_eq_true,
              if_false, sameName, sameLoop, named, isLoop, beq_self_eq_true, Bool.and_self,
              if_true, Option.some.injEq] at isTarget
            subst isTarget
            simpa [continueExitTo, named] using leadsContinue label isLabel
      · have matched : Matches leads (.label other labelsLoop labelBreak :: frames)
            (.label found outer otherLoop :: targets) := ⟨sameName, sameLoop, leadsBreak, rest⟩
        have deeper : continueExitTo name (.loop onBreak onContinue ::
            .label other labelsLoop labelBreak :: frames) =
              continueExitTo name (.label other labelsLoop labelBreak :: frames) := by
          simp [continueExitTo, named]
        rw [deeper] at admits ⊢
        simp only [JumpTarget.insideOf?] at isTarget
        exact matched.inside admits isTarget isLabel
  | [.loop _ _], [.loop _ _], _, _, admits, _, _ => by
      obtain ⟨needed, isExit, -⟩ := admits
      cases isExit
  | .loop _ _ :: .loop onBreak onContinue :: frames,
      .loop _ _ :: .loop breakLabel next :: targets, around, matches_, admits, isTarget,
      isLabel => by
      have matched : Matches leads (.loop onBreak onContinue :: frames)
          (.loop breakLabel next :: targets) := matches_.2.2
      exact matched.inside admits isTarget isLabel
  | .label other labelsLoop _ :: frames, .label found breakLabel otherLoop :: targets, around,
      matches_, admits, isTarget, isLabel => by
      obtain ⟨sameName, sameLoop, -, rest⟩ := matches_
      simp only [continueExitTo] at admits ⊢
      by_cases named : other = name
      · obtain ⟨needed, isExit, -⟩ := admits
        simp [named] at isExit
      · simp only [named, if_false] at admits ⊢
        simp only [JumpTarget.insideOf?, JumpTarget.labelsLoopAs, sameName] at isTarget
        exact rest.inside admits (by simpa [named] using isTarget) isLabel
  | [.loop _ _], .loop _ _ :: _ :: _, _, matches_, _, _, _ => matches_.2.2.elim
  | [], _ :: _, _, matches_, _, _, _ | .loop _ _ :: _, [], _, matches_, _, _, _
  | .label .. :: _, [], _, matches_, _, _, _ | .loop _ _ :: _, .label .. :: _, _, matches_, _, _, _
  | .label .. :: _, .loop _ _ :: _, _, matches_, _, _, _ => matches_.elim

/-- A continue goes to the branch target of the exit that it takes. -/
theorem ofContinue
    {wanted : Option String}
    {set : VarSet}
    {label : Label}
    {frames : List JumpFrame}
    {targets : List JumpTarget}
    (matches_ : Matches leads frames targets)
    (admits : (continueExit wanted frames).Admits set)
    (found : JumpTarget.ofContinue targets wanted = .ok label) :
    leads (continueExit wanted frames) label := by
  simp only [JumpTarget.ofContinue] at found
  split at found
  · next isLabel =>
      obtain rfl := Except.ok.inj found
      obtain ⟨target, isTarget, continues⟩ := Option.bind_eq_some_iff.mp isLabel
      cases wanted with
      | none =>
          exact matches_.innermost isTarget continues
      | some name =>
          exact matches_.inside admits isTarget continues
  · cases found

end Matches

end JumpFrame

end LoopLowering
