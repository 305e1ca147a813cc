import LoopLowering.Proofs.Flow.Arrivals
import LoopLowering.Proofs.Flow.Marks

namespace LoopLowering

/-!
# Definite assignment is exact

A flow state misses a local if some path arrives without having assigned it. Flow
analysis finds exactly the reads of locals that are missed: what arrives at a
point, and what it has collected at the targets of jumps, misses a local if and
only if some execution gets there without assigning it.
-/

/-- Some path arrives without having assigned a local. -/
def FlowState.Misses
    (id : LocalId)
    (flow : FlowState) :
    Prop :=
  flow.reachable = true ∧ flow.definite.contains id = false

namespace FlowState

variable
  {id : LocalId}

@[simp] theorem not_misses_deadEnd
    (id : LocalId) :
    ¬deadEnd.Misses id := by
  simp [Misses, deadEnd]

@[simp] theorem misses_assign
    (assigned : LocalId)
    (flow : FlowState) :
    (flow.assign assigned).Misses id ↔ flow.Misses id ∧ assigned ≠ id := by
  simp [Misses, assign, and_assoc]

@[simp] theorem misses_setNull
    (local_ : LocalId)
    (status : NullStatus)
    (flow : FlowState) :
    (flow.setNull local_ status).Misses id ↔ flow.Misses id :=
  .rfl

@[simp] theorem misses_withoutNulls
    (flow : FlowState) :
    flow.withoutNulls.Misses id ↔ flow.Misses id :=
  .rfl

@[simp] theorem misses_merge
    (first second : FlowState) :
    (first.merge second).Misses id ↔ first.Misses id ∨ second.Misses id := by
  unfold Misses merge
  cases isFirst : first.reachable with
  | false =>
      cases second.reachable <;> simp
  | true =>
      cases second.reachable with
      | false =>
          simp
      | true =>
          simp only [VarSet.contains_inter, Bool.and_eq_false_iff, true_and]

@[simp] theorem misses_afterOptional
    (flow optional : FlowState) :
    (flow.afterOptional optional).Misses id ↔ flow.Misses id :=
  .rfl

/-- After code that has run on a path, what is missed on both is missed. -/
theorem misses_afterRun
    (flow : FlowState)
    {run : FlowState}
    (reached : run.reachable = true) :
    (flow.afterRun run).Misses id ↔ flow.Misses id ∧ run.Misses id := by
  have alive : run.isDeadEnd = false := by
    simp [isDeadEnd, reached]
  simp [Misses, afterRun, alive, reached, and_assoc]

end FlowState

namespace JumpStack

/-- Between two times the targets of jumps have collected the paths that arrive at
them without having assigned a local, given the breaks by which such paths
arrive. -/
def Collects
    (id : LocalId) :
    (before after : JumpStack) → (arrives : Option String → Prop) → Prop
  | [], [], _ => True
  | .loop earlier :: before, .loop later :: after, arrives =>
      (later.onBreak.Misses id ↔ earlier.onBreak.Misses id ∨ arrives none) ∧
        Collects id before after fun label => label ≠ none ∧ arrives label
  | .label earlier :: before, .label later :: after, arrives =>
      later.name = earlier.name ∧
        (later.onBreak.Misses id ↔ earlier.onBreak.Misses id ∨ arrives (some earlier.name)) ∧
        Collects id before after fun label => label ≠ some earlier.name ∧ arrives label
  | _, _, _ => False

variable
  {id : LocalId}

theorem Collects.congr
    {before after : JumpStack}
    {arrives others : Option String → Prop}
    (collects : before.Collects id after arrives)
    (same : ∀ label, arrives label ↔ others label) :
    before.Collects id after others := by
  obtain rfl : arrives = others := funext fun label => propext (same label)
  exact collects

/-- Targets at which nothing arrives collect nothing. -/
theorem collects_refl :
    ∀ (stack : JumpStack), stack.Collects id stack fun _ => False
  | [] => trivial
  | .loop record :: stack =>
      ⟨by simp, (collects_refl stack).congr (by simp)⟩
  | .label record :: stack =>
      ⟨rfl, by simp, (collects_refl stack).congr (by simp)⟩

theorem Collects.trans :
    ∀ {first second third : JumpStack} {earlier later : Option String → Prop},
      first.Collects id second earlier →
      second.Collects id third later →
      first.Collects id third fun label => earlier label ∨ later label
  | [], [], [], _, _, _, _ => trivial
  | .loop first :: before, .loop second :: middle, .loop third :: after, earlier, later,
      collects, further => by
      refine ⟨?_, (collects.2.trans further.2).congr fun label => ?_⟩
      · rw [further.1, collects.1, or_assoc]
      · rw [← and_or_left]
  | .label first :: before, .label second :: middle, .label third :: after, earlier, later,
      collects, further => by
      obtain ⟨name, onBreak, rest⟩ := collects
      obtain ⟨laterName, laterBreak, laterRest⟩ := further
      rw [name] at laterName laterBreak laterRest
      refine ⟨laterName, ?_, (rest.trans laterRest).congr fun label => ?_⟩
      · rw [laterBreak, onBreak, or_assoc]
      · rw [← and_or_left]

/-- Deferring an assignment collects nothing. -/
theorem collects_deferFinal
    (scopes : MethodScope)
    (assigned : LocalId)
    (declaredIn : ScopeId)
    (span : Span) :
    ∀ (stack : JumpStack),
      stack.Collects id (stack.deferFinal scopes assigned declaredIn span) fun _ => False
  | [] => trivial
  | .label record :: stack =>
      ⟨rfl, by simp, (collects_deferFinal scopes assigned declaredIn span stack).congr (by simp)⟩
  | .loop record :: stack => by
      simp only [deferFinal]
      split
      · exact collects_refl _
      · exact ⟨by simp,
          (collects_deferFinal scopes assigned declaredIn span stack).congr (by simp)⟩

/-- Deferring a use collects nothing. -/
theorem collects_deferNull
    (scopes : MethodScope)
    (used : LocalId)
    (declaredIn : ScopeId)
    (span : Span) :
    ∀ (stack : JumpStack),
      stack.Collects id (stack.deferNull scopes used declaredIn span) fun _ => False
  | [] => trivial
  | .label record :: stack =>
      ⟨rfl, by simp, (collects_deferNull scopes used declaredIn span stack).congr (by simp)⟩
  | .loop record :: stack => by
      simp only [deferNull]
      split
      · exact collects_refl _
      · exact ⟨by simp, (collects_refl stack).congr (by simp)⟩

/-- A jump that is recorded arrives at its target. Only breaks matter. -/
theorem Takes.collects
    {jump : TakenJump}
    {stack after : JumpStack}
    (takes : Takes jump stack after) :
    stack.Collects id after fun target =>
      jump.state.Misses id ∧ jump.ending = .breaks target := by
  induction takes with
  | breaksLoop =>
      exact ⟨by simp [LoopRecord.addBreak, TakenJump.state, TakenJump.ending],
        (collects_refl _).congr (by simp +contextual [TakenJump.ending, eq_comm])⟩
  | continuesLoop | continuesLabeled =>
      exact ⟨by simp [LoopRecord.addContinue, TakenJump.ending],
        (collects_refl _).congr (by simp [TakenJump.ending])⟩
  | breaksLabel =>
      exact ⟨rfl, by simp [LabelRecord.addBreak, TakenJump.state, TakenJump.ending],
        (collects_refl _).congr (by simp +contextual [TakenJump.ending, eq_comm])⟩
  | @passesLabel jump record rest after isOther takes inductionHypothesis =>
      have passes := (TakenJump.ending_ne isOther).1
      refine ⟨rfl, by simp [passes], inductionHypothesis.congr fun target => ⟨?_, And.right⟩⟩
      rintro ⟨misses, isEnding⟩
      exact ⟨fun isName => passes (isEnding.trans (congrArg _ isName)), misses, isEnding⟩
  | breakPasses takes inductionHypothesis =>
      exact ⟨by simp [TakenJump.ending],
        inductionHypothesis.congr (by simp +contextual [TakenJump.ending, eq_comm])⟩
  | continuePasses isOther takes inductionHypothesis =>
      exact ⟨by simp [TakenJump.ending], inductionHypothesis.congr (by simp [TakenJump.ending])⟩

/-- A break is recorded if its target is found. -/
theorem toOption_recordBreak
    (label : Option String)
    (flow : FlowState)
    (stack : JumpStack) :
    (stack.recordBreak label flow).toOption =
      match label with
      | none => stack.changeLoop (.addBreak flow)
      | some name => stack.changeLabel name (.addBreak flow) := by
  cases label <;> simp only [recordBreak] <;> split <;> simp [*, Except.toOption]

/-- A break that is not recorded has no target to arrive at. -/
theorem collects_of_failed
    (label : Option String)
    (flow : FlowState) :
    ∀ (stack : JumpStack),
      (stack.recordBreak label flow).toOption = none →
      stack.Collects id stack fun target => flow.Misses id ∧ target = label
  | [], _ => trivial
  | .loop record :: stack, failed => by
      rw [toOption_recordBreak] at failed
      cases label with
      | none =>
          cases failed
      | some name =>
          have failedRest : (recordBreak (some name) flow stack).toOption = none := by
            simpa [toOption_recordBreak, changeLabel] using failed
          exact ⟨by simp, (collects_of_failed _ flow stack failedRest).congr
            (by simp +contextual)⟩
  | .label record :: stack, failed => by
      rw [toOption_recordBreak] at failed
      have isOther : label ≠ some record.name := by
        rintro rfl
        simp [changeLabel] at failed
      have failedRest : (recordBreak label flow stack).toOption = none := by
        rw [toOption_recordBreak]
        cases label with
        | none =>
            simpa [changeLoop] using failed
        | some name =>
            have differs : ¬record.name = name := fun same => isOther (congrArg some same.symm)
            simpa [changeLabel, differs] using failed
      refine ⟨rfl, by simp [isOther.symm], (collects_of_failed label flow stack failedRest).congr
        fun target => ⟨?_, And.right⟩⟩
      rintro ⟨misses, rfl⟩
      exact ⟨isOther, misses, rfl⟩

end JumpStack

/-- Reports of reads differ if the names or the positions do. -/
theorem Issue.eq_of_uninitialized_diagnostic
    {name other : String}
    {span position : Span}
    (same : (uninitialized name).diagnostic span = (uninitialized other).diagnostic position) :
    name = other ∧ span = position := by
  have sameText : (uninitialized name).message = (uninitialized other).message :=
    congrArg Diagnostic.message same
  exact ⟨(String.append_right_inj _).mp ((String.append_left_inj _).mp sameText),
    congrArg Diagnostic.span same⟩

namespace FlowPoint

/-- The read of a local of a name is reported at a position. -/
def ReportsRead
    (name : String)
    (span : Span)
    (point : FlowPoint) :
    Prop :=
  (Issue.uninitialized name).diagnostic span ∈ point.state.diagnostics

/-- Another report is no report of a read. -/
theorem reportsRead_report
    {issue : Issue}
    (other : issue.problem ≠ .uninitialized)
    (position : Span)
    (point : FlowPoint)
    (name : String)
    (span : Span) :
    (point.report issue position).ReportsRead name span ↔ point.ReportsRead name span := by
  simp only [ReportsRead, report, MethodState.report, Array.mem_push]
  constructor
  · rintro (older | same)
    · exact older
    · exact absurd (congrArg Diagnostic.problem same).symm other
  · exact .inl

/-- Between two points flow analysis has followed the executions of some code
exactly, as far as the locals are concerned that are no elements of its loops. -/
structure Exact
    (elements : List LocalId)
    (before after : FlowPoint)
    (behaviour : Behaviour) :
    Prop where
  misses : ∀ id ∉ elements, after.flow.Misses id ↔
    before.flow.Misses id ∧ ∃ trace, behaviour trace .completes ∧ trace.Skips id
  collects : ∀ id ∉ elements, before.jumps.Collects id after.jumps fun label =>
    before.flow.Misses id ∧ ∃ trace, behaviour trace (.breaks label) ∧ trace.Skips id
  reports : ∀ name span, after.ReportsRead name span ↔ before.ReportsRead name span ∨
    ∃ id, before.nameOf id = name ∧ before.flow.Misses id ∧
      ∃ trace outcome, behaviour trace outcome ∧ trace.ReadsEarly span id
  names : ∀ id, after.nameOf id = before.nameOf id

/-- Between two points nothing has happened to locals. -/
structure Quiet
    (before after : FlowPoint) :
    Prop where
  misses : ∀ id, after.flow.Misses id ↔ before.flow.Misses id
  collects : ∀ id, before.jumps.Collects id after.jumps fun _ => False
  reports : ∀ name span, after.ReportsRead name span ↔ before.ReportsRead name span
  names : ∀ id, after.nameOf id = before.nameOf id

namespace Quiet

@[refl] theorem refl
    (point : FlowPoint) :
    point.Quiet point :=
  ⟨fun _ => .rfl, fun _ => JumpStack.collects_refl _, fun _ _ => .rfl, fun _ => rfl⟩

theorem trans
    {first second third : FlowPoint}
    (earlier : first.Quiet second)
    (later : second.Quiet third) :
    first.Quiet third where
  misses := fun id => (later.misses id).trans (earlier.misses id)
  collects := fun id => ((earlier.collects id).trans (later.collects id)).congr (by simp)
  reports := fun name span => (later.reports name span).trans (earlier.reports name span)
  names := fun id => (later.names id).trans (earlier.names id)

/-- Reporting something else does nothing to locals. -/
theorem report
    {issue : Issue}
    (other : issue.problem ≠ .uninitialized)
    (span : Span)
    (point : FlowPoint) :
    point.Quiet (point.report issue span) :=
  ⟨fun _ => .rfl, fun _ => JumpStack.collects_refl _, reportsRead_report other span point,
    fun _ => rfl⟩

/-- Knowing something about a reference does nothing to locals. -/
theorem setNull
    (id : LocalId)
    (status : NullStatus)
    (point : FlowPoint) :
    point.Quiet (point.mapFlow (.setNull id status)) :=
  ⟨fun _ => .rfl, fun _ => JumpStack.collects_refl _, fun _ _ => .rfl, fun _ => rfl⟩

/-- Checking an assignment to a final local does nothing to locals. -/
theorem checkFinal
    (span : Span)
    (id : LocalId)
    (point : FlowPoint) :
    point.Quiet (point.checkFinal span id) := by
  simp only [FlowPoint.checkFinal]
  split
  · exact .refl point
  · split
    · exact .report (by simp [Issue.problem]) span point
    · exact ⟨fun _ => .rfl, fun _ => JumpStack.collects_deferFinal _ _ _ _ _, fun _ _ => .rfl,
        fun _ => rfl⟩

/-- Checking the use of a reference does nothing to locals. -/
theorem checkNull
    (span : Span)
    (id : LocalId)
    (point : FlowPoint) :
    point.Quiet (point.checkNull span id) := by
  unfold FlowPoint.checkNull
  split
  · exact .report (by simp [Issue.problem]) span point
  · exact .report (by simp [Issue.problem]) span point
  · exact .refl point
  · exact ⟨fun _ => .rfl, fun _ => JumpStack.collects_deferNull _ _ _ _ _, fun _ _ => .rfl,
      fun _ => rfl⟩

/-- Checking the use of a value as an object does nothing to locals. -/
theorem checkDereference
    (options : CompilerOptions)
    (value : Expr)
    (point : FlowPoint) :
    point.Quiet (point.checkDereference options value) := by
  unfold FlowPoint.checkDereference
  split
  · exact .refl point
  · split
    · exact .report (by simp [Issue.problem]) _ point
    · split
      · exact (Quiet.checkNull _ _ point).trans (.setNull _ _ _)
      · exact .refl point
    · exact .refl point

/-- Reporting repeated assignments does nothing to locals. -/
theorem settleFinals
    (bodyEnd : FlowState)
    (deferred : List (LocalId × Span)) :
    ∀ (point : FlowPoint), point.Quiet (LoopLowering.settleFinals deferred bodyEnd point) := by
  induction deferred with
  | nil =>
      exact .refl
  | cons use rest inductionHypothesis =>
      intro point
      simp only [LoopLowering.settleFinals, List.foldl_cons]
      split
      · exact (Quiet.report (by simp [Issue.problem]) use.2 point).trans (inductionHypothesis _)
      · exact inductionHypothesis point

/-- Reporting a use of null does nothing to locals. -/
theorem settleNull
    (onEntry : FlowState)
    (backEdge : Option FlowState)
    (point : FlowPoint)
    (use : LocalId × Span) :
    point.Quiet (LoopLowering.settleNull onEntry backEdge point use) := by
  have reports : ∀ {issue : Issue}, issue.problem ≠ .uninitialized →
      point.Quiet (point.report issue use.2) :=
    fun other => .report other use.2 point
  simp only [LoopLowering.settleNull]
  split
  · exact reports (by simp [Issue.problem])
  · exact reports (by simp [Issue.problem])
  · exact reports (by simp [Issue.problem])
  · exact .refl point
  · exact ⟨fun _ => .rfl, fun _ => JumpStack.collects_deferNull _ _ _ _ _, fun _ _ => .rfl,
      fun _ => rfl⟩

/-- Reporting uses of null does nothing to locals. -/
theorem settleNulls
    (onEntry : FlowState)
    (backEdge : Option FlowState)
    (deferred : List (LocalId × Span)) :
    ∀ (point : FlowPoint),
      point.Quiet (deferred.foldl (LoopLowering.settleNull onEntry backEdge) point) := by
  induction deferred with
  | nil =>
      exact .refl
  | cons use rest inductionHypothesis =>
      intro point
      exact (Quiet.settleNull onEntry backEdge point use).trans (inductionHypothesis _)

end Quiet

namespace Exact

variable
  {elements others : List LocalId}
  {before middle after : FlowPoint}
  {first second : Behaviour}

/-- Where nothing happens to locals, nothing is executed. -/
theorem ofQuiet
    (quiet : before.Quiet after) :
    Exact [] before after (.only [] .completes) where
  misses := by
    intro id _
    rw [quiet.misses]
    simp [Behaviour.only]
  collects := by
    intro id _
    exact (quiet.collects id).congr (by simp [Behaviour.only])
  reports := by
    intro name span
    rw [quiet.reports]
    simp [Behaviour.only]
  names := quiet.names

/-- What is exact is so for fewer locals. -/
theorem weaken
    (exact_ : Exact elements before after first)
    (within : ∀ id ∈ elements, id ∈ others) :
    Exact others before after first where
  misses := fun id notElement => exact_.misses id fun member => notElement (within id member)
  collects := fun id notElement => exact_.collects id fun member => notElement (within id member)
  reports := exact_.reports
  names := exact_.names

/-- What follows where nothing has happened to locals. -/
theorem afterQuiet
    (quiet : before.Quiet middle)
    (exact_ : Exact elements middle after first) :
    Exact elements before after first where
  misses := by
    intro id notElement
    rw [exact_.misses id notElement, quiet.misses]
  collects := by
    intro id notElement
    refine ((quiet.collects id).trans (exact_.collects id notElement)).congr fun label => ?_
    rw [quiet.misses, false_or]
  reports := by
    intro name span
    rw [exact_.reports, quiet.reports]
    simp only [quiet.misses, quiet.names]
  names := fun id => (exact_.names id).trans (quiet.names id)

/-- Nothing happens to locals in the end. -/
theorem beforeQuiet
    (exact_ : Exact elements before middle first)
    (quiet : middle.Quiet after) :
    Exact elements before after first where
  misses := by
    intro id notElement
    rw [quiet.misses, exact_.misses id notElement]
  collects := by
    intro id notElement
    exact ((exact_.collects id notElement).trans (quiet.collects id)).congr (by simp)
  reports := by
    intro name span
    rw [quiet.reports, exact_.reports]
  names := fun id => (quiet.names id).trans (exact_.names id)

/-- One statement after another, if the second can be executed and does not read
elements of the first. -/
theorem followedBy
    (earlier : Exact elements before middle first)
    (later : Exact others middle after second)
    (possible : second.Possible)
    (confined : ∀ id ∈ elements, ∀ trace outcome, second trace outcome →
      ∀ span, .read span id ∉ trace) :
    Exact (elements ++ others) before after (first.followedBy second) where
  misses := by
    intro id notElement
    rw [List.mem_append, not_or] at notElement
    rw [later.misses id notElement.2, earlier.misses id notElement.1]
    constructor
    · rintro ⟨⟨misses, trace, isFirst, skips⟩, further, isSecond, skipsFurther⟩
      exact ⟨misses, trace ++ further, .inl ⟨trace, further, rfl, isFirst, isSecond⟩,
        LocalTrace.skips_append.mpr ⟨skips, skipsFurther⟩⟩
    · rintro ⟨misses, trace, ⟨one, two, rfl, isFirst, isSecond⟩ | ⟨-, notComplete⟩, skips⟩
      · rw [LocalTrace.skips_append] at skips
        exact ⟨⟨misses, one, isFirst, skips.1⟩, two, isSecond, skips.2⟩
      · exact absurd rfl notComplete
  collects := by
    intro id notElement
    rw [List.mem_append, not_or] at notElement
    refine ((earlier.collects id notElement.1).trans
      (later.collects id notElement.2)).congr fun label => ?_
    rw [earlier.misses id notElement.1]
    constructor
    · rintro (⟨misses, trace, isFirst, skips⟩ |
        ⟨⟨misses, trace, isFirst, skips⟩, further, isSecond, skipsFurther⟩)
      · exact ⟨misses, trace, .inr ⟨isFirst, by simp⟩, skips⟩
      · exact ⟨misses, trace ++ further, .inl ⟨trace, further, rfl, isFirst, isSecond⟩,
          LocalTrace.skips_append.mpr ⟨skips, skipsFurther⟩⟩
    · rintro ⟨misses, trace, ⟨one, two, rfl, isFirst, isSecond⟩ | ⟨isFirst, -⟩, skips⟩
      · rw [LocalTrace.skips_append] at skips
        exact .inr ⟨⟨misses, one, isFirst, skips.1⟩, two, isSecond, skips.2⟩
      · exact .inl ⟨misses, trace, isFirst, skips⟩
  reports := by
    intro name span
    rw [later.reports, earlier.reports, or_assoc]
    refine or_congr_right ?_
    constructor
    · rintro (⟨id, isName, misses, trace, outcome, isFirst, reads⟩ |
        ⟨id, isName, missed, trace, outcome, isSecond, reads⟩)
      · -- A read of the first statement belongs to an execution of both.
        by_cases completes : outcome = .completes
        · subst completes
          obtain ⟨further, ending, isSecond⟩ := possible
          exact ⟨id, isName, misses, trace ++ further, ending,
            .inl ⟨trace, further, rfl, isFirst, isSecond⟩,
            LocalTrace.readsEarly_append.mpr (.inl reads)⟩
        · exact ⟨id, isName, misses, trace, outcome, .inr ⟨isFirst, completes⟩, reads⟩
      · have notElement : id ∉ elements := fun member =>
          confined id member trace outcome isSecond span reads.mem
        obtain ⟨misses, one, isFirst, skips⟩ := (earlier.misses id notElement).mp missed
        exact ⟨id, (earlier.names id).symm.trans isName, misses, one ++ trace, outcome,
          .inl ⟨one, trace, rfl, isFirst, isSecond⟩,
          LocalTrace.readsEarly_append.mpr (.inr ⟨skips, reads⟩)⟩
    · rintro ⟨id, isName, misses, trace, outcome,
        ⟨one, two, rfl, isFirst, isSecond⟩ | ⟨isFirst, -⟩, reads⟩
      · rcases LocalTrace.readsEarly_append.mp reads with readsFirst | ⟨skips, readsSecond⟩
        · exact .inl ⟨id, isName, misses, one, _, isFirst, readsFirst⟩
        · have notElement : id ∉ elements := fun member =>
            confined id member two outcome isSecond span readsSecond.mem
          exact .inr ⟨id, (earlier.names id).trans isName,
            (earlier.misses id notElement).mpr ⟨misses, one, isFirst, skips⟩, two, outcome,
            isSecond, readsSecond⟩
      · exact .inl ⟨id, isName, misses, trace, outcome, isFirst, reads⟩
  names := fun id => (later.names id).trans (earlier.names id)

/-- One of two statements. The second is analyzed in the state before the first. -/
theorem either
    {joined : FlowState}
    (one : Exact elements before middle first)
    (other : Exact others { middle with flow := before.flow } after second)
    (isJoined : ∀ id, joined.Misses id ↔ middle.flow.Misses id ∨ after.flow.Misses id) :
    Exact (elements ++ others) before { after with flow := joined } (first.either second) where
  misses := by
    intro id notElement
    rw [List.mem_append, not_or] at notElement
    refine (isJoined id).trans ?_
    rw [one.misses id notElement.1, other.misses id notElement.2, ← and_or_left]
    refine and_congr_right fun _ => ?_
    simp only [Behaviour.either, or_and_right, exists_or]
  collects := by
    intro id notElement
    rw [List.mem_append, not_or] at notElement
    refine ((one.collects id notElement.1).trans (other.collects id notElement.2)).congr
      fun label => ?_
    rw [← and_or_left]
    refine and_congr_right fun _ => ?_
    simp only [Behaviour.either, or_and_right, exists_or]
  reports := by
    intro name span
    have reported := (other.reports name span).trans (or_congr_left (one.reports name span))
    refine reported.trans ?_
    rw [or_assoc]
    refine or_congr_right ?_
    constructor
    · rintro (⟨id, isName, misses, trace, outcome, isFirst, reads⟩ |
        ⟨id, isName, misses, trace, outcome, isSecond, reads⟩)
      · exact ⟨id, isName, misses, trace, outcome, .inl isFirst, reads⟩
      · exact ⟨id, (one.names id).symm.trans isName, misses, trace, outcome, .inr isSecond, reads⟩
    · rintro ⟨id, isName, misses, trace, outcome, isFirst | isSecond, reads⟩
      · exact .inl ⟨id, isName, misses, trace, outcome, isFirst, reads⟩
      · exact .inr ⟨id, (one.names id).trans isName, misses, trace, outcome, isSecond, reads⟩
  names := fun id => (other.names id).trans (one.names id)

end Exact

end FlowPoint

end LoopLowering
