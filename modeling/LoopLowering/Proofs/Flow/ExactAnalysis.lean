import LoopLowering.Proofs.Flow.Assignment
import LoopLowering.Proofs.Flow.Exactness
import LoopLowering.Proofs.Flow.Narrowing
import LoopLowering.Proofs.Resolution.LoopElements

namespace LoopLowering

/-!
# Exact flow through statements

Flow analysis looks at every statement once and follows all executions of it.
It does so exactly because an execution may go either way at a condition, because
a loop need not run its body again, and because the element of a loop, which flow
analysis takes for assigned after the loop, is not read there.
-/

/-- Code without a choice after such code is code without a choice. -/
theorem Behaviour.only_followedBy_only
    (first second : LocalTrace)
    (outcome : TraceEnd) :
    (only first .completes).followedBy (only second outcome) =
      only (first ++ second) outcome := by
  funext trace ending
  apply propext
  constructor
  · rintro (⟨_, _, rfl, ⟨rfl, -⟩, rfl, rfl⟩ | ⟨⟨-, completes⟩, notComplete⟩)
    · exact ⟨rfl, rfl⟩
    · exact absurd completes notComplete
  · rintro ⟨rfl, rfl⟩
    exact .inl ⟨first, second, rfl, ⟨rfl, rfl⟩, rfl, rfl⟩

namespace FlowPoint.Exact

variable
  {before middle after : FlowPoint}
  {first second : LocalTrace}
  {outcome : TraceEnd}

theorem append
    (earlier : Exact [] before middle (.only first .completes))
    (later : Exact [] middle after (.only second outcome)) :
    Exact [] before after (.only (first ++ second) outcome) := by
  rw [← Behaviour.only_followedBy_only]
  exact earlier.followedBy later ⟨second, outcome, rfl, rfl⟩ (by simp)

/-- Checking a read follows the read exactly. -/
theorem checkReadOf
    (span : Span)
    (binding : Option LocalId)
    (point : FlowPoint) :
    Exact [] point (point.checkReadOf span binding)
      (.only (LocalTrace.ofBinding (.read span) binding) .completes) := by
  have evaluates := evaluates_checkReadOf span binding point
  refine ⟨?_, ?_, ?_, ?_⟩
  · intro id _
    simp [FlowState.Misses, evaluates.reachable, evaluates.definite, Behaviour.only]
  · intro id _
    have sameJumps : (point.checkReadOf span binding).jumps = point.jumps := by
      cases binding with
      | none =>
          rfl
      | some read =>
          simp only [FlowPoint.checkReadOf, checkRead]
          split <;> rfl
    rw [sameJumps]
    exact (JumpStack.collects_refl _).congr (by simp [Behaviour.only])
  · intro name position
    cases binding with
    | none =>
        simp [FlowPoint.checkReadOf, Behaviour.only, LocalTrace.ofBinding]
    | some read =>
        simp only [FlowPoint.checkReadOf, checkRead]
        split
        · next assigned =>
            have notMissed : ¬point.flow.Misses read := by
              rintro ⟨reached, missed⟩
              simp [FlowState.isAssigned, reached, missed] at assigned
            constructor
            · exact .inl
            · rintro (older | ⟨id, -, misses, trace, outcome, ⟨rfl, -⟩, reads⟩)
              · exact older
              · rw [LocalTrace.readsEarly_read] at reads
                obtain rfl := Option.some.inj reads.2
                exact absurd misses notMissed
        · next missed =>
            have misses : point.flow.Misses read := by
              simpa [FlowState.isAssigned, FlowState.Misses] using missed
            simp only [ReportsRead, report, MethodState.report, Array.mem_push]
            refine or_congr_right ⟨fun same => ?_, ?_⟩
            · obtain ⟨rfl, rfl⟩ := Issue.eq_of_uninitialized_diagnostic same
              exact ⟨read, rfl, misses, _, _, ⟨rfl, rfl⟩,
                (LocalTrace.readsEarly_read _).mpr ⟨rfl, rfl⟩⟩
            · rintro ⟨id, rfl, -, trace, outcome, ⟨rfl, -⟩, reads⟩
              rw [LocalTrace.readsEarly_read] at reads
              obtain ⟨rfl, isRead⟩ := reads
              obtain rfl := Option.some.inj isRead
              rfl
  · intro id
    exact congrArg (fun scope => (scope.localAt id).name) evaluates.scope

/-- Recording an assignment follows the assignment exactly. -/
theorem assign
    (options : CompilerOptions)
    (assigned : LocalId)
    (status : NullStatus)
    (point : FlowPoint) :
    Exact [] point (point.assign options assigned status)
      (.only (LocalTrace.ofBinding .assign (some assigned)) .completes) := by
  have step : Exact [] point (point.mapFlow (.assign assigned))
      (.only (LocalTrace.ofBinding .assign (some assigned)) .completes) := by
    refine ⟨?_, ?_, ?_, fun _ => rfl⟩
    · intro id _
      simp [mapFlow, Behaviour.only]
    · intro id _
      exact (JumpStack.collects_refl _).congr (by simp [Behaviour.only])
    · intro name span
      simp [ReportsRead, mapFlow, Behaviour.only]
  unfold FlowPoint.assign
  simp only
  split
  · exact step.beforeQuiet (.setNull _ _ _)
  · exact step

end FlowPoint.Exact

mutual

/-- Flow through an expression follows it exactly. -/
theorem exact_analyzeExpr
    (options : CompilerOptions) :
    ∀ (expr : Expr) (point : FlowPoint),
      FlowPoint.Exact [] point (analyzeExpr options expr point) (.only expr.steps .completes)
  | .intLit .., point | .boolLit .., point | .stringLit .., point | .null _, point => by
      simp only [analyzeExpr, Expr.steps]
      exact .ofQuiet (.refl point)
  | .name span ref, point => by
      simp only [analyzeExpr, Expr.steps]
      exact .checkReadOf span ref.binding point
  | .newArray _ _ elements, point => by
      simp only [analyzeExpr, Expr.steps]
      exact exact_analyzeExprs options elements point
  | .binary _ _ left right, point => by
      simp only [analyzeExpr, Expr.steps]
      exact (exact_analyzeExpr options left point).append (exact_analyzeExpr options right _)
  | .assign _ target op value, point => by
      have read : FlowPoint.Exact [] point
          (if op.isSome then point.checkReadOf target.span target.node.binding else point)
          (.only (if op.isSome then
            LocalTrace.ofBinding (.read target.span) target.node.binding else []) .completes) := by
        split
        · exact .checkReadOf target.span target.node.binding point
        · exact .ofQuiet (.refl point)
      simp only [analyzeExpr, Expr.steps]
      refine read.append ?_
      have evaluated := exact_analyzeExpr options value
        (if op.isSome then point.checkReadOf target.span target.node.binding else point)
      generalize (if op.isSome then point.checkReadOf target.span target.node.binding
        else point) = start at evaluated ⊢
      cases target.node.binding with
      | none =>
          simpa [LocalTrace.ofBinding] using evaluated
      | some id =>
          exact (evaluated.beforeQuiet (.checkFinal target.span id _)).append (.assign _ _ _ _)
  | .call _ _ args, point => by
      simp only [analyzeExpr, Expr.steps]
      exact exact_analyzeExprs options args point
  | .methodCall _ receiver _ args, point => by
      simp only [analyzeExpr, Expr.steps]
      exact ((exact_analyzeExpr options receiver point).beforeQuiet
        (.checkDereference options receiver _)).append (exact_analyzeExprs options args _)

theorem exact_analyzeExprs
    (options : CompilerOptions) :
    ∀ (exprs : List Expr) (point : FlowPoint),
      FlowPoint.Exact [] point (analyzeExprs options exprs point)
        (.only (Expr.allSteps exprs) .completes)
  | [], point => by
      simp only [analyzeExprs, Expr.allSteps]
      exact .ofQuiet (.refl point)
  | expr :: rest, point => by
      simp only [analyzeExprs, Expr.allSteps]
      exact (exact_analyzeExpr options expr point).append (exact_analyzeExprs options rest _)

end

/-- Flow through a declaration follows it exactly. -/
theorem exact_analyzeDecl
    (options : CompilerOptions)
    (decl : LocalDecl)
    (point : FlowPoint) :
    FlowPoint.Exact [] point (analyzeDecl options decl point) (.only decl.steps .completes) := by
  unfold analyzeDecl LocalDecl.steps
  cases decl.initial with
  | none =>
      exact .ofQuiet (.refl point)
  | some value =>
      have evaluated := exact_analyzeExpr options value point
      cases decl.binding with
      | none =>
          simpa [LocalTrace.ofBinding] using evaluated
      | some id =>
          exact evaluated.append (.assign _ _ _ _)

namespace FlowPoint.Exact

variable
  {elements : List LocalId}
  {point after : FlowPoint}
  {body : Behaviour}

/-- A labeled statement is left where its body completes and where it breaks to
the label. -/
theorem leaving
    {label : String}
    {labelsLoop : Bool}
    {record : LabelRecord}
    {rest : JumpStack}
    (exact_ : Exact elements { point with jumps := point.jumps.pushLabel label labelsLoop } after
      body)
    (isJumps : after.jumps = .label record :: rest) :
    Exact elements point
      ({ after with jumps := rest }.mapFlow fun flow => flow.merge record.onBreak)
      (body.leaving label) where
  misses := by
    intro id notElement
    have collects := exact_.collects id notElement
    rw [isJumps] at collects
    obtain ⟨-, onBreak, -⟩ := collects
    have broken : record.onBreak.Misses id ↔ point.flow.Misses id ∧
        ∃ trace, body trace (.breaks (some label)) ∧ trace.Skips id := by
      rw [onBreak]
      simp [LabelRecord.entered]
    change (after.flow.merge record.onBreak).Misses id ↔ _
    rw [FlowState.misses_merge, exact_.misses id notElement, broken, ← and_or_left]
    refine and_congr_right fun _ => ?_
    simp only [Behaviour.leaving, TraceEnd.completes_eq_leaving]
    constructor
    · rintro (⟨trace, isBody, skips⟩ | ⟨trace, isBody, skips⟩)
      · exact ⟨trace, ⟨_, isBody, .inl rfl⟩, skips⟩
      · exact ⟨trace, ⟨_, isBody, .inr rfl⟩, skips⟩
    · rintro ⟨trace, ⟨_, isBody, rfl | rfl⟩, skips⟩
      · exact .inl ⟨trace, isBody, skips⟩
      · exact .inr ⟨trace, isBody, skips⟩
  collects := by
    intro id notElement
    have collects := exact_.collects id notElement
    rw [isJumps] at collects
    refine collects.2.2.congr fun other => ?_
    simp only [Behaviour.leaving, TraceEnd.breaks_eq_leaving]
    constructor
    · rintro ⟨isOther, misses, trace, isBody, skips⟩
      exact ⟨misses, trace, ⟨_, isBody, rfl, isOther⟩, skips⟩
    · rintro ⟨misses, trace, ⟨_, isBody, rfl, isOther⟩, skips⟩
      exact ⟨isOther, misses, trace, isBody, skips⟩
  reports := by
    intro name span
    refine (exact_.reports name span).trans (or_congr_right ?_)
    constructor
    · rintro ⟨id, isName, misses, trace, outcome, isBody, reads⟩
      exact ⟨id, isName, misses, trace, _, ⟨outcome, isBody, rfl⟩, reads⟩
    · rintro ⟨id, isName, misses, trace, _, ⟨outcome, isBody, -⟩, reads⟩
      exact ⟨id, isName, misses, trace, outcome, isBody, reads⟩
  names := exact_.names

/-- Where nothing arrives nothing is executed. -/
theorem unreached
    (unreachable : point.flow.reachable = false)
    (quiet : point.Quiet after) :
    Exact elements point after body := by
  have nothing : ∀ id, ¬point.flow.Misses id := by
    rintro id ⟨reached, -⟩
    rw [unreachable] at reached
    cases reached
  refine ⟨?_, ?_, ?_, quiet.names⟩
  · intro id _
    rw [quiet.misses]
    simp [nothing]
  · intro id _
    exact (quiet.collects id).congr (by simp [nothing])
  · intro name span
    rw [quiet.reports]
    simp [nothing]

/-- Code that never completes leads to a dead end, and it arrives where it breaks
to. -/
theorem deadEnd
    {steps : LocalTrace}
    {outcome : TraceEnd}
    (exact_ : Exact [] point after (.only steps .completes))
    (leaves : outcome ≠ .completes)
    {jumps : JumpStack}
    (collects : ∀ id, after.jumps.Collects id jumps fun label =>
      after.flow.Misses id ∧ outcome = .breaks label) :
    Exact [] point { after with flow := .deadEnd, jumps := jumps } (.only steps outcome) where
  misses := by
    intro id _
    constructor
    · exact fun missed => absurd missed (FlowState.not_misses_deadEnd id)
    · rintro ⟨-, trace, ⟨-, completes⟩, -⟩
      exact absurd completes.symm leaves
  collects := by
    intro id notElement
    refine ((exact_.collects id notElement).trans (collects id)).congr fun label => ?_
    rw [exact_.misses id notElement]
    constructor
    · rintro (⟨-, trace, ⟨-, isBreak⟩, -⟩ | ⟨⟨misses, trace, ⟨rfl, -⟩, skips⟩, rfl⟩)
      · cases isBreak
      · exact ⟨misses, _, ⟨rfl, rfl⟩, skips⟩
    · rintro ⟨misses, trace, ⟨rfl, rfl⟩, skips⟩
      exact .inr ⟨⟨misses, _, ⟨rfl, rfl⟩, skips⟩, rfl⟩
  reports := by
    intro name span
    refine (exact_.reports name span).trans (or_congr_right ?_)
    constructor
    · rintro ⟨id, isName, misses, trace, _, ⟨rfl, -⟩, reads⟩
      exact ⟨id, isName, misses, _, _, ⟨rfl, rfl⟩, reads⟩
    · rintro ⟨id, isName, misses, trace, _, ⟨rfl, -⟩, reads⟩
      exact ⟨id, isName, misses, _, _, ⟨rfl, rfl⟩, reads⟩
  names := exact_.names

/-- A jump arrives at the target that it is recorded at, if there is one. -/
theorem jump
    {outcome : TraceEnd}
    (leaves : outcome ≠ .completes)
    (span : Span)
    {target : Except JumpError JumpStack}
    (collects : ∀ id, point.jumps.Collects id (target.toOption.getD point.jumps) fun label =>
      point.flow.Misses id ∧ outcome = .breaks label) :
    Exact [] point (point.jump span target) (.only [] outcome) := by
  cases target with
  | ok jumps =>
      exact (Exact.ofQuiet (.refl point)).deadEnd leaves collects
  | error cause =>
      exact (Exact.ofQuiet (.report (by simp [Issue.problem]) span point)).deadEnd leaves collects

/-- A break arrives where it breaks to. -/
theorem breakTo
    (span : Span)
    (label : Option String)
    (point : FlowPoint) :
    Exact [] point (point.jump span (point.jumps.recordBreak label point.flow))
      (.only [] (.breaks label)) := by
  refine .jump (by simp) span fun id => ?_
  cases recorded : point.jumps.recordBreak label point.flow with
  | ok jumps =>
      exact (JumpStack.takes_of_recordBreak recorded).collects.congr
        (by simp [TakenJump.state, TakenJump.ending])
  | error cause =>
      exact (JumpStack.collects_of_failed label point.flow point.jumps
        (by rw [recorded]; rfl)).congr (by simp [eq_comm])

/-- A continue arrives nowhere. -/
theorem continueTo
    (span : Span)
    (label : Option String)
    (point : FlowPoint) :
    Exact [] point (point.jump span (point.jumps.recordContinue label point.flow))
      (.only [] (.continues label)) := by
  refine .jump (by simp) span fun id => ?_
  cases recorded : point.jumps.recordContinue label point.flow with
  | ok jumps =>
      exact (JumpStack.takes_of_recordContinue recorded).collects.congr (by simp [TakenJump.ending])
  | error cause =>
      exact (JumpStack.collects_refl point.jumps).congr (by simp)

end FlowPoint.Exact

section Loops

variable
  {options : CompilerOptions}
  {element : LocalDecl}
  {facts : LoopFacts}
  {entry : LoopEntry}
  {body : LoopBody}
  {record : LoopRecord}

/-- Marking the locals of a loop assigns nothing. -/
theorem FlowPoint.Quiet.markSynthetics
    (classification : LoopClassification)
    (emptyAction : Bool)
    (binding : Option LocalId)
    (continues : Bool)
    (point : FlowPoint) :
    point.Quiet ⟨point.flow, point.state.mapScope (LoopLowering.markSynthetics options
      classification emptyAction binding continues), point.jumps⟩ := by
  have marks := marks_markSynthetics options classification emptyAction binding continues
    point.state
  exact ⟨fun _ => .rfl, fun _ => JumpStack.collects_refl _, fun _ _ => .rfl, marks.sameName⟩

/-- Leaving a loop assigns nothing, apart from joining its paths. -/
theorem quiet_leaveLoopWith
    (options : CompilerOptions)
    (element : LocalDecl)
    (facts : LoopFacts)
    (entry : LoopEntry)
    (body : LoopBody)
    (record : LoopRecord)
    (point : FlowPoint) :
    ∃ flow, point.Quiet
      { (leaveLoopWith options element facts entry body record point).point with flow := flow } := by
  have settles : ∀ (repeats : Bool) (backEdge : FlowState), point.Quiet
      (if repeats then settleFinals record.deferredFinals backEdge point else point) := by
    intro repeats backEdge
    cases repeats with
    | false =>
        exact .refl point
    | true =>
        exact .settleFinals backEdge record.deferredFinals point
  let continues := !body.analyzed || body.finish.flow.reachable || record.onContinue.reachable
  let repeats := body.analyzed && continues
  let backEdge := if repeats then body.finish.flow.merge record.onContinue else body.finish.flow
  have marked := (settles repeats backEdge).trans (@FlowPoint.Quiet.markSynthetics options
    facts.classification (Stmt.isEmptyAction body.action) element.binding continues _)
  have reported := marked.trans (.settleNulls record.onEntry
    (if continues then some backEdge else none) record.deferredNulls _)
  exact ⟨_, reported.misses, reported.collects, reported.reports, reported.names⟩

/-- What is missed after a loop is missed where it is entered, as its collection may
run out at once. -/
theorem misses_leaveLoopWith
    {id : LocalId}
    (point : FlowPoint)
    (enteredReachable : entry.entered.reachable = true)
    (entered : entry.entered.Misses id → entry.before.Misses id)
    (broken : record.onBreak.Misses id → entry.entered.Misses id) :
    (leaveLoopWith options element facts entry body record point).point.flow.Misses id ↔
      entry.entered.Misses id := by
  have ran : (entry.before.afterRun entry.entered).Misses id ↔ entry.entered.Misses id := by
    rw [FlowState.misses_afterRun _ enteredReachable]
    exact ⟨And.right, fun misses => ⟨entered misses, misses⟩⟩
  have leftBroken : (if record.onBreak.reachable = true then entry.before.afterRun record.onBreak
      else record.onBreak).Misses id → entry.entered.Misses id := by
    split
    · next reached =>
        intro misses
        exact broken ((FlowState.misses_afterRun _ reached).mp misses).2
    · exact broken
  have exhausted : ∀ (continues : Bool) (backEdge : FlowState),
      (if body.analyzed = true then
        if continues = true then
          (entry.before.afterRun entry.entered).afterOptional backEdge
        else
          entry.before.afterRun entry.entered
      else
        entry.entered).Misses id ↔ entry.entered.Misses id := by
    intro continues backEdge
    split
    · split
      · exact ran
      · exact ran
    · exact .rfl
  change (FlowState.merge _ _).Misses id ↔ _
  rw [FlowState.misses_merge]
  constructor
  · rintro (misses | misses)
    · exact leftBroken misses
    · exact (exhausted _ _).mp misses
  · exact fun misses => .inr ((exhausted _ _).mpr misses)

/-- Entering a loop evaluates its collection and assigns its element. -/
theorem misses_enterLoop
    {scope : ScopeId}
    {collection : Expr}
    {point : FlowPoint}
    {id : LocalId}
    (uninitialized : element.initial = none) :
    ((enterLoop options scope element collection point).entered.Misses id ↔
        (point.flow.Misses id ∧ collection.steps.Skips id) ∧ element.binding ≠ some id) ∧
      ((enterLoop options scope element collection point).before.Misses id ↔
        point.flow.Misses id) := by
  have declares : ∀ before : FlowPoint, analyzeDecl options element before = before := by
    intro before
    rw [analyzeDecl, uninitialized]
  have evaluated : FlowPoint.Exact [] point
      (analyzeExpr options collection (point.checkDereference options collection))
      (.only collection.steps .completes) :=
    .afterQuiet (.checkDereference options collection point) (exact_analyzeExpr options collection _)
  have misses := evaluated.misses id List.not_mem_nil
  simp only [Behaviour.only, and_true, exists_eq_left] at misses
  simp only [enterLoop, declares]
  refine ⟨?_, (FlowPoint.Quiet.checkDereference options collection point).misses id⟩
  cases isBound : element.binding with
  | none =>
      exact misses.trans (and_iff_left (by simp)).symm
  | some bound =>
      rw [FlowState.misses_assign, misses, ne_eq, ne_eq, Option.some.injEq]

/-- Leaving a loop after a body that was followed exactly follows the loop exactly,
apart from its element. -/
theorem exact_leaveLoop
    {scope : ScopeId}
    {collection : Expr}
    {point : FlowPoint}
    {elements : List LocalId}
    {behaviour : Behaviour}
    {rest : JumpStack}
    (uninitialized : element.initial = none)
    (reached : point.flow.reachable = true)
    (isElement : ∀ id, element.binding = some id → id ∈ elements)
    (exact_ : FlowPoint.Exact elements (enterLoop options scope element collection point).body
      body.finish behaviour)
    (isJumps : body.finish.jumps = .loop record :: rest)
    (labels : List String) :
    FlowPoint.Exact elements point
      (leaveLoop options element facts (enterLoop options scope element collection point) body).point
      (.followedBy (.only collection.steps .completes)
        (.Iterated labels element.binding behaviour)) := by
  have enters := enters_enterLoop options scope element collection point
  have evaluated : FlowPoint.Exact [] point
      (analyzeExpr options collection (point.checkDereference options collection))
      (.only collection.steps .completes) :=
    .afterQuiet (.checkDereference options collection point) (exact_analyzeExpr options collection _)
  have isBody : (enterLoop options scope element collection point).body =
      { flow := (enterLoop options scope element collection point).entered.withoutNulls
        state := (analyzeExpr options collection
          (point.checkDereference options collection)).state.addCheckpoint
            (enterLoop options scope element collection point).entered
        jumps := (analyzeExpr options collection
          (point.checkDereference options collection)).jumps.pushLoop scope
            (enterLoop options scope element collection point).before } := by
    simp only [enterLoop, analyzeDecl, uninitialized]
  obtain ⟨flow, quiet⟩ := quiet_leaveLoopWith options element facts
    (enterLoop options scope element collection point) body record { body.finish with jumps := rest }
  rw [leaveLoop_eq _ _ _ _ _ isJumps]
  refine ⟨?_, ?_, ?_, ?_⟩
  · intro id notElement
    have different : element.binding ≠ some id := fun isBound => notElement (isElement id isBound)
    obtain ⟨entered, before⟩ :=
      @misses_enterLoop options element scope collection point id uninitialized
    have collects := exact_.collects id notElement
    rw [isJumps, isBody] at collects
    have broken : record.onBreak.Misses id →
        (enterLoop options scope element collection point).entered.Misses id := by
      intro misses
      rcases collects.1.mp misses with never | arrives
      · exact absurd never (FlowState.not_misses_deadEnd id)
      · exact arrives.1
    rw [misses_leaveLoopWith _ (enters.enteredReachable.trans reached)
      (fun misses => before.mpr (entered.mp misses).1.1) broken, entered,
      and_iff_left different]
    refine and_congr_right fun _ => ?_
    constructor
    · intro skips
      exact ⟨collection.steps ++ [], .inl ⟨_, [], rfl, ⟨rfl, rfl⟩, .exhausted⟩,
        LocalTrace.skips_append.mpr ⟨skips, LocalTrace.skips_nil id⟩⟩
    · rintro ⟨trace, ⟨one, two, rfl, ⟨rfl, -⟩, -⟩ | ⟨-, notComplete⟩, skips⟩
      · exact (LocalTrace.skips_append.mp skips).1
      · exact absurd rfl notComplete
  · intro id notElement
    have different : element.binding ≠ some id := fun isBound => notElement (isElement id isBound)
    obtain ⟨entered, -⟩ :=
      @misses_enterLoop options element scope collection point id uninitialized
    have collects := exact_.collects id notElement
    rw [isJumps, isBody] at collects
    refine (((evaluated.collects id List.not_mem_nil).trans collects.2).trans
      (quiet.collects id)).congr fun label => ?_
    rw [FlowState.misses_withoutNulls, entered, or_false]
    constructor
    · rintro (⟨-, trace, ⟨-, isBreak⟩, -⟩ | ⟨isLabel, ⟨⟨misses, skips⟩, -⟩, trace, isBody, skipsBody⟩)
      · cases isBreak
      · have left : Behaviour.Iterated labels element.binding behaviour
            (LocalTrace.ofBinding .assign element.binding ++ trace) (.breaks label) :=
          .left isBody rfl (by simpa using isLabel)
        refine ⟨misses, _, .inl ⟨_, _, rfl, ⟨rfl, rfl⟩, left⟩, ?_⟩
        simp only [LocalTrace.skips_append, LocalTrace.skips_assign]
        exact ⟨skips, different, skipsBody⟩
    · rintro ⟨misses, trace, ⟨one, two, rfl, ⟨rfl, -⟩, iterated⟩ | ⟨⟨-, isBreak⟩, -⟩, skips⟩
      · obtain ⟨isLabel, taken, isTaken, skipsTaken⟩ := iterated.breaks
        rw [LocalTrace.skips_append] at skips
        exact .inr ⟨isLabel, ⟨⟨misses, skips.1⟩, different⟩, taken, isTaken, skipsTaken id skips.2⟩
      · cases isBreak
  · intro name span
    have started : (enterLoop options scope element collection point).body.ReportsRead name span ↔
        (analyzeExpr options collection
          (point.checkDereference options collection)).ReportsRead name span := by
      rw [isBody]
      rfl
    have names : ∀ id, (enterLoop options scope element collection point).body.nameOf id =
        point.nameOf id := by
      intro id
      rw [isBody]
      exact evaluated.names id
    have misses : ∀ id, (enterLoop options scope element collection point).body.flow.Misses id ↔
        (point.flow.Misses id ∧ collection.steps.Skips id) ∧ element.binding ≠ some id := by
      intro id
      rw [isBody]
      exact (misses_enterLoop uninitialized).1
    refine (quiet.reports name span).trans ?_
    rw [show FlowPoint.ReportsRead name span { body.finish with jumps := rest } ↔
      body.finish.ReportsRead name span from .rfl, exact_.reports, started, evaluated.reports,
      or_assoc]
    refine or_congr_right ?_
    simp only [names, misses]
    constructor
    · rintro (⟨id, isName, missed, trace, outcome, ⟨rfl, -⟩, reads⟩ |
        ⟨id, isName, ⟨⟨missed, skips⟩, different⟩, trace, outcome, isTaken, reads⟩)
      · exact ⟨id, isName, missed, _, _, .inl ⟨_, [], rfl, ⟨rfl, rfl⟩, .exhausted⟩,
          LocalTrace.readsEarly_append.mpr (.inl reads)⟩
      · obtain ⟨further, ending, iterated⟩ := Behaviour.Iterated.ofBody labels element.binding isTaken
        refine ⟨id, isName, missed, _, _, .inl ⟨_, _, rfl, ⟨rfl, rfl⟩, iterated⟩, ?_⟩
        simp only [LocalTrace.readsEarly_append, LocalTrace.skips_assign]
        exact .inr ⟨skips, .inl (.inr ⟨different, reads⟩)⟩
    · rintro ⟨id, isName, missed, trace, outcome,
        ⟨one, two, rfl, ⟨rfl, -⟩, iterated⟩ | ⟨⟨-, completes⟩, notComplete⟩, reads⟩
      · rcases LocalTrace.readsEarly_append.mp reads with readsFirst | ⟨skips, readsLoop⟩
        · exact .inl ⟨id, isName, missed, _, _, ⟨rfl, rfl⟩, readsFirst⟩
        · obtain ⟨different, taken, ending, isTaken, readsTaken⟩ := iterated.readsEarly readsLoop
          exact .inr ⟨id, isName, ⟨⟨missed, skips⟩, different⟩, taken, ending, isTaken, readsTaken⟩
      · exact absurd completes notComplete
  · intro id
    refine (quiet.names id).trans ?_
    refine (exact_.names id).trans ?_
    rw [isBody]
    exact evaluated.names id

end Loops

section Statements

variable
  {options : CompilerOptions}

/-- A body that is passed over is an empty block, which does nothing. -/
theorem Stmt.eq_emptyBlock_of_skipsAction
    {action : Stmt}
    (skips : skipsAction options action = true) :
    (∃ span facts, action = .block span [] facts) ∧ action.behaviour [] = .only [] .completes := by
  simp only [skipsAction, Bool.and_eq_true] at skips
  cases action with
  | block span stmts facts =>
      cases stmts with
      | nil =>
          simp only [behaviour, allBehaviour]
          exact ⟨⟨span, facts, rfl⟩, trivial⟩
      | cons first rest =>
          cases skips.1
  | _ =>
      cases skips.1

/-- Flow through the body of a loop follows it exactly, also when it is passed
over. -/
theorem exact_analyzeBody
    {action : Stmt}
    {entry : LoopEntry}
    (reached : entry.body.flow.reachable = true)
    (exact_ : FlowPoint.Exact action.elements entry.body
      (analyzeStmt options action entry.body).point (action.behaviour [])) :
    FlowPoint.Exact action.elements entry.body (entry.analyzeBody options action).finish
      (action.behaviour []) := by
  unfold LoopEntry.analyzeBody
  split
  · next skips =>
      rw [(Stmt.eq_emptyBlock_of_skipsAction skips).2]
      exact (FlowPoint.Exact.ofQuiet (.refl entry.body)).weaken (by simp)
  · exact exact_

mutual

/-- Flow through a statement follows it exactly. -/
theorem exact_analyzeStmt :
    ∀ {stmt : Stmt} (labels : List String) {point : FlowPoint},
      stmt.ConfinesElements →
      (∀ head ∈ stmt.heads, head.1.initial = none) →
      point.flow.reachable = true →
      FlowPoint.Exact stmt.elements point (analyzeStmt options stmt point).point
        (stmt.behaviour labels)
  | .localVar span decl, labels, point, _, _, _ => by
      simp only [analyzeStmt, Stmt.behaviour]
      exact exact_analyzeDecl options decl point
  | .expr span value, labels, point, _, _, _ => by
      simp only [analyzeStmt, Stmt.behaviour]
      exact exact_analyzeExpr options value point
  | .block span stmts facts, labels, point, confines, uninitialized, reached => by
      simp only [Stmt.ConfinesElements] at confines
      simp only [Stmt.heads] at uninitialized
      simp only [analyzeStmt, Stmt.behaviour, Stmt.elements, Stmt.heads]
      exact exact_analyzeStmts confines uninitialized
  | .branch span condition thenBranch none, labels, point, confines, uninitialized, reached => by
      simp only [Stmt.ConfinesElements] at confines
      simp only [Stmt.heads] at uninitialized
      have tested := exact_analyzeExpr options condition point
      have branch := exact_analyzeStmt [] confines uninitialized
        ((evaluates_analyzeExpr options condition point).reachable.trans reached)
      have joined := branch.either (.ofQuiet (.refl _)) fun id =>
        FlowState.misses_merge (analyzeStmt options thenBranch
          (analyzeExpr options condition point)).point.flow (analyzeExpr options condition point).flow
      simp only [analyzeStmt, Stmt.behaviour]
      exact (tested.followedBy joined ((thenBranch.possible_behaviour []).imp fun _ =>
        Exists.imp fun _ => .inl) (by simp)).weaken (by simp [Stmt.elements, Stmt.heads])
  | .branch span condition thenBranch (some elseBranch), labels, point, confines, uninitialized,
      reached => by
      simp only [Stmt.ConfinesElements] at confines
      simp only [Stmt.heads, List.mem_append] at uninitialized
      have testedReached : (analyzeExpr options condition point).flow.reachable = true :=
        (evaluates_analyzeExpr options condition point).reachable.trans reached
      have tested := exact_analyzeExpr options condition point
      have first := exact_analyzeStmt [] confines.1
        (fun head member => uninitialized head (.inl member)) testedReached
      have other : FlowPoint.Exact elseBranch.elements
          { (analyzeStmt options thenBranch (analyzeExpr options condition point)).point with
            flow := (analyzeExpr options condition point).flow }
          (analyzeStmt options elseBranch
            { (analyzeStmt options thenBranch (analyzeExpr options condition point)).point with
              flow := (analyzeExpr options condition point).flow }).point (elseBranch.behaviour []) :=
        exact_analyzeStmt [] confines.2 (fun head member => uninitialized head (.inr member))
          testedReached
      have joined := first.either other fun id => FlowState.misses_merge _ _
      simp only [analyzeStmt, Stmt.behaviour]
      exact (tested.followedBy joined ((thenBranch.possible_behaviour []).imp fun _ =>
        Exists.imp fun _ => .inl) (by simp)).weaken (by simp [Stmt.elements, Stmt.heads])
  | .forEach span element collection none facts, labels, point, confines, uninitialized, reached => by
      simp only [Stmt.ConfinesElements, Option.isSome_iff_exists] at confines
      obtain ⟨scope, isScope⟩ := confines
      have isNone : element.initial = none := uninitialized (element, facts) (by simp [Stmt.heads])
      have nothing : FlowPoint.Exact (Stmt.forEach span element collection none facts).elements
          (enterLoop options scope element collection point).body
          (enterLoop options scope element collection point).body (.only [] .completes) :=
        (FlowPoint.Exact.ofQuiet (.refl _)).weaken (by simp)
      simp only [analyzeStmt, isScope, Stmt.behaviour]
      exact exact_leaveLoop isNone reached
        (fun id isBound => by simp [Stmt.elements_forEach_none, isBound]) nothing rfl labels
  | .forEach span element collection (some action) facts, labels, point, confines, uninitialized,
      reached => by
      simp only [Stmt.ConfinesElements, Option.isSome_iff_exists] at confines
      obtain ⟨⟨scope, isScope⟩, confined⟩ := confines
      simp only [Stmt.heads, List.mem_cons] at uninitialized
      have isNone : element.initial = none := uninitialized _ (.inl rfl)
      have enters := enters_enterLoop options scope element collection point
      have bodyReached := enters.bodyReachable.trans reached
      obtain ⟨jumps, -, isPushed⟩ := enters.jumps
      have narrows := narrows_analyzeBody options action
        (enterLoop options scope element collection point)
      rw [isPushed] at narrows
      obtain ⟨record, rest, isJumps, -⟩ := narrows.exists_loop
      have body := (exact_analyzeBody bodyReached (exact_analyzeStmt [] confined
        (fun head member => uninitialized head (.inr member)) bodyReached)).weaken
          fun id (member : id ∈ action.elements) =>
            show id ∈ (Stmt.forEach span element collection (some action) facts).elements by
              simp [Stmt.elements_forEach_some, member]
      rw [(CodeContext.analyzeStmt_forEach options span element collection action point isScope).2]
      simp only [Stmt.behaviour]
      exact exact_leaveLoop isNone reached
        (fun id isBound => by simp [Stmt.elements_forEach_some, isBound]) body isJumps labels
  | .labeled span label body, labels, point, confines, uninitialized, reached => by
      simp only [Stmt.ConfinesElements] at confines
      simp only [Stmt.heads] at uninitialized
      have bodyReached : ({ point with
          jumps := point.jumps.pushLabel label.node body.isLoop } : FlowPoint).flow.reachable =
          true := reached
      have inner := exact_analyzeStmt (label.node :: labels) confines uninitialized bodyReached
      obtain ⟨record, rest, isJumps, -⟩ :=
        (narrows_analyzeStmt options body bodyReached).exists_label
      have left := inner.leaving isJumps
      simp only [analyzeStmt, Stmt.behaviour, isJumps, JumpStack.popLabel]
      exact left.weaken (by simp [Stmt.elements, Stmt.heads])
  | .breakTo span label, labels, point, _, _, _ => by
      simp only [analyzeStmt, Stmt.behaviour]
      exact .breakTo span (label.map Spanned.node) point
  | .continueTo span label, labels, point, _, _, _ => by
      simp only [analyzeStmt, Stmt.behaviour]
      exact .continueTo span (label.map Spanned.node) point
  | .returnWith span none, labels, point, _, _, _ => by
      simp only [analyzeStmt, Stmt.behaviour]
      exact (FlowPoint.Exact.ofQuiet (.refl point)).deadEnd (by simp) fun id =>
        (JumpStack.collects_refl _).congr (by simp)
  | .returnWith span (some value), labels, point, _, _, _ => by
      simp only [analyzeStmt, Stmt.behaviour]
      exact (exact_analyzeExpr options value point).deadEnd (by simp) fun id =>
        (JumpStack.collects_refl _).congr (by simp)
  | .empty span, labels, point, _, _, _ => by
      simp only [analyzeStmt, Stmt.behaviour]
      exact .ofQuiet (.refl point)

theorem exact_analyzeStmts :
    ∀ {stmts : List Stmt} {point : FlowPoint},
      Stmt.AllConfineElements stmts →
      (∀ head ∈ Stmt.allHeads stmts, head.1.initial = none) →
      FlowPoint.Exact (Stmt.allElements stmts) point (analyzeStmts options stmts point).point
        (Stmt.allBehaviour stmts)
  | [], point, _, _ => by
      simp only [analyzeStmts, Stmt.allBehaviour]
      exact .ofQuiet (.refl point)
  | stmt :: rest, point, confines, uninitialized => by
      simp only [Stmt.AllConfineElements] at confines
      simp only [Stmt.allHeads, List.mem_append] at uninitialized
      obtain ⟨head, later, confined⟩ := confines
      simp only [analyzeStmts]
      split
      · next reached =>
          simp only [Stmt.allBehaviour, Stmt.allElements, Stmt.allHeads, List.filterMap_append]
          exact (exact_analyzeStmt [] head (fun other member => uninitialized other (.inl member))
            reached).followedBy
              (exact_analyzeStmts later fun other member => uninitialized other (.inr member))
              (Stmt.possible_allBehaviour rest) confined
      · next unreached =>
          exact .unreached (by simpa using unreached) (.report (by simp [Issue.problem]) _ point)

end

end Statements

end LoopLowering
