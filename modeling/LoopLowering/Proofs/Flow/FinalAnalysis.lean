import LoopLowering.Proofs.Flow.FinalTargets

namespace LoopLowering

/-!
# Flow analysis guards final locals

Where flow analysis reports neither invalid jumps nor second assignments to final
locals, code that does not declare a final local assigns it at most once on every
execution, and not at all if it may have been assigned before. What carries this
through a loop is that an assignment to the local is deferred to the loop: if the
loop can be resumed after it, the analysis reports the assignment.
-/

/-- What is not reported where jumps are valid and final locals are assigned once. -/
def Problem.spoilsFinals
    (problem : Problem) :
    Prop :=
  problem = .invalidJump ∨ problem = .finalReassignment

namespace MethodState

/-- A local is final, and some scopes are those around its declaration. -/
structure Watches
    (id : LocalId)
    (around : ScopeId → Bool)
    (state : MethodState) :
    Prop where
  isFinal : (state.localAt id).isFinal = true
  homes : state.scope.isWithin (state.localAt id).scope = around

variable
  {id : LocalId}
  {around : ScopeId → Bool}
  {before after : MethodState}

/-- A final local that is watched is known. -/
theorem Watches.known
    (watches : before.Watches id around) :
    id < before.scope.locals.size := by
  refine Nat.lt_of_not_le fun unknown => ?_
  have isDefault : before.localAt id = default :=
    MethodScope.localAt_unknown (Nat.not_lt.mpr unknown)
  have isFinal := watches.isFinal
  rw [isDefault] at isFinal
  exact Bool.noConfusion isFinal

/-- Marking locals does not change which local is watched. -/
theorem Watches.marks
    (watches : before.Watches id around)
    (marks : before.Marks after) :
    after.Watches id around := by
  have persists := marks.scope.persists id watches.known
  refine ⟨persists.isFinal.trans watches.isFinal, ?_⟩
  have sameScope : (after.localAt id).scope = (before.localAt id).scope := persists.scope
  rw [← watches.homes, sameScope]
  funext scope
  simp only [MethodScope.isWithin, MethodScope.enclosing, marks.sameBlocks]

/-- Where nothing spoils final locals, jumps are valid. -/
theorem Spares.jumpsValid
    (sound : before.Spares Problem.spoilsFinals after) :
    before.JumpsValid after :=
  sound.mono fun _ => .inl

end MethodState

namespace LocalTrace

variable
  {id : LocalId}
  {first second : LocalTrace}

/-- A trace that does not assign a local assigns it zero times. -/
theorem count_eq_zero_iff
    (trace : LocalTrace) :
    trace.count (.assign id) = 0 ↔ trace.Skips id :=
  List.count_eq_zero

/-- Two traces assign a local if one of them does. -/
theorem not_skips_append :
    ¬(first ++ second).Skips id ↔ ¬first.Skips id ∨ ¬second.Skips id := by
  rw [skips_append, Classical.not_and_iff_not_or_not]

/-- Two traces assign a local at most once if each does and not both do. -/
theorem count_append_le
    (one : first.count (.assign id) ≤ 1)
    (other : second.count (.assign id) ≤ 1)
    (notBoth : ¬first.Skips id → second.Skips id) :
    (first ++ second).count (.assign id) ≤ 1 := by
  rw [List.count_append]
  by_cases skips : first.Skips id
  · rw [(count_eq_zero_iff first).mpr skips, Nat.zero_add]
    exact other
  · rw [(count_eq_zero_iff second).mpr (notBoth skips)]
    exact one

end LocalTrace

namespace FlowPoint

/-- A local may have been assigned after an execution from a point. -/
def MayAssign
    (id : LocalId)
    (point : FlowPoint)
    (trace : LocalTrace) :
    Prop :=
  point.flow.mayBeAssigned id = true ∨ ¬trace.Skips id

/-- Recording an assignment assigns its target. -/
theorem mayBeAssigned_assign
    (options : CompilerOptions)
    (id assigned : LocalId)
    (status : NullStatus)
    (point : FlowPoint) :
    (point.assign options assigned status).flow.mayBeAssigned id =
      (point.flow.mayBeAssigned id || decide (assigned = id)) := by
  unfold assign
  split <;> simp [mapFlow]

/-- Recording an assignment keeps the targets of jumps. -/
theorem jumps_assign
    (options : CompilerOptions)
    (assigned : LocalId)
    (status : NullStatus)
    (point : FlowPoint) :
    (point.assign options assigned status).jumps = point.jumps := by
  unfold assign
  split <;> rfl

/-- Between two points code without jumps guards a final local. -/
structure GuardsSteps
    (id : LocalId)
    (around : ScopeId → Bool)
    (before after : FlowPoint)
    (trace : LocalTrace) :
    Prop where
  absent : before.flow.mayBeAssigned id = true → trace.Skips id
  once : trace.count (.assign id) ≤ 1
  completes : before.MayAssign id trace → after.flow.mayBeAssigned id = true
  tracks : before.jumps.Tracks id around after.jumps (fun _ => False) (¬trace.Skips id)

/-- Between two points the code that flow analysis has followed guards a final local:
executions assign it at most once, and only if it may not have been assigned. -/
structure Guards
    (id : LocalId)
    (around : ScopeId → Bool)
    (before after : FlowPoint)
    (behaviour : Behaviour) :
    Prop where
  absent : before.flow.mayBeAssigned id = true → ∀ trace outcome, behaviour trace outcome →
    trace.Skips id
  once : ∀ trace outcome, behaviour trace outcome → trace.count (.assign id) ≤ 1
  completes : ∀ trace, behaviour trace .completes → before.MayAssign id trace →
    after.flow.mayBeAssigned id = true
  tracks : before.jumps.Tracks id around after.jumps
    (fun outcome => ∃ trace, behaviour trace outcome ∧ before.MayAssign id trace)
    (∃ trace outcome, behaviour trace outcome ∧ ¬trace.Skips id)

namespace GuardsSteps

variable
  {id : LocalId}
  {around : ScopeId → Bool}
  {before middle after : FlowPoint}
  {first second : LocalTrace}

/-- Code that does not assign the local guards it. -/
theorem skipping
    (same : after.flow.mayBeAssigned id = before.flow.mayBeAssigned id)
    (tracks : before.jumps.Tracks id around after.jumps (fun _ => False) False)
    (skips : first.Skips id) :
    GuardsSteps id around before after first where
  absent := fun _ => skips
  once := by simp [(LocalTrace.count_eq_zero_iff first).mpr skips]
  completes := fun may => same.trans (may.resolve_right (not_not_intro skips))
  tracks := tracks.mono (by simp) (by simp [skips])

theorem refl
    (point : FlowPoint) :
    GuardsSteps id around point point [] :=
  skipping rfl (.refl _) (LocalTrace.skips_nil id)

theorem trans
    (earlier : GuardsSteps id around before middle first)
    (later : GuardsSteps id around middle after second) :
    GuardsSteps id around before after (first ++ second) where
  absent := fun may => LocalTrace.skips_append.mpr
    ⟨earlier.absent may, later.absent (earlier.completes (.inl may))⟩
  once := LocalTrace.count_append_le earlier.once later.once fun assigns =>
    later.absent (earlier.completes (.inr assigns))
  completes := by
    rintro (may | assigns)
    · exact later.completes (.inl (earlier.completes (.inl may)))
    · rw [LocalTrace.not_skips_append] at assigns
      exact later.completes (assigns.imp_left fun isFirst => earlier.completes (.inr isFirst))
  tracks := (earlier.tracks.trans later.tracks).mono (by simp) LocalTrace.not_skips_append.mp

/-- Checking a read assigns nothing. -/
theorem checkReadOf
    (position : Span)
    (binding : Option LocalId)
    (point : FlowPoint)
    (span : Span) :
    GuardsSteps id around point (point.checkReadOf position binding)
      (LocalTrace.ofBinding (.read span) binding) := by
  have same : (point.checkReadOf position binding).flow = point.flow ∧
      (point.checkReadOf position binding).jumps = point.jumps := by
    unfold FlowPoint.checkReadOf checkRead report
    split
    · split <;> exact ⟨rfl, rfl⟩
    · exact ⟨rfl, rfl⟩
  refine skipping (by rw [same.1]) ?_ (LocalTrace.skips_read binding)
  rw [same.2]
  exact .refl _

/-- Checking the use of a value as an object assigns nothing. -/
theorem checkDereference
    (options : CompilerOptions)
    (value : Expr)
    (point : FlowPoint) :
    GuardsSteps id around point (point.checkDereference options value) [] := by
  have checked : ∀ span used, GuardsSteps id around point
      ((point.checkNull span used).mapFlow (.setNull used .nonNull)) [] := by
    intro span used
    refine skipping ?_ ?_ (LocalTrace.skips_nil id)
    · unfold checkNull
      split <;> rfl
    · unfold checkNull
      split
      · exact .refl _
      · exact .refl _
      · exact .refl _
      · exact .deferNull _ _ _ _ _
  unfold FlowPoint.checkDereference
  split
  · exact .refl point
  · split
    · exact skipping rfl (.refl _) (LocalTrace.skips_nil id)
    · split
      · exact checked _ _
      · exact .refl point
    · exact .refl point

/-- Recording an assignment to another local. -/
theorem assignOther
    (options : CompilerOptions)
    {assigned : LocalId}
    (other : assigned ≠ id)
    (status : NullStatus)
    (point : FlowPoint) :
    GuardsSteps id around point (point.assign options assigned status)
      (LocalTrace.ofBinding .assign (some assigned)) := by
  refine skipping ?_ ?_ (by simp [other])
  · simp [mayBeAssigned_assign, other]
  · rw [jumps_assign]
    exact .refl _

/-- Recording an assignment after it has been checked. -/
theorem assign
    {span : Span}
    {options : CompilerOptions}
    {assigned : LocalId}
    {status : NullStatus}
    (watches : before.state.Watches id around)
    (reached : before.flow.reachable = true)
    (sound : before.state.Spares Problem.spoilsFinals (before.checkFinal span assigned).state) :
    GuardsSteps id around before ((before.checkFinal span assigned).assign options assigned status)
      (LocalTrace.ofBinding .assign (some assigned)) := by
  by_cases same : assigned = id
  · subst same
    have deferred : before.flow.mayBeAssigned assigned = false ∧
        before.jumps.Tracks assigned around (before.checkFinal span assigned).jumps
          (fun _ => False) True := by
      unfold checkFinal at sound ⊢
      simp only [watches.isFinal, reached, Bool.not_true, Bool.or_self, Bool.false_eq_true,
        if_false] at sound ⊢
      split at sound
      · exact absurd sound (MethodState.not_spares_report (.inr rfl) span before.state)
      · next notAssigned =>
          rw [if_neg notAssigned, ← watches.homes]
          exact ⟨Bool.not_eq_true _ ▸ notAssigned, .deferFinal _ _ _ _ _⟩
    refine ⟨fun may => ?_, by simp [LocalTrace.ofBinding], fun _ => ?_, ?_⟩
    · rw [deferred.1] at may
      cases may
    · simp [mayBeAssigned_assign]
    · rw [jumps_assign]
      exact deferred.2.mono (by simp) (fun _ => trivial)
  · have checked : (before.checkFinal span assigned).flow = before.flow ∧
        before.jumps.Tracks id around (before.checkFinal span assigned).jumps (fun _ => False)
          False := by
      unfold checkFinal
      dsimp only
      split
      · exact ⟨rfl, .refl _⟩
      · split
        · exact ⟨rfl, .refl _⟩
        · exact ⟨rfl, .deferFinal_other _ _ _ _ _⟩
    refine skipping ?_ ?_ (by simp [same])
    · simp [mayBeAssigned_assign, checked.1, same]
    · rw [jumps_assign]
      exact checked.2

end GuardsSteps

end FlowPoint

section Expressions

variable
  {options : CompilerOptions}
  {id : LocalId}
  {around : ScopeId → Bool}

mutual

/-- Flow through an expression guards a final local. -/
theorem guards_analyzeExpr :
    ∀ (expr : Expr) {point : FlowPoint},
      point.state.Watches id around →
      point.flow.reachable = true →
      point.state.Spares Problem.spoilsFinals (analyzeExpr options expr point).state →
      point.GuardsSteps id around (analyzeExpr options expr point) expr.steps
  | .intLit .., point, _, _, _ | .boolLit .., point, _, _, _ | .stringLit .., point, _, _, _
  | .null _, point, _, _, _ => by
      simp only [analyzeExpr, Expr.steps]
      exact .refl point
  | .name span ref, point, _, _, _ => by
      simp only [analyzeExpr, Expr.steps]
      exact .checkReadOf span ref.binding point span
  | .newArray _ _ elements, point, watches, reached, sound => by
      simp only [analyzeExpr] at sound
      simp only [analyzeExpr, Expr.steps]
      exact guards_analyzeExprs elements watches reached sound
  | .binary _ _ left right, point, watches, reached, sound => by
      have steady := steady_analyzeExpr options left point
      simp only [analyzeExpr] at sound
      obtain ⟨soundLeft, soundRight⟩ := sound.split steady.cuts
        (steady_analyzeExpr options right (analyzeExpr options left point)).cuts
      simp only [analyzeExpr, Expr.steps]
      exact (guards_analyzeExpr left watches reached soundLeft).trans
        (guards_analyzeExpr right (watches.marks (marks_analyzeExpr options left point))
          (steady.reachable.trans reached) soundRight)
  | .assign span target op value, point, watches, reached, sound => by
      have readSteady : point.Steady
          (if op.isSome then point.checkReadOf target.span target.node.binding else point) := by
        split
        · exact .checkReadOf target.span target.node.binding point
        · exact .refl point
      have readMarks : point.state.Marks
          (if op.isSome then point.checkReadOf target.span target.node.binding
            else point).state := by
        split
        · exact FlowPoint.marks_checkReadOf target.span target.node.binding point
        · exact .refl _
      have readGuards : point.GuardsSteps id around
          (if op.isSome then point.checkReadOf target.span target.node.binding else point)
          (if op.isSome then LocalTrace.ofBinding (.read target.span) target.node.binding
            else []) := by
        split
        · exact .checkReadOf target.span target.node.binding point target.span
        · exact .refl point
      have steady := steady_analyzeExpr options value
        (if op.isSome then point.checkReadOf target.span target.node.binding else point)
      have evaluates := fun sound => readGuards.trans (guards_analyzeExpr value
        (watches.marks readMarks) (readSteady.reachable.trans reached) sound)
      have evaluatedWatches := watches.marks (readMarks.trans (marks_analyzeExpr options value
        (if op.isSome then point.checkReadOf target.span target.node.binding else point)))
      have evaluatedReached := (readSteady.trans steady).reachable.trans reached
      simp only [analyzeExpr, Expr.steps] at sound ⊢
      rw [← List.append_assoc]
      generalize target.node.binding = binding at *
      cases binding with
      | none =>
          obtain ⟨-, soundValue⟩ := sound.split readSteady.cuts steady.cuts
          simpa [LocalTrace.ofBinding] using evaluates soundValue
      | some assigned =>
          have checked := FlowPoint.Steady.checkFinal target.span assigned
            (analyzeExpr options value
              (if op.isSome then point.checkReadOf target.span (some assigned) else point))
          obtain ⟨-, soundValue⟩ := sound.split readSteady.cuts
            (steady.cuts.trans (checked.cuts.trans (FlowPoint.Steady.assign _ _ _ _).cuts))
          obtain ⟨soundValue, soundTarget⟩ := soundValue.split steady.cuts
            (checked.cuts.trans (FlowPoint.Steady.assign _ _ _ _).cuts)
          have soundCheck := soundTarget.split checked.cuts (FlowPoint.Steady.assign _ _ _ _).cuts
          exact (evaluates soundValue).trans (.assign evaluatedWatches evaluatedReached
            soundCheck.1)
  | .call _ _ args, point, watches, reached, sound => by
      simp only [analyzeExpr] at sound
      simp only [analyzeExpr, Expr.steps]
      exact guards_analyzeExprs args watches reached sound
  | .methodCall _ receiver _ args, point, watches, reached, sound => by
      have steady := steady_analyzeExpr options receiver point
      have checked := FlowPoint.Steady.checkDereference options receiver
        (analyzeExpr options receiver point)
      have marks := (marks_analyzeExpr options receiver point).trans
        (FlowPoint.marks_checkDereference options receiver (analyzeExpr options receiver point))
      simp only [analyzeExpr] at sound
      obtain ⟨soundReceiver, soundArgs⟩ := sound.split steady.cuts
        (checked.cuts.trans (steady_analyzeExprs options args _).cuts)
      obtain ⟨-, soundArgs⟩ :=
        soundArgs.split checked.cuts (steady_analyzeExprs options args _).cuts
      have received := (guards_analyzeExpr receiver watches reached soundReceiver).trans
        (.checkDereference options receiver _)
      rw [List.append_nil] at received
      simp only [analyzeExpr, Expr.steps]
      exact received.trans (guards_analyzeExprs args (watches.marks marks)
        ((checked.reachable.trans steady.reachable).trans reached) soundArgs)

theorem guards_analyzeExprs :
    ∀ (exprs : List Expr) {point : FlowPoint},
      point.state.Watches id around →
      point.flow.reachable = true →
      point.state.Spares Problem.spoilsFinals (analyzeExprs options exprs point).state →
      point.GuardsSteps id around (analyzeExprs options exprs point) (Expr.allSteps exprs)
  | [], point, _, _, _ => by
      simp only [analyzeExprs, Expr.allSteps]
      exact .refl point
  | expr :: rest, point, watches, reached, sound => by
      have steady := steady_analyzeExpr options expr point
      simp only [analyzeExprs] at sound
      obtain ⟨soundFirst, soundRest⟩ := sound.split steady.cuts
        (steady_analyzeExprs options rest (analyzeExpr options expr point)).cuts
      simp only [analyzeExprs, Expr.allSteps]
      exact (guards_analyzeExpr expr watches reached soundFirst).trans
        (guards_analyzeExprs rest (watches.marks (marks_analyzeExpr options expr point))
          (steady.reachable.trans reached) soundRest)

end

/-- Flow through a declaration of another local guards a final local. -/
theorem guards_analyzeDecl
    {decl : LocalDecl}
    (other : decl.binding ≠ some id)
    {point : FlowPoint}
    (watches : point.state.Watches id around)
    (reached : point.flow.reachable = true)
    (sound : point.state.Spares Problem.spoilsFinals (analyzeDecl options decl point).state) :
    point.GuardsSteps id around (analyzeDecl options decl point) decl.steps := by
  unfold analyzeDecl at sound ⊢
  unfold LocalDecl.steps
  cases isInitial : decl.initial with
  | none =>
      exact .refl point
  | some value =>
      rw [isInitial] at sound
      have evaluated := @guards_analyzeExpr options id around value point watches reached
      cases isBinding : decl.binding with
      | none =>
          simp only [isBinding] at sound
          simpa [isBinding, LocalTrace.ofBinding] using evaluated sound
      | some declared =>
          simp only [isBinding] at sound
          have isOther : declared ≠ id := fun same => other (by rw [isBinding, same])
          obtain ⟨soundValue, -⟩ := sound.split (steady_analyzeExpr options value point).cuts
            (FlowPoint.Steady.assign _ _ _ _).cuts
          exact (evaluated soundValue).trans (.assignOther options isOther _ _)

end Expressions

namespace FlowPoint

namespace Guards

variable
  {id : LocalId}
  {around : ScopeId → Bool}
  {before middle after : FlowPoint}
  {trace : LocalTrace}
  {first second body : Behaviour}

/-- Code without jumps guards the local. -/
theorem ofSteps
    (steps : before.GuardsSteps id around after trace) :
    before.Guards id around after (.only trace .completes) where
  absent := by
    rintro may _ _ ⟨rfl, rfl⟩
    exact steps.absent may
  once := by
    rintro _ _ ⟨rfl, rfl⟩
    exact steps.once
  completes := by
    rintro _ ⟨rfl, -⟩ may
    exact steps.completes may
  tracks := steps.tracks.mono (by simp [Behaviour.only]) (by simp [Behaviour.only])

/-- Code that returns guards the local if what is executed before does. -/
theorem returned
    (steps : before.GuardsSteps id around after trace) :
    before.Guards id around { after with flow := .deadEnd } (.only trace .returns) where
  absent := by
    rintro may _ _ ⟨rfl, rfl⟩
    exact steps.absent may
  once := by
    rintro _ _ ⟨rfl, rfl⟩
    exact steps.once
  completes := by
    rintro _ ⟨-, ⟨⟩⟩
  tracks := steps.tracks.mono (by simp [Behaviour.only]) (by simp [Behaviour.only])

/-- A jump guards the local if it takes along what may be assigned. -/
theorem jump
    {outcome : TraceEnd}
    {span : Span}
    {target : Except JumpError JumpStack}
    (leaves : outcome ≠ .completes)
    (valid : before.state.JumpsValid (before.jump span target).state)
    (tracks : ∀ jumps, target = .ok jumps → before.jumps.Tracks id around jumps
      (fun ending => before.flow.mayBeAssigned id = true ∧ ending = outcome) False) :
    before.Guards id around (before.jump span target) (.only [] outcome) := by
  cases target with
  | error cause =>
      exact absurd valid (MethodState.not_jumpsValid_report cause span before.state)
  | ok jumps =>
      refine ⟨?_, ?_, ?_, (tracks jumps rfl).mono ?_ ?_⟩
      · rintro - _ _ ⟨rfl, -⟩
        exact LocalTrace.skips_nil id
      · rintro _ _ ⟨rfl, -⟩
        exact Nat.zero_le 1
      · rintro _ ⟨-, rfl⟩
        exact absurd rfl leaves
      · simp +contextual [Behaviour.only, MayAssign]
      · simp [Behaviour.only]

/-- One statement after another, which is passed over if it is not reached. -/
theorem followedBy
    (earlier : before.Guards id around middle first)
    (follows : before.Follows middle first)
    (goesOn : middle.flow.reachable = true → middle.Guards id around after second)
    (stops : middle.flow.reachable = false → after.jumps = middle.jumps) :
    before.Guards id around after (first.followedBy second) := by
  cases reached : middle.flow.reachable with
  | true =>
      have later := goesOn reached
      have mayLater : ∀ {start rest : LocalTrace}, first start .completes →
          before.MayAssign id (start ++ rest) → middle.MayAssign id rest := by
        rintro start rest isFirst (may | assigns)
        · exact .inl (earlier.completes start isFirst (.inl may))
        · exact (LocalTrace.not_skips_append.mp assigns).imp_left fun assigned =>
            earlier.completes start isFirst (.inr assigned)
      refine ⟨?_, ?_, ?_, (earlier.tracks.trans later.tracks).mono ?_ ?_⟩
      · rintro may _ outcome (⟨start, rest, rfl, isFirst, isSecond⟩ | ⟨isFirst, -⟩)
        · exact LocalTrace.skips_append.mpr ⟨earlier.absent may start _ isFirst,
            later.absent (earlier.completes start isFirst (.inl may)) rest _ isSecond⟩
        · exact earlier.absent may _ _ isFirst
      · rintro _ outcome (⟨start, rest, rfl, isFirst, isSecond⟩ | ⟨isFirst, -⟩)
        · exact LocalTrace.count_append_le (earlier.once start _ isFirst)
            (later.once rest _ isSecond) fun assigned =>
              later.absent (earlier.completes start isFirst (.inr assigned)) rest _ isSecond
        · exact earlier.once _ _ isFirst
      · rintro _ (⟨start, rest, rfl, isFirst, isSecond⟩ | ⟨-, notComplete⟩) may
        · exact later.completes rest isSecond (mayLater isFirst may)
        · exact absurd rfl notComplete
      · have ends : ∀ outcome, (∃ trace, first.followedBy second trace outcome ∧
            before.MayAssign id trace) → (∃ trace, first trace outcome ∧
              before.MayAssign id trace) ∨ ∃ trace, second trace outcome ∧
                middle.MayAssign id trace := by
          rintro outcome ⟨_, ⟨start, rest, rfl, isFirst, isSecond⟩ | ⟨isFirst, -⟩, may⟩
          · exact .inr ⟨rest, isSecond, mayLater isFirst may⟩
          · exact .inl ⟨_, isFirst, may⟩
        exact fun label => ⟨ends _, ends _⟩
      · rintro ⟨_, outcome, ⟨start, rest, rfl, isFirst, isSecond⟩ | ⟨isFirst, -⟩, assigns⟩
        · rcases LocalTrace.not_skips_append.mp assigns with assigned | assigned
          · exact .inl ⟨start, _, isFirst, assigned⟩
          · exact .inr ⟨rest, _, isSecond, assigned⟩
        · exact .inl ⟨_, outcome, isFirst, assigns⟩
  | false =>
      have never : ∀ trace, ¬first trace .completes := by
        intro trace isFirst
        rw [follows.completes.mpr ⟨trace, isFirst⟩] at reached
        cases reached
      have only : ∀ {trace outcome}, first.followedBy second trace outcome →
          first trace outcome ∧ outcome ≠ .completes := by
        rintro _ outcome (⟨start, rest, rfl, isFirst, -⟩ | isFirst)
        · exact absurd isFirst (never start)
        · exact isFirst
      refine ⟨fun may trace outcome taken => earlier.absent may trace outcome (only taken).1,
        fun trace outcome taken => earlier.once trace outcome (only taken).1,
        fun trace taken => absurd rfl (only taken).2, ?_⟩
      rw [stops reached]
      refine earlier.tracks.mono (fun label => ⟨?_, ?_⟩) ?_
      · rintro ⟨trace, taken, may⟩
        exact ⟨trace, (only taken).1, may⟩
      · rintro ⟨trace, taken, may⟩
        exact ⟨trace, (only taken).1, may⟩
      · rintro ⟨trace, outcome, taken, assigns⟩
        exact ⟨trace, outcome, (only taken).1, assigns⟩

/-- Code after some without jumps. -/
theorem afterSteps
    (steps : before.GuardsSteps id around middle trace)
    (steady : before.Steady middle)
    (reached : before.flow.reachable = true)
    (later : middle.Guards id around after second) :
    before.Guards id around after (.followedBy (.only trace .completes) second) :=
  followedBy (.ofSteps steps) (.ofSteady steady reached trace) (fun _ => later) fun stops => by
    rw [steady.reachable, reached] at stops
    cases stops

/-- One of two statements. The second is analyzed in the state before the first. -/
theorem either
    {joined : FlowState}
    (one : before.Guards id around middle first)
    (other : FlowPoint.Guards id around { middle with flow := before.flow } after second)
    (isJoined : joined.mayBeAssigned id =
      (middle.flow.mayBeAssigned id || after.flow.mayBeAssigned id)) :
    before.Guards id around { after with flow := joined } (first.either second) where
  absent := by
    rintro may trace outcome (isFirst | isSecond)
    · exact one.absent may trace outcome isFirst
    · exact other.absent may trace outcome isSecond
  once := by
    rintro trace outcome (isFirst | isSecond)
    · exact one.once trace outcome isFirst
    · exact other.once trace outcome isSecond
  completes := by
    rintro trace (isFirst | isSecond) may
    · simp [isJoined, one.completes trace isFirst may]
    · simp [isJoined, other.completes trace isSecond may]
  tracks := by
    have ends : ∀ outcome, (∃ trace, first.either second trace outcome ∧
        before.MayAssign id trace) → (∃ trace, first trace outcome ∧ before.MayAssign id trace) ∨
          ∃ trace, second trace outcome ∧ before.MayAssign id trace := by
      rintro outcome ⟨trace, isFirst | isSecond, may⟩
      · exact .inl ⟨trace, isFirst, may⟩
      · exact .inr ⟨trace, isSecond, may⟩
    refine (one.tracks.trans other.tracks).mono (fun label => ⟨ends _, ends _⟩) ?_
    rintro ⟨trace, outcome, isFirst | isSecond, assigns⟩
    · exact .inl ⟨trace, outcome, isFirst, assigns⟩
    · exact .inr ⟨trace, outcome, isSecond, assigns⟩

/-- A labeled statement guards the local if its body does. -/
theorem leaving
    {point : FlowPoint}
    {label : String}
    {labelsLoop : Bool}
    {record : LabelRecord}
    {rest : JumpStack}
    (guards : FlowPoint.Guards id around
      { point with jumps := point.jumps.pushLabel label labelsLoop } after body)
    (isJumps : after.jumps = .label record :: rest) :
    point.Guards id around ({ after with jumps := rest }.mapFlow fun flow =>
      flow.merge record.onBreak) (body.leaving label) := by
  have tracks := guards.tracks
  rw [isJumps] at tracks
  obtain ⟨-, -, onBreak, others⟩ := tracks
  refine ⟨?_, ?_, ?_, others.mono ?_ ?_⟩
  · rintro may trace _ ⟨ending, isBody, rfl⟩
    exact guards.absent may trace ending isBody
  · rintro trace _ ⟨ending, isBody, rfl⟩
    exact guards.once trace ending isBody
  · rintro trace ⟨ending, isBody, isLeft⟩ may
    change (after.flow.merge record.onBreak).mayBeAssigned id = true
    rw [FlowState.mayBeAssigned_merge, Bool.or_eq_true]
    rcases TraceEnd.completes_eq_leaving.mp isLeft with rfl | rfl
    · exact .inl (guards.completes trace isBody may)
    · exact .inr (onBreak (.inr ⟨trace, isBody, may⟩))
  · intro other
    constructor
    · rintro ⟨trace, ⟨ending, isBody, isLeft⟩, may⟩
      obtain ⟨rfl, isOther⟩ := TraceEnd.breaks_eq_leaving.mp isLeft
      exact ⟨⟨trace, isBody, may⟩, by simpa [LabelRecord.entered] using isOther⟩
    · rintro ⟨trace, ⟨ending, isBody, isLeft⟩, may⟩
      unfold TraceEnd.leaving at isLeft
      split at isLeft
      · cases isLeft
      · subst isLeft
        exact ⟨⟨trace, isBody, may⟩, by simp⟩
  · rintro ⟨trace, -, ⟨ending, isBody, -⟩, assigns⟩
    exact ⟨trace, ending, isBody, assigns⟩

end Guards

end FlowPoint

end LoopLowering
