import LoopLowering.Proofs.Code.LoopSteps
import LoopLowering.Proofs.Code.Steps
import LoopLowering.Proofs.Flow.Behaviour

namespace LoopLowering

/-!
# Which ranges code opens

The range of a local is opened by a store to it, and where flow analysis finds the
local assigned. So the code of an expression opens ranges of locals that the
expression assigns, and that of a loop the ranges of the locals of the loop and of
those that are visible in it.
-/

namespace CodeStream

/-- Between two times code was appended, ranges of locals that pass a test were
opened, and ranges were closed. -/
inductive OpensOnly
    (scope : MethodScope)
    (test : LocalId → Prop)
    (before : CodeStream) :
    CodeStream → Prop where
  | refl : OpensOnly scope test before before
  | append {code after : CodeStream} :
      OpensOnly scope test before code →
      after.ranges = code.ranges →
      code.position ≤ after.position →
      OpensOnly scope test before after
  | openLocal {code : CodeStream} {id : LocalId} :
      OpensOnly scope test before code → test id → OpensOnly scope test before (code.openLocal scope id)
  | closeWhere {code : CodeStream} :
      OpensOnly scope test before code →
      ∀ closes, OpensOnly scope test before (code.closeWhere closes)

namespace OpensOnly

variable
  {scope : MethodScope}
  {test : LocalId → Prop}
  {before code after : CodeStream}

theorem trans
    (opens : OpensOnly scope test before code)
    (later : OpensOnly scope test code after) :
    OpensOnly scope test before after := by
  induction later with
  | refl =>
      exact opens
  | append _ same further inductionHypothesis =>
      exact inductionHypothesis.append same further
  | openLocal _ passes inductionHypothesis =>
      exact inductionHypothesis.openLocal passes
  | closeWhere _ closes inductionHypothesis =>
      exact inductionHypothesis.closeWhere closes

/-- An instruction may follow. -/
theorem emit
    (opens : OpensOnly scope test before code)
    (instruction : Instruction) :
    OpensOnly scope test before (code.emit instruction) :=
  opens.append rfl (by simp)

/-- A new branch target may follow. -/
theorem addLabel
    (opens : OpensOnly scope test before code) :
    OpensOnly scope test before code.addLabel :=
  opens.append rfl (Nat.le_refl _)

/-- A branch target may be placed. -/
theorem place
    (opens : OpensOnly scope test before code)
    (label : Label) :
    OpensOnly scope test before (code.place label) :=
  opens.append rfl (Nat.le_refl _)

/-- Code may be attributed to a source range. -/
theorem markSource
    (opens : OpensOnly scope test before code)
    (start : Nat)
    (span : Span) :
    OpensOnly scope test before (code.markSource start span) := by
  simp only [CodeStream.markSource]
  split
  · exact opens.append rfl (Nat.le_refl _)
  · exact opens

/-- Plain instructions may follow. -/
theorem plainly
    (opens : OpensOnly scope test before code)
    (plain : Plainly code after) :
    OpensOnly scope test before after := by
  induction plain with
  | refl =>
      exact opens
  | emit _ _ inductionHypothesis =>
      exact inductionHypothesis.emit _

/-- Loading a local may follow. -/
theorem load
    (opens : OpensOnly scope test before code)
    {id : LocalId}
    (loaded : code.load scope id = .ok after) :
    OpensOnly scope test before after := by
  obtain ⟨slot, -, rfl⟩ := load_eq_ok.mp loaded
  exact opens.emit _

/-- Adding to a local may follow. -/
theorem increment
    (opens : OpensOnly scope test before code)
    {id : LocalId}
    {delta : Int16}
    (added : code.increment scope id delta = .ok after) :
    OpensOnly scope test before after := by
  obtain ⟨slot, -, rfl⟩ := increment_eq_ok.mp added
  exact opens.emit _

/-- Storing to a local that passes may follow. -/
theorem store
    (opens : OpensOnly scope test before code)
    {id : LocalId}
    {keep : Bool}
    (passes : test id)
    (stored : code.store scope id keep = .ok after) :
    OpensOnly scope test before after := by
  obtain ⟨slot, -, rfl⟩ := store_eq_ok.mp stored
  exact ((opens.plainly (.copied .refl _ _)).emit _).openLocal passes

/-- Branching on two values may follow. -/
theorem branchOnValues
    (opens : OpensOnly scope test before code)
    (op : BinOp)
    (condition : Condition)
    (operand : Primitive)
    (label : Label) :
    OpensOnly scope test before (code.branchOnValues op condition operand label) := by
  simp only [CodeStream.branchOnValues]
  split
  · exact opens.emit _
  · exact (opens.emit _).emit _

/-- Opening the ranges of assigned locals may follow where they pass. -/
theorem openAssigned
    (opens : OpensOnly scope test before code)
    {block : ScopeId}
    (passes : ∀ id < scope.locals.size, followsFlow scope block id = true → test id)
    (flow : FlowState) :
    OpensOnly scope test before (code.openAssigned scope block flow) := by
  have opensAll : ∀ (ids : List LocalId) {code : CodeStream},
      (∀ id ∈ ids, test id) →
      OpensOnly scope test before code →
      OpensOnly scope test before (ids.foldl (fun code id => code.openLocal scope id) code) := by
    intro ids
    induction ids with
    | nil =>
        intro code _ opens
        exact opens
    | cons id rest inductionHypothesis =>
        intro code pass opens
        exact inductionHypothesis (fun other member => pass other (by simp [member]))
          (opens.openLocal (pass id (by simp)))
  simp only [CodeStream.openAssigned]
  split
  · refine opensAll _ (fun id member => ?_) opens
    simp only [List.mem_filter, List.mem_range, Bool.and_eq_true] at member
    exact passes id member.1 member.2.1
  · exact opens

end OpensOnly

end CodeStream

/-- Wherever a step of code generation succeeds, it opens no ranges but those of
locals that pass a test. -/
def CodeStep.OpensOnly
    (step : CodeStep)
    (scope : MethodScope)
    (test : LocalId → Prop) :
    Prop :=
  ∀ {code after : CodeStream}, step code = .ok after → CodeStream.OpensOnly scope test code after

namespace CodeContext

open CodeStream

variable
  {context : CodeContext}
  {test : LocalId → Prop}
  {code after : CodeStream}

/-- A name is bound to the local that its code uses. -/
theorem bindingOf_eq_ok
    {ref : NameRef}
    {id : LocalId} :
    bindingOf ref = .ok id ↔ ref.binding = some id := by
  unfold bindingOf
  split
  · next found isFound =>
      simp [isFound]
  · next isNone =>
      simp [isNone]

/-- Comparing two operands opens what their code opens. -/
theorem opensOnly_branchOnComparison
    {op : BinOp}
    {left right : Expr}
    {pushLeft pushRight : CodeStep}
    {branchIf : Bool}
    {label : Label}
    (leftOpens : pushLeft.OpensOnly context.scope test)
    (rightOpens : pushRight.OpensOnly context.scope test)
    (branched : context.branchOnComparison op left right pushLeft pushRight branchIf label code =
      .ok after) :
    OpensOnly context.scope test code after := by
  simp only [branchOnComparison, bind_eq_ok] at branched
  obtain ⟨condition, -, pushed, isPushed, branched⟩ := branched
  have first := leftOpens isPushed
  split at branched
  · simp only [bind_eq_ok, pure_eq_ok] at branched
    obtain ⟨both, isBoth, rfl⟩ := branched
    exact (((first.plainly (.convertOperand .refl _ _)).trans (rightOpens isBoth)).plainly
      (.convertOperand .refl _ _)).branchOnValues _ _ _ _
  · simp only [bind_eq_ok, pure_eq_ok] at branched
    obtain ⟨both, isBoth, rfl⟩ := branched
    exact (first.trans (rightOpens isBoth)).emit _

/-- Making a value of a test opens what the test opens. -/
theorem opensOnly_testValue
    {branchUnless : Label → CodeStep}
    (opens : ∀ label, (branchUnless label).OpensOnly context.scope test)
    (tested : code.testValue branchUnless = .ok after) :
    OpensOnly context.scope test code after := by
  obtain ⟨middle, isTested, rfl⟩ := testValue_eq_ok.mp tested
  have labeled := OpensOnly.refl.addLabel.addLabel.trans (opens _ isTested)
  exact ((((labeled.emit _).emit _).place _).emit _).place _

/-- Combining two operands opens what their code opens. -/
theorem opensOnly_pushArithmetic
    {op : BinOp}
    {left right : Expr}
    {pushLeft pushRight : CodeStep}
    (leftOpens : pushLeft.OpensOnly context.scope test)
    (rightOpens : pushRight.OpensOnly context.scope test)
    (combined : context.pushArithmetic op left right pushLeft pushRight code = .ok after) :
    OpensOnly context.scope test code after := by
  simp only [pushArithmetic] at combined
  split at combined
  · simp only [throw_eq_ok] at combined
  · simp only [bind_eq_ok, pure_eq_ok] at combined
    obtain ⟨pushed, isPushed, both, isBoth, arith, -, rfl⟩ := combined
    exact ((((leftOpens isPushed).plainly (.convertOperand .refl _ _)).trans
      (rightOpens isBoth)).plainly (.convertOperand .refl _ _)).emit _

/-- Assigning a value opens the range of the target beside what its code opens. -/
theorem opensOnly_assignSimple
    {id : LocalId}
    {value : Expr}
    {push : (wanted : Bool) → CodeStep}
    {wanted : Bool}
    (passes : test id)
    (opens : ∀ wanted, (push wanted).OpensOnly context.scope test)
    (assigned : context.assignSimple id value push wanted code = .ok after) :
    OpensOnly context.scope test code after := by
  simp only [assignSimple] at assigned
  split at assigned
  · simp only [bind_eq_ok] at assigned
    obtain ⟨pushed, isPushed, stored⟩ := assigned
    exact ((opens _ isPushed).plainly (.convertAssigned .refl _ _ _)).store passes stored
  · exact opens _ assigned

/-- Assigning the result of an operator opens the range of the target beside what the
code of the value opens. -/
theorem opensOnly_assignOperated
    {id : LocalId}
    {op : BinOp}
    {value : Expr}
    {pushValue : CodeStep}
    {wanted : Bool}
    (passes : test id)
    (opens : pushValue.OpensOnly context.scope test)
    (assigned : context.assignOperated id op value pushValue wanted code = .ok after) :
    OpensOnly context.scope test code after := by
  simp only [assignOperated] at assigned
  split at assigned
  · simp only [throw_eq_ok] at assigned
  · simp only [throw_eq_ok] at assigned
  · simp only [bind_eq_ok] at assigned
    obtain ⟨loaded, isLoaded, both, isBoth, arith, -, stored⟩ := assigned
    have valued := ((OpensOnly.refl.load isLoaded).plainly (.convert .refl _ _)).trans (opens isBoth)
    exact (((valued.plainly (.convertOperand .refl _ _)).emit _).plainly
      (.convert .refl _ _)).store passes stored

/-- Assigning to a local opens its range beside what the code of the value opens. -/
theorem opensOnly_assign
    {target : NameRef}
    {op : Option BinOp}
    {value : Expr}
    {push : (wanted : Bool) → CodeStep}
    {wanted : Bool}
    (passes : ∀ id, target.binding = some id → test id)
    (opens : ∀ wanted, (push wanted).OpensOnly context.scope test)
    (assigned : context.assign target op value push wanted code = .ok after) :
    OpensOnly context.scope test code after := by
  simp only [assign, bind_eq_ok, bindingOf_eq_ok] at assigned
  obtain ⟨id, isBound, assigned⟩ := assigned
  split at assigned
  · exact opensOnly_assignSimple (passes id isBound) opens assigned
  · split at assigned
    · simp only [bind_eq_ok] at assigned
      obtain ⟨added, isAdded, assigned⟩ := assigned
      have first : OpensOnly context.scope test code added := OpensOnly.refl.increment isAdded
      split at assigned
      · exact first.load assigned
      · rw [pure_eq_ok] at assigned
        exact assigned ▸ first
    · exact opensOnly_assignOperated (passes id isBound) (opens true) assigned

mutual

/-- The code of an expression opens ranges of the locals that the expression
assigns. -/
theorem opensOnly_pushExpr :
    ∀ (expr : Expr) (wanted : Bool),
      (∀ id, .assign id ∈ expr.steps → test id) →
      (context.pushExpr expr wanted).OpensOnly context.scope test
  | .intLit _ value, wanted, _, code, after, pushed
  | .boolLit _ value, wanted, _, code, after, pushed
  | .stringLit _ value, wanted, _, code, after, pushed
  | .null _, wanted, _, code, after, pushed => by
      simp only [pushExpr, Except.ok.injEq] at pushed
      subst pushed
      cases wanted
      · exact .refl
      · exact OpensOnly.refl.emit _
  | .name _ ref, wanted, _, code, after, pushed => by
      cases wanted with
      | false =>
          simp only [pushExpr, Bool.false_eq_true, if_false, Except.ok.injEq] at pushed
          exact pushed ▸ .refl
      | true =>
          simp only [pushExpr, if_true, bind_eq_ok] at pushed
          obtain ⟨id, -, loaded⟩ := pushed
          exact OpensOnly.refl.load loaded
  | .newArray _ component elements, wanted, passes, code, after, pushed => by
      simp only [Expr.steps] at passes
      cases wanted with
      | false =>
          simp only [pushExpr, Bool.false_eq_true, if_false] at pushed
          exact opensOnly_runExprs elements passes pushed
      | true =>
          simp only [pushExpr, if_true, bind_eq_ok, newArray_eq_ok] at pushed
          obtain ⟨type, -, created, ⟨-, rfl⟩, filled⟩ := pushed
          exact ((OpensOnly.refl.emit _).emit _).trans
            (opensOnly_fillArray type elements 0 passes filled)
  | .binary _ op left right, wanted, passes, code, after, pushed => by
      simp only [Expr.steps, List.mem_append] at passes
      have leftOpens : ∀ wanted, (context.pushExpr left wanted).OpensOnly context.scope test :=
        fun wanted => opensOnly_pushExpr left wanted (fun id member => passes id (.inl member))
      have rightOpens : ∀ wanted, (context.pushExpr right wanted).OpensOnly context.scope test :=
        fun wanted => opensOnly_pushExpr right wanted (fun id member => passes id (.inr member))
      cases wanted with
      | false =>
          simp only [pushExpr, Bool.false_eq_true, if_false, bind_eq_ok] at pushed
          obtain ⟨ran, isRan, pushed⟩ := pushed
          exact (leftOpens false isRan).trans (rightOpens false pushed)
      | true =>
          simp only [pushExpr, if_true] at pushed
          split at pushed
          · exact opensOnly_testValue (fun label _ _ branched =>
              opensOnly_branchOnComparison (leftOpens true) (rightOpens true) branched) pushed
          · exact opensOnly_pushArithmetic (leftOpens true) (rightOpens true) pushed
  | .assign _ target op value, wanted, passes, code, after, pushed => by
      simp only [Expr.steps, List.mem_append] at passes
      simp only [pushExpr] at pushed
      refine opensOnly_assign (fun id isBound => passes id (.inr (.inr ?_)))
        (fun wanted => opensOnly_pushExpr value wanted
          fun id member => passes id (.inr (.inl member))) pushed
      simp [isBound, LocalTrace.ofBinding]
  | .call _ function args, wanted, passes, code, after, pushed => by
      simp only [Expr.steps] at passes
      simp only [pushExpr] at pushed
      split at pushed
      · cases pushed
      · simp only [bind_eq_ok, pure_eq_ok] at pushed
        obtain ⟨arguments, arePushed, rfl⟩ := pushed
        exact (opensOnly_pushArguments args _ passes arePushed).plainly
          (.callFunction .refl _ _ _ _)
  | .methodCall _ receiver method args, wanted, passes, code, after, pushed => by
      simp only [Expr.steps, List.mem_append] at passes
      simp only [pushExpr] at pushed
      split at pushed
      · cases pushed
      · simp only [bind_eq_ok, pure_eq_ok] at pushed
        obtain ⟨object, isPushed, arguments, arePushed, rfl⟩ := pushed
        exact ((opensOnly_pushExpr receiver true (fun id member => passes id (.inl member))
          isPushed).trans (opensOnly_pushArguments args _
            (fun id member => passes id (.inr member)) arePushed)).plainly
              (.callMethod .refl _ _ _ _)

theorem opensOnly_runExprs :
    ∀ (exprs : List Expr),
      (∀ id, .assign id ∈ Expr.allSteps exprs → test id) →
      CodeStep.OpensOnly (context.runExprs exprs) context.scope test
  | [], _, code, after, ran => by
      simp only [runExprs, Except.ok.injEq] at ran
      exact ran ▸ .refl
  | expr :: rest, passes, code, after, ran => by
      simp only [Expr.allSteps, List.mem_append] at passes
      simp only [runExprs, bind_eq_ok] at ran
      obtain ⟨middle, first, remaining⟩ := ran
      exact (opensOnly_pushExpr expr false (fun id member => passes id (.inl member)) first).trans
        (opensOnly_runExprs rest (fun id member => passes id (.inr member)) remaining)

theorem opensOnly_fillArray
    (component : Ty) :
    ∀ (exprs : List Expr) (index : Nat),
      (∀ id, .assign id ∈ Expr.allSteps exprs → test id) →
      CodeStep.OpensOnly (context.fillArray component exprs index) context.scope test
  | [], index, _, code, after, filled => by
      simp only [fillArray, Except.ok.injEq] at filled
      exact filled ▸ .refl
  | expr :: rest, index, passes, code, after, filled => by
      simp only [Expr.allSteps, List.mem_append] at passes
      simp only [fillArray, bind_eq_ok] at filled
      obtain ⟨pushed, isPushed, filled⟩ := filled
      exact (((((OpensOnly.refl.emit _).emit _).trans
        (opensOnly_pushExpr expr true (fun id member => passes id (.inl member)) isPushed)).plainly
          (.convertAssigned .refl _ _ _)).emit _).trans
            (opensOnly_fillArray component rest (index + 1)
              (fun id member => passes id (.inr member)) filled)

theorem opensOnly_pushArguments :
    ∀ (exprs : List Expr) (params : List Ty),
      (∀ id, .assign id ∈ Expr.allSteps exprs → test id) →
      CodeStep.OpensOnly (context.pushArguments exprs params) context.scope test
  | [], params, _, code, after, pushed => by
      simp only [pushArguments, Except.ok.injEq] at pushed
      exact pushed ▸ .refl
  | expr :: rest, [], _, code, after, pushed => by
      simp only [pushArguments, Except.ok.injEq] at pushed
      exact pushed ▸ .refl
  | expr :: rest, param :: params, passes, code, after, pushed => by
      simp only [Expr.allSteps, List.mem_append] at passes
      simp only [pushArguments, bind_eq_ok] at pushed
      obtain ⟨first, isPushed, pushed⟩ := pushed
      exact ((opensOnly_pushExpr expr true (fun id member => passes id (.inl member))
        isPushed).plainly (.convertAssigned .refl _ _ _)).trans
          (opensOnly_pushArguments rest params (fun id member => passes id (.inr member)) pushed)

end

/-- Branching on a condition opens ranges of the locals that the condition
assigns. -/
theorem opensOnly_branchOn
    {condition : Expr}
    {branchIf : Bool}
    {label : Label}
    (passes : ∀ id, .assign id ∈ condition.steps → test id) :
    CodeStep.OpensOnly (context.branchOn condition branchIf label) context.scope test := by
  intro code after branched
  have byValue : context.branchOnValue condition branchIf label code = .ok after →
      OpensOnly context.scope test code after := by
    intro valued
    simp only [branchOnValue, bind_eq_ok, pure_eq_ok] at valued
    obtain ⟨pushed, isPushed, rfl⟩ := valued
    exact ((opensOnly_pushExpr condition true passes isPushed).plainly
      (.convertAssigned .refl _ _ _)).emit _
  cases condition with
  | boolLit _ value =>
      simp only [branchOn, Except.ok.injEq] at branched
      subst branched
      split
      · exact OpensOnly.refl.emit _
      · exact .refl
  | binary _ op left right =>
      simp only [branchOn] at branched
      split at branched
      · simp only [Expr.steps, List.mem_append] at passes
        exact opensOnly_branchOnComparison
          (opensOnly_pushExpr left true fun id member => passes id (.inl member))
          (opensOnly_pushExpr right true fun id member => passes id (.inr member)) branched
      · exact byValue branched
  | _ =>
      exact byValue branched

section Loops

variable
  {plan : LoopPlan}

/-- The test of an iterator opens no range. -/
theorem opensOnly_testIterator
    {before : CodeStream}
    (opens : OpensOnly context.scope test before code)
    {iterator : LocalId}
    {condition : Condition}
    {label : Label}
    (tested : context.testIterator iterator condition label code = .ok after) :
    OpensOnly context.scope test before after := by
  simp only [testIterator, bind_eq_ok, pure_eq_ok] at tested
  obtain ⟨loaded, isLoaded, rfl⟩ := tested
  exact ((opens.load isLoaded).emit _).emit _

/-- The start of a loop opens the ranges of the locals that the loop introduces. -/
theorem opensOnly_startLoop
    (passes : ∀ id ∈ plan.resolution.strategy.synthetics, test id) :
    CodeStep.OpensOnly (context.startLoop plan) context.scope test := by
  intro code after started
  simp only [startLoop] at started
  split at started
  · next index bound source strategy =>
      simp only [strategy, LoopStrategy.synthetics, List.forall_mem_cons, List.not_mem_nil,
        false_imp_iff, implies_true, and_true] at passes
      simp only [bind_eq_ok] at started
      obtain ⟨stored, isStored, started⟩ := started
      have first := OpensOnly.refl.store passes.2.2 isStored
      split at started
      · simp only [bind_eq_ok] at started
        obtain ⟨bounded, isBounded, indexed⟩ := started
        exact (((first.emit _).store passes.2.1 isBounded).emit _).store passes.1 indexed
      · rw [pure_eq_ok] at started
        exact started ▸ first
  all_goals
    next iterator receiver strategy =>
      simp only [strategy, LoopStrategy.synthetics, List.forall_mem_cons, List.not_mem_nil,
        false_imp_iff, implies_true, and_true] at passes
      exact (OpensOnly.refl.emit _).store passes started

/-- Entering a loop opens no range. -/
theorem opensOnly_enterLoop
    {labels : LoopLabels} :
    CodeStep.OpensOnly (context.enterLoop plan labels) context.scope test := by
  intro code after entered
  simp only [enterLoop] at entered
  split at entered
  · exact Except.ok.inj entered ▸ OpensOnly.refl.emit _
  · have placed := (@OpensOnly.refl context.scope test code).place labels.test
    cases strategy : plan.resolution.strategy with
    | array index bound source =>
        simp only [testAtTop, strategy, bind_eq_ok, pure_eq_ok] at entered
        obtain ⟨found, rfl, rfl⟩ := entered
        exact ((placed.emit _).emit _).markSource _ _
    | rawIterable iterator receiver | genericIterable iterator receiver =>
        simp only [testAtTop, strategy, bind_eq_ok, pure_eq_ok] at entered
        obtain ⟨found, isFound, rfl⟩ := entered
        exact (opensOnly_testIterator placed isFound).markSource _ _

/-- The fetch of an array element opens no range. -/
theorem opensOnly_fetchIndexed
    {index source : LocalId} :
    CodeStep.OpensOnly (context.fetchIndexed plan index source) context.scope test := by
  intro code after fetched
  obtain ⟨loaded, indexed, isLoaded, isIndexed, rfl⟩ := fetchIndexed_eq_ok.mp fetched
  have first : OpensOnly context.scope test code loaded := OpensOnly.refl.load isLoaded
  refine OpensOnly.plainly (OpensOnly.emit ?_ _) (.convertElement .refl _ _)
  split at isIndexed
  · exact first.load isIndexed
  · rw [pure_eq_ok] at isIndexed
    exact isIndexed ▸ first.emit _

/-- The fetch of an element from an iterator opens no range. -/
theorem opensOnly_fetchIterated
    {iterator : LocalId} :
    CodeStep.OpensOnly (context.fetchIterated plan iterator) context.scope test := by
  intro code after fetched
  simp only [fetchIterated, bind_eq_ok, pure_eq_ok] at fetched
  obtain ⟨loaded, isLoaded, rfl⟩ := fetched
  have first : OpensOnly context.scope test code
      (loaded.emit (context.iteratorCall "next" .object)) :=
    (OpensOnly.refl.load isLoaded).emit _
  split
  · exact first
  · split
    · exact first.emit _
    · exact (first.emit _).plainly (.convertElement .refl _ _)

/-- The fetch of an element opens the ranges of the loop variable and of locals that
are visible in the loop. -/
theorem opensOnly_fetchElement
    (element : test plan.element)
    (visible : ∀ id < context.scope.locals.size,
      followsFlow context.scope plan.scope id = true → test id) :
    CodeStep.OpensOnly (context.fetchElement plan) context.scope test := by
  have binds : CodeStep.OpensOnly (context.bindElement plan) context.scope test := by
    intro code after bound
    simp only [bindElement, bind_eq_ok, pure_eq_ok] at bound
    obtain ⟨stored, isStored, rfl⟩ := bound
    have first : OpensOnly context.scope test code stored := OpensOnly.refl.store element isStored
    split
    · exact first.openAssigned visible _
    · exact first
  intro code after fetched
  simp only [fetchElement] at fetched
  split at fetched
  · split at fetched
    · simp only [bind_eq_ok] at fetched
      obtain ⟨value, isFetched, bound⟩ := fetched
      exact (opensOnly_fetchIndexed isFetched).trans (binds bound)
    · rw [pure_eq_ok] at fetched
      exact fetched ▸ .refl
  all_goals
    simp only [bind_eq_ok] at fetched
    obtain ⟨value, isFetched, bound⟩ := fetched
    split at bound
    · exact (opensOnly_fetchIterated isFetched).trans (binds bound)
    · rw [pure_eq_ok] at bound
      exact bound ▸ (opensOnly_fetchIterated isFetched).emit _

/-- Ending the ranges of the body of a loop opens none. -/
theorem opensOnly_closeBody
    (plan : LoopPlan)
    (code : CodeStream) :
    OpensOnly context.scope test code (context.closeBody plan code) := by
  simp only [closeBody, closeLocal, closeUnassigned]
  split
  · exact (OpensOnly.refl.closeWhere _).closeWhere _
  · exact OpensOnly.refl.closeWhere _

/-- Coming back for another element opens no range. -/
theorem opensOnly_testAtBottom
    {labels : LoopLabels}
    {next : Label} :
    CodeStep.OpensOnly (context.testAtBottom plan labels next) context.scope test := by
  intro code after repeated
  have placed := (@OpensOnly.refl context.scope test code).place next
  cases strategy : plan.resolution.strategy with
  | array index bound source =>
      obtain ⟨moved, indexed, bounded, isMoved, isIndexed, isBounded, rfl⟩ :=
        (testAtBottom_array_eq_ok strategy).mp repeated
      have steps : OpensOnly context.scope test code moved := by
        split at isMoved
        · exact placed.increment isMoved
        · rw [pure_eq_ok] at isMoved
          exact isMoved ▸ placed
      exact ((((steps.place _).load isIndexed).load isBounded).emit _).markSource _ _
  | rawIterable iterator receiver | genericIterable iterator receiver =>
      simp only [testAtBottom, strategy, bind_eq_ok, pure_eq_ok] at repeated
      obtain ⟨tested, isTested, rfl⟩ := repeated
      exact (opensOnly_testIterator (placed.place _) isTested).markSource _ _

/-- Setting the open ranges to what is assigned after a loop opens those of locals
that are visible around it. -/
theorem opensOnly_settleRanges
    (visible : ∀ id < context.scope.locals.size,
      followsFlow context.scope plan.outer id = true → test id)
    (code : CodeStream) :
    OpensOnly context.scope test code (context.settleRanges plan code) := by
  simp only [settleRanges, closeUnassigned]
  split
  · exact (OpensOnly.refl.closeWhere _).openAssigned visible _
  · exact .refl

end Loops

end CodeContext

end LoopLowering
