import LoopLowering.Proofs.Flow.Marks
import LoopLowering.Proofs.Flow.Narrowing
import Mathlib.Algebra.GroupWithZero.Nat

namespace LoopLowering

/-!
# Checks that loops defer

The use of a reference as an object and the assignment to a final local are reported
on the spot, or deferred to the loops around them and settled there. What has been
reported at a position and what may still be, because some loop waits for its end, is
counted together: no check adds to that but at its own position.
-/

/-- A loop without the states that are collected for it: its scope and the positions it
waits for. -/
structure LoopWait where
  scope : ScopeId
  finals : List Span
  nulls : List Span

/-- What a loop waits for. -/
def LoopRecord.wait
    (record : LoopRecord) :
    LoopWait :=
  ⟨record.scope, record.deferredFinals.map Prod.snd, record.deferredNulls.map Prod.snd⟩

/-- What a jump target waits for: a label waits for nothing. -/
def JumpRecord.wait? :
    JumpRecord → Option LoopWait
  | .loop record => some record.wait
  | .label _ => none

/-- The checks that loops may defer. -/
inductive DeferredCheck where
  /-- That a reference is not null where it is used as an object. -/
  | null
  /-- That a final local has no value yet where it is assigned. -/
  | final
  deriving Repr, DecidableEq

namespace DeferredCheck

/-- Whether a check reports problems of a category. -/
def reports :
    DeferredCheck → Problem → Bool
  | null, .nullReference | null, .potentialNull => true
  | final, .finalReassignment => true
  | _, _ => false

/-- The check of a value that is used as an object. -/
def ofDereference :
    DeferredCheck → Span → List Span
  | null, span => [span]
  | final, _ => []

/-- The check whether an assignment is a second one. -/
def ofReassignment :
    DeferredCheck → Span → List Span
  | null, _ => []
  | final, span => [span]

/-- The checks of a kind that a loop waits for. -/
def deferred
    (wait : LoopWait)
    (check : DeferredCheck) :
    List Span :=
  wait.finals.flatMap check.ofReassignment ++ wait.nulls.flatMap check.ofDereference

/-- The checks of an assignment: one for each loop around it that is not around the
declaration of the local as well, and at least one. -/
def ofAssignment
    (homes : LocalId → ScopeId → Bool)
    (loops : List ScopeId)
    (target : Spanned NameRef)
    (check : DeferredCheck) :
    List Span :=
  match target.node.binding with
  | none => []
  | some id =>
      (List.replicate (max 1 (loops.takeWhile (fun loop => !homes id loop)).length)
        target.span).flatMap check.ofReassignment

end DeferredCheck

/-! ## Checks of a program -/

section Checks

variable
  (check : DeferredCheck)
  (homes : LocalId → ScopeId → Bool)

mutual

/-- The checks of an expression in some loops, each by its position. -/
def Expr.checks
    (loops : List ScopeId) :
    Expr → List Span
  | .intLit .. | .boolLit .. | .stringLit .. | .null _ | .name .. => []
  | .newArray _ _ elements => Expr.allChecks loops elements
  | .binary _ _ left right => left.checks loops ++ right.checks loops
  | .assign _ target _ value => value.checks loops ++ check.ofAssignment homes loops target
  | .call _ _ args => Expr.allChecks loops args
  | .methodCall _ receiver _ args =>
      receiver.checks loops ++ check.ofDereference receiver.span ++ Expr.allChecks loops args

/-- The checks of expressions. -/
def Expr.allChecks
    (loops : List ScopeId) :
    List Expr → List Span
  | [] => []
  | expr :: rest => expr.checks loops ++ Expr.allChecks loops rest

end

/-- The checks of a local declaration. -/
def LocalDecl.checks
    (loops : List ScopeId)
    (decl : LocalDecl) :
    List Span :=
  (decl.initial.map (Expr.checks check homes loops)).getD []

mutual

/-- The checks of a statement. -/
def Stmt.checks
    (loops : List ScopeId) :
    Stmt → List Span
  | .localVar _ decl => decl.checks check homes loops
  | .expr _ value => value.checks check homes loops
  | .block _ stmts _ => Stmt.allChecks loops stmts
  | .branch _ condition thenBranch none =>
      condition.checks check homes loops ++ thenBranch.checks loops
  | .branch _ condition thenBranch (some elseBranch) =>
      condition.checks check homes loops ++ thenBranch.checks loops ++ elseBranch.checks loops
  | .forEach _ element collection none _ =>
      check.ofDereference collection.span ++ element.checks check homes loops ++
        collection.checks check homes loops
  | .forEach _ element collection (some action) facts =>
      check.ofDereference collection.span ++ element.checks check homes loops ++
        collection.checks check homes loops ++ action.checks (facts.scope.toList ++ loops)
  | .labeled _ _ body => body.checks loops
  | .returnWith _ (some value) => value.checks check homes loops
  | .returnWith _ none | .breakTo .. | .continueTo .. | .empty _ => []

/-- The checks of statements. -/
def Stmt.allChecks
    (loops : List ScopeId) :
    List Stmt → List Span
  | [] => []
  | stmt :: rest => stmt.checks loops ++ Stmt.allChecks loops rest

end

end Checks

/-! ## What jump targets wait for -/

namespace JumpStack

/-- What the jump targets of a stack wait for. -/
def waits
    (stack : JumpStack) :
    List (Option LoopWait) :=
  stack.map JumpRecord.wait?

/-- The loops of a stack and the labels between them. -/
def shape
    (stack : JumpStack) :
    List (Option ScopeId) :=
  stack.waits.map (Option.map LoopWait.scope)

/-- The scopes of the loops of a stack, innermost first. -/
def loops
    (stack : JumpStack) :
    List ScopeId :=
  stack.shape.filterMap id

/-- How often loops wait for the check at a position. -/
def pending
    (check : DeferredCheck)
    (span : Span)
    (stack : JumpStack) :
    Nat :=
  ((stack.waits.filterMap id).map fun wait => (check.deferred wait).count span).sum

variable
  {check : DeferredCheck}
  {span : Span}
  {stack after : JumpStack}

/-- Stacks that wait for the same are of the same shape. -/
theorem shape_eq_of_waits
    (same : after.waits = stack.waits) :
    after.shape = stack.shape := by
  rw [shape, same, shape]

/-- Stacks that wait for the same have the same pending. -/
theorem pending_eq_of_waits
    (same : after.waits = stack.waits) :
    after.pending check span = stack.pending check span := by
  rw [pending, same, pending]

@[simp] theorem pending_label
    (record : LabelRecord) :
    pending check span (.label record :: stack) = stack.pending check span := by
  simp [pending, waits, JumpRecord.wait?]

@[simp] theorem pending_loop
    (record : LoopRecord) :
    pending check span (.loop record :: stack) =
      (check.deferred record.wait).count span + stack.pending check span := by
  simp [pending, waits, JumpRecord.wait?]

@[simp] theorem loops_label
    (record : LabelRecord) :
    loops (.label record :: stack) = stack.loops := by
  simp [loops, shape, waits, JumpRecord.wait?]

@[simp] theorem loops_loop
    (record : LoopRecord) :
    loops (.loop record :: stack) = record.scope :: stack.loops := by
  simp [loops, shape, waits, JumpRecord.wait?, LoopRecord.wait]

/-- A stack of the shape of one with a loop on it has a loop on it. -/
theorem exists_loop_of_shape
    {scope : ScopeId}
    {rest : List (Option ScopeId)}
    (isShape : stack.shape = some scope :: rest) :
    ∃ record others, stack = .loop record :: others ∧ shape others = rest := by
  match stack with
  | .loop record :: others => exact ⟨record, others, rfl, (List.cons.inj isShape).2⟩
  | .label _ :: _ => cases isShape
  | [] => cases isShape

/-- A stack of the shape of one with a label on it has a label on it. -/
theorem exists_label_of_shape
    {rest : List (Option ScopeId)}
    (isShape : stack.shape = none :: rest) :
    ∃ record others, stack = .label record :: others ∧ shape others = rest := by
  match stack with
  | .label record :: others => exact ⟨record, others, rfl, (List.cons.inj isShape).2⟩
  | .loop _ :: _ => cases isShape
  | [] => cases isShape

/-- Loops wait for the same after a jump that is recorded. -/
theorem Takes.waits_eq
    {jump : TakenJump}
    (takes : Takes jump stack after) :
    after.waits = stack.waits := by
  induction takes with
  | breaksLoop | continuesLoop | breaksLabel | continuesLabeled =>
      rfl
  | passesLabel _ _ inductionHypothesis | breakPasses _ inductionHypothesis
  | continuePasses _ _ inductionHypothesis =>
      exact congrArg (_ :: ·) inductionHypothesis

/-- At most the innermost loop waits for one more use of a reference. -/
theorem pending_deferNull_le
    (scopes : MethodScope)
    (id : LocalId)
    (declaredIn : ScopeId)
    (used : Span) :
    ∀ stack : JumpStack,
      (stack.deferNull scopes id declaredIn used).shape = stack.shape ∧
      (stack.deferNull scopes id declaredIn used).pending check span ≤
        stack.pending check span + (check.ofDereference used).count span
  | [] => ⟨rfl, by simp [deferNull]⟩
  | .label record :: stack => by
      obtain ⟨sameShape, bound⟩ := pending_deferNull_le scopes id declaredIn used stack
      exact ⟨congrArg (_ :: ·) sameShape, by simpa [deferNull] using bound⟩
  | .loop record :: stack => by
      rw [deferNull]
      split
      · exact ⟨rfl, Nat.le_add_right _ _⟩
      · refine ⟨rfl, ?_⟩
        simp only [pending_loop, DeferredCheck.deferred, LoopRecord.wait, List.map_append,
          List.flatMap_append, List.count_append, List.map_cons, List.map_nil,
          List.flatMap_singleton]
        omega

/-- Every loop that does not see the declaration of a final local waits once more for
its assignment. -/
theorem pending_deferFinal
    (scopes : MethodScope)
    (id : LocalId)
    (declaredIn : ScopeId)
    (assigned : Span) :
    ∀ stack : JumpStack,
      (stack.deferFinal scopes id declaredIn assigned).shape = stack.shape ∧
      (stack.deferFinal scopes id declaredIn assigned).pending check span =
        stack.pending check span +
          ((List.replicate
            (stack.loops.takeWhile (fun loop => !scopes.isWithin declaredIn loop)).length
            assigned).flatMap check.ofReassignment).count span
  | [] => ⟨rfl, by simp [deferFinal, loops, shape, waits]⟩
  | .label record :: stack => by
      obtain ⟨sameShape, bound⟩ := pending_deferFinal scopes id declaredIn assigned stack
      exact ⟨congrArg (_ :: ·) sameShape, by simpa [deferFinal] using bound⟩
  | .loop record :: stack => by
      obtain ⟨sameShape, bound⟩ := pending_deferFinal scopes id declaredIn assigned stack
      rw [deferFinal]
      split
      · next isWithin => exact ⟨rfl, by simp [isWithin]⟩
      · next notWithin =>
          refine ⟨congrArg (_ :: ·) sameShape, ?_⟩
          rw [pending_loop, pending_loop, bound, loops_loop,
            List.takeWhile_cons_of_pos (by simpa using notWithin)]
          simp only [DeferredCheck.deferred, LoopRecord.wait, List.map_append,
            List.flatMap_append, List.count_append, List.map_cons, List.map_nil,
            List.flatMap_nil, List.count_nil, List.length_cons, List.replicate_succ,
            List.flatMap_cons]
          omega

end JumpStack

/-! ## Reports and what is pending -/

namespace MethodState

/-- How often a check has reported a position. -/
def reportsAt
    (check : DeferredCheck)
    (span : Span)
    (state : MethodState) :
    Nat :=
  state.diagnostics.toList.countP fun diagnostic =>
    check.reports diagnostic.problem && diagnostic.span == span

/-- A report counts for its check at its position. -/
theorem reportsAt_report
    (check : DeferredCheck)
    (span : Span)
    (issue : Issue)
    (position : Span)
    (state : MethodState) :
    (state.report issue position).reportsAt check span =
      state.reportsAt check span +
        if check.reports issue.problem then [position].count span else 0 := by
  simp only [reportsAt, report, Array.toList_push, List.countP_append, List.countP_singleton,
    List.count_singleton, Issue.diagnostic, Bool.and_eq_true]
  split <;> simp_all

/-- The scopes around the declaration of a local. -/
def homes
    (state : MethodState)
    (id : LocalId) :
    ScopeId → Bool :=
  state.scope.isWithin (state.localAt id).scope

/-- Marking locals as used does not move them. -/
theorem Marks.homes_eq
    {before after : MethodState}
    (marks : before.Marks after) :
    after.homes = before.homes := by
  funext id scope
  have sameScope : (after.localAt id).scope = (before.localAt id).scope := by
    rcases Nat.lt_or_ge id before.scope.locals.size with known | unknown
    · exact (marks.scope.persists id known).scope
    · have isDefault {state : MethodState} (size : state.scope.locals.size ≤ id) :
          state.localAt id = default :=
        MethodScope.localAt_unknown (Nat.not_lt.mpr size)
      rw [isDefault unknown, isDefault (by rw [marks.sameCount]; exact unknown)]
  simp only [homes, sameScope, MethodScope.isWithin, MethodScope.enclosing, marks.sameBlocks]

end MethodState

namespace FlowPoint

/-- How often a check has reported a position and may still report it. -/
def charges
    (check : DeferredCheck)
    (span : Span)
    (point : FlowPoint) :
    Nat :=
  point.state.reportsAt check span + point.jumps.pending check span

/-- Between two points, nothing is charged but some checks, and no loop is entered or
left. -/
structure Pays
    (check : DeferredCheck)
    (checks : List Span)
    (before after : FlowPoint) :
    Prop where
  shape : after.jumps.shape = before.jumps.shape
  charges : ∀ span, after.charges check span ≤ before.charges check span + checks.count span

namespace Pays

variable
  {check : DeferredCheck}
  {checks more : List Span}
  {before middle after : FlowPoint}

theorem refl
    (point : FlowPoint) :
    point.Pays check checks point :=
  ⟨rfl, fun _ => Nat.le_add_right _ _⟩

theorem trans
    (earlier : before.Pays check checks middle)
    (later : middle.Pays check more after) :
    before.Pays check (checks ++ more) after := by
  refine ⟨later.shape.trans earlier.shape, fun span => ?_⟩
  have first := earlier.charges span
  have second := later.charges span
  rw [List.count_append]
  omega

/-- The loops around are the same. -/
theorem loops_eq
    (pays : before.Pays check checks after) :
    after.jumps.loops = before.jumps.loops := by
  rw [JumpStack.loops, pays.shape, JumpStack.loops]

/-- Flow goes on from another state. -/
theorem withFlow
    (pays : before.Pays check checks after)
    (flow : FlowState) :
    before.Pays check checks { after with flow := flow } :=
  ⟨pays.shape, pays.charges⟩

theorem mono
    (pays : before.Pays check checks after)
    (le : ∀ span, checks.count span ≤ more.count span) :
    before.Pays check more after :=
  ⟨pays.shape, fun span => Nat.le_trans (pays.charges span) (Nat.add_le_add_left (le span) _)⟩

/-- More may be paid later than is due. -/
theorem weaken
    (pays : before.Pays check checks after)
    (more : List Span) :
    before.Pays check (checks ++ more) after := by
  simpa using pays.trans (show after.Pays check more after from refl after)

/-- Nothing is paid where loops wait for the same and nothing is reported. -/
theorem ofWaits
    (waits : after.jumps.waits = before.jumps.waits)
    (reports : ∀ span, after.state.reportsAt check span = before.state.reportsAt check span) :
    before.Pays check [] after := by
  refine ⟨JumpStack.shape_eq_of_waits waits, fun span => ?_⟩
  rw [FlowPoint.charges, FlowPoint.charges, reports, JumpStack.pending_eq_of_waits waits]
  exact Nat.le_add_right _ _

/-- A report of another kind costs nothing. -/
theorem reportOther
    {issue : Issue}
    (other : check.reports issue.problem = false)
    (position : Span)
    (point : FlowPoint) :
    point.Pays check [] (point.report issue position) := by
  refine ofWaits rfl fun span => ?_
  rw [FlowPoint.report, MethodState.reportsAt_report, other]
  rfl

/-- A report costs itself. -/
theorem report
    (issue : Issue)
    (position : Span)
    (point : FlowPoint) :
    point.Pays check [position] (point.report issue position) := by
  refine ⟨rfl, fun span => ?_⟩
  simp only [FlowPoint.charges, FlowPoint.report, MethodState.reportsAt_report]
  split <;> omega

/-- The report of a dereference costs its check. -/
theorem reportNull
    {issue : Issue}
    (isNull : issue.problem = .nullReference ∨ issue.problem = .potentialNull)
    (position : Span)
    (point : FlowPoint) :
    point.Pays check (check.ofDereference position) (point.report issue position) := by
  cases check with
  | null => exact report issue position point
  | final =>
      refine reportOther ?_ position point
      rcases isNull with isNull | isNull <;> rw [isNull] <;> rfl

/-- The report of a second assignment costs its check. -/
theorem reportReassigned
    (name : String)
    (position : Span)
    (point : FlowPoint) :
    point.Pays check (check.ofReassignment position)
      (point.report (.finalReassigned name) position) := by
  cases check with
  | null => exact reportOther rfl position point
  | final => exact report _ position point

/-- Deferring the use of a reference costs its check. -/
theorem deferNull
    (id : LocalId)
    (position : Span)
    (point : FlowPoint) :
    point.Pays check (check.ofDereference position)
      { point with
        jumps :=
          point.jumps.deferNull point.state.scope id (point.state.localAt id).scope position } := by
  have deferred (span : Span) := @JumpStack.pending_deferNull_le check span
    point.state.scope id (point.state.localAt id).scope position point.jumps
  refine ⟨(deferred position).1, fun span => ?_⟩
  have bound := (deferred span).2
  simp only [FlowPoint.charges]
  omega

/-- Checking a read costs nothing. -/
theorem checkReadOf
    (span : Span)
    (binding : Option LocalId)
    (point : FlowPoint) :
    point.Pays check [] (point.checkReadOf span binding) := by
  cases binding with
  | none => exact refl point
  | some id =>
      rw [FlowPoint.checkReadOf, checkRead]
      split
      · exact refl point
      · exact reportOther (by cases check <;> rfl) span point

/-- Assigning costs nothing. -/
theorem assign
    (options : CompilerOptions)
    (id : LocalId)
    (status : NullStatus)
    (point : FlowPoint) :
    point.Pays check [] (point.assign options id status) := by
  rw [FlowPoint.assign]
  split
  · exact ofWaits rfl fun _ => rfl
  · exact ofWaits rfl fun _ => rfl

/-- Checking the use of a local as an object costs its check. -/
theorem checkNull
    (span : Span)
    (id : LocalId)
    (point : FlowPoint) :
    point.Pays check (check.ofDereference span) (point.checkNull span id) := by
  rw [FlowPoint.checkNull]
  split
  · exact reportNull (.inl rfl) span point
  · exact reportNull (.inr rfl) span point
  · exact refl point
  · exact deferNull id span point

/-- Checking the use of a value as an object costs its check. -/
theorem checkDereference
    (options : CompilerOptions)
    (value : Expr)
    (point : FlowPoint) :
    point.Pays check (check.ofDereference value.span) (point.checkDereference options value) := by
  simp only [FlowPoint.checkDereference]
  split
  · exact refl point
  · split
    · exact reportNull (.inl rfl) _ point
    · split
      · exact (checkNull _ _ point).withFlow _
      · exact refl point
    · exact refl point

/-- Checking the assignment of a final local costs its check. -/
theorem checkFinal
    {target : Spanned NameRef}
    {id : LocalId}
    (binding : target.node.binding = some id)
    (point : FlowPoint) :
    point.Pays check (check.ofAssignment point.state.homes point.jumps.loops target)
      (point.checkFinal target.span id) := by
  have atMost {count : Nat} (span : Span)
      (le : count ≤ max 1 (point.jumps.loops.takeWhile
        (fun loop => !point.state.homes id loop)).length) :
      ((List.replicate count target.span).flatMap check.ofReassignment).count span ≤
        (check.ofAssignment point.state.homes point.jumps.loops target).count span := by
    simp only [DeferredCheck.ofAssignment, binding, List.count_flatMap, List.map_replicate,
      List.sum_replicate_nat]
    exact Nat.mul_le_mul_right _ le
  simp only [FlowPoint.checkFinal]
  split
  · exact refl point
  · split
    · refine (reportReassigned _ _ point).mono fun span => ?_
      simpa using atMost span (Nat.le_max_left 1 _)
    · have deferred (span : Span) := @JumpStack.pending_deferFinal check span
        point.state.scope id (point.state.localAt id).scope target.span point.jumps
      refine ⟨(deferred target.span).1, fun span => ?_⟩
      simp only [FlowPoint.charges, (deferred span).2]
      have bound := atMost span (Nat.le_max_right 1 _)
      simp only [MethodState.homes] at bound
      omega

/-- Jumping costs nothing. -/
theorem jump
    {span : Span}
    {target : Except JumpError JumpStack}
    {point : FlowPoint}
    (waits : ∀ jumps, target = .ok jumps → jumps.waits = point.jumps.waits) :
    point.Pays check [] (point.jump span target) := by
  cases target with
  | ok jumps =>
      have recorded : point.Pays check [] { point with jumps := jumps } :=
        ofWaits (waits jumps rfl) fun _ => rfl
      exact recorded.withFlow _
  | error cause => exact (reportOther (by cases check <;> rfl) span point).withFlow _

end Pays

end FlowPoint

end LoopLowering
