import LoopLowering.Proofs.Flow.GainingAnalysis
import LoopLowering.Proofs.Flow.Reanalysis

namespace LoopLowering

/-!
# Loops that run again

A loop whose collection and element assign nothing is left in a state that the loop does
not change any more: run from there, it is left in the same state. Its body adds nothing,
since what it does to a flow state does not depend on what is assigned where the loop is
entered, and nothing is known about references there. What is known about references after
the loop is told local by local, and for a single local another round changes nothing.
-/

namespace NullStatus

/-- What is known about a reference after newer code, if that tells something. -/
def updated
    (before newer : NullStatus) :
    NullStatus :=
  if newer = .unknown then before else newer

/-- What is known about a reference after a loop, from what is known before it and where it
is entered, where it is broken out of, and where its body comes back. -/
def afterLoop
    (broken backEdge : Option NullStatus)
    (before entered : NullStatus) :
    NullStatus :=
  let exhausted :=
    match backEdge with
    | some bodyEnd => entered.afterOptional bodyEnd
    | none => entered
  match broken with
  | some jump => (before.updated jump).join exhausted
  | none => exhausted

/-- A second round of a loop tells nothing new about a reference that is left alone where
the loop is entered. -/
theorem afterLoop_again
    (broken backEdge : Option NullStatus)
    (status : NullStatus) :
    afterLoop broken backEdge (afterLoop broken backEdge status status)
        (afterLoop broken backEdge status status) =
      afterLoop broken backEdge status status := by
  rcases broken with _ | broken <;> rcases backEdge with _ | backEdge
  · rfl
  · cases status <;> cases backEdge <;> rfl
  · cases status <;> cases broken <;> rfl
  · cases status <;> cases broken <;> cases backEdge <;> rfl

/-- A second round of a loop tells nothing new about a reference that is used as an object
where the collection is evaluated. -/
theorem afterLoop_again_nonNull
    (broken backEdge : Option NullStatus)
    (status : NullStatus) :
    afterLoop broken backEdge (afterLoop broken backEdge status .nonNull) .nonNull =
      afterLoop broken backEdge status .nonNull := by
  rcases broken with _ | broken <;> rcases backEdge with _ | backEdge
  · rfl
  · rfl
  · cases status <;> cases broken <;> rfl
  · cases status <;> cases broken <;> cases backEdge <;> rfl

end NullStatus

namespace FlowState

/-- Some references have been used as objects. -/
def withNonNull
    (ids : List LocalId)
    (state : FlowState) :
    FlowState :=
  ids.foldl (fun state id => state.setNull id .nonNull) state

variable
  {state : FlowState}

/-- Uses one after the other. -/
theorem withNonNull_append
    (ids others : List LocalId)
    (state : FlowState) :
    state.withNonNull (ids ++ others) = (state.withNonNull ids).withNonNull others :=
  List.foldl_append

/-- Using references decides neither on what is reached nor on what is assigned. -/
theorem withNonNull_eq
    (ids : List LocalId)
    (state : FlowState) :
    (state.withNonNull ids).reachable = state.reachable ∧
      (state.withNonNull ids).definite = state.definite ∧
      (state.withNonNull ids).potential = state.potential := by
  induction ids generalizing state with
  | nil => exact ⟨rfl, rfl, rfl⟩
  | cons id rest inductionHypothesis => exact inductionHypothesis (state.setNull id .nonNull)

/-- What is known about references stays a table. -/
theorem isTable_withNonNull
    (ids : List LocalId)
    (table : state.nulls.IsTable) :
    (state.withNonNull ids).nulls.IsTable := by
  induction ids generalizing state with
  | nil => exact table
  | cons id rest inductionHypothesis => exact inductionHypothesis (table.set id .nonNull)

/-- References that have been used are not null, and nothing else is learned. -/
theorem nullStatus_withNonNull
    (ids : List LocalId)
    (state : FlowState)
    (id : LocalId) :
    (state.withNonNull ids).nullStatus id = if id ∈ ids then .nonNull else state.nullStatus id := by
  induction ids generalizing state with
  | nil =>
      rfl
  | cons used rest inductionHypothesis =>
      have first : (state.setNull used .nonNull).nullStatus id =
          if id = used then .nonNull else state.nullStatus id :=
        NullFacts.status_set used .nonNull state.nulls id
      refine (inductionHypothesis (state.setNull used .nonNull)).trans ?_
      rw [first]
      by_cases inRest : id ∈ rest
      · simp [inRest]
      · simp [inRest]

end FlowState

/-! ### Expressions without assignments -/

mutual

/-- Whether an expression contains an assignment. -/
def Expr.assigns :
    Expr → Bool
  | .intLit .. | .boolLit .. | .stringLit .. | .null _ | .name .. => false
  | .newArray _ _ elements => Expr.anyAssigns elements
  | .binary _ _ left right => left.assigns || right.assigns
  | .assign .. => true
  | .call _ _ args => Expr.anyAssigns args
  | .methodCall _ receiver _ args => receiver.assigns || Expr.anyAssigns args

/-- Whether some expressions contain an assignment. -/
def Expr.anyAssigns :
    List Expr → Bool
  | [] => false
  | expr :: rest => expr.assigns || Expr.anyAssigns rest

end

/-- The reference that is known not to be null once an expression has been used as an
object, given the locals that are tracked. -/
def Expr.usedLocal
    (tracks : LocalId → Bool) :
    Expr → List LocalId
  | .name _ ⟨_, some id⟩ => if tracks id then [id] else []
  | _ => []

mutual

/-- The references that are used as objects in an expression. -/
def Expr.usedLocals
    (tracks : LocalId → Bool) :
    Expr → List LocalId
  | .intLit .. | .boolLit .. | .stringLit .. | .null _ | .name .. => []
  | .newArray _ _ elements => Expr.allUsedLocals tracks elements
  | .binary _ _ left right => left.usedLocals tracks ++ right.usedLocals tracks
  | .assign _ _ _ value => value.usedLocals tracks
  | .call _ _ args => Expr.allUsedLocals tracks args
  | .methodCall _ receiver _ args =>
      receiver.usedLocals tracks ++ receiver.usedLocal tracks ++ Expr.allUsedLocals tracks args

/-- The references that are used as objects in expressions. -/
def Expr.allUsedLocals
    (tracks : LocalId → Bool) :
    List Expr → List LocalId
  | [] => []
  | expr :: rest => expr.usedLocals tracks ++ Expr.allUsedLocals tracks rest

end

section Expressions

variable
  (options : CompilerOptions)

/-- What is recorded about locals does not decide on which of them are tracked. -/
theorem FlowPoint.tracksNull_of_marks
    {before after : FlowPoint}
    (marks : before.state.Marks after.state) :
    after.tracksNull options = before.tracksNull options := by
  funext id
  simp only [FlowPoint.tracksNull, marks.type_eq]

/-- Using a value as an object tells at most that it is not null. -/
theorem flow_checkDereference
    (value : Expr)
    {point : FlowPoint}
    (reached : point.flow.reachable = true) :
    (point.checkDereference options value).flow =
      point.flow.withNonNull (value.usedLocal (point.tracksNull options)) := by
  unfold FlowPoint.checkDereference
  cases analyzes : options.nullAnalysis with
  | false =>
      have untracked : ∀ id, point.tracksNull options id = false := by
        intro id
        simp [FlowPoint.tracksNull, analyzes]
      have unused : value.usedLocal (point.tracksNull options) = [] := by
        unfold Expr.usedLocal
        split
        · simp [untracked]
        · rfl
      rw [unused]
      rfl
  | true =>
      simp only [reached, Bool.not_true, Bool.or_self, Bool.false_eq_true, if_false]
      split
      · rfl
      · next span name id =>
          simp only [Expr.usedLocal]
          split
          · change (point.checkNull span id).flow.setNull id .nonNull = _
            rw [(FlowPoint.Looks.checkNull span id point).flow]
            rfl
          · rfl
      · next notNull notBound =>
          unfold Expr.usedLocal
          split
          · next span name id => exact absurd rfl (notBound span name id)
          · rfl

mutual

/-- An expression without assignments only uses references. -/
theorem flow_analyzeExpr :
    ∀ (expr : Expr) {point : FlowPoint},
      expr.assigns = false →
      point.flow.reachable = true →
      (analyzeExpr options expr point).flow =
        point.flow.withNonNull (expr.usedLocals (point.tracksNull options))
  | .intLit .., _, _, _ | .boolLit .., _, _, _ | .stringLit .., _, _, _ | .null _, _, _, _ => by
      simp only [analyzeExpr, Expr.usedLocals]
      rfl
  | .name span ref, point, _, _ => by
      simp only [analyzeExpr, Expr.usedLocals]
      exact (FlowPoint.Looks.checkReadOf span ref.binding point).flow
  | .newArray _ _ elements, point, reads, reached => by
      simp only [Expr.assigns] at reads
      simp only [analyzeExpr, Expr.usedLocals]
      exact flow_analyzeExprs elements reads reached
  | .binary _ _ left right, point, reads, reached => by
      simp only [Expr.assigns, Bool.or_eq_false_iff] at reads
      have first := flow_analyzeExpr left reads.1 reached
      have second := flow_analyzeExpr right reads.2
        ((evaluates_analyzeExpr options left point).reachable.trans reached)
      rw [FlowPoint.tracksNull_of_marks options (marks_analyzeExpr options left point)] at second
      simp only [analyzeExpr, Expr.usedLocals, FlowState.withNonNull_append]
      rw [second, first]
  | .assign .., _, reads, _ => by
      simp only [Expr.assigns, Bool.true_eq_false] at reads
  | .call _ _ args, point, reads, reached => by
      simp only [Expr.assigns] at reads
      simp only [analyzeExpr, Expr.usedLocals]
      exact flow_analyzeExprs args reads reached
  | .methodCall _ receiver _ args, point, reads, reached => by
      simp only [Expr.assigns, Bool.or_eq_false_iff] at reads
      have evaluatedReached := (evaluates_analyzeExpr options receiver point).reachable.trans reached
      have usedReached := (FlowPoint.evaluates_checkDereference options receiver
        (analyzeExpr options receiver point)).reachable.trans evaluatedReached
      have evaluatedTracks :=
        FlowPoint.tracksNull_of_marks options (marks_analyzeExpr options receiver point)
      have usedTracks := (FlowPoint.tracksNull_of_marks options (FlowPoint.marks_checkDereference
        options receiver (analyzeExpr options receiver point))).trans evaluatedTracks
      have evaluated := flow_analyzeExpr receiver reads.1 reached
      have used := flow_checkDereference options receiver evaluatedReached
      have passed := flow_analyzeExprs args reads.2 usedReached
      rw [usedTracks] at passed
      rw [evaluatedTracks] at used
      simp only [analyzeExpr, Expr.usedLocals, FlowState.withNonNull_append]
      rw [passed, used, evaluated]

theorem flow_analyzeExprs :
    ∀ (exprs : List Expr) {point : FlowPoint},
      Expr.anyAssigns exprs = false →
      point.flow.reachable = true →
      (analyzeExprs options exprs point).flow =
        point.flow.withNonNull (Expr.allUsedLocals (point.tracksNull options) exprs)
  | [], _, _, _ => by
      simp only [analyzeExprs, Expr.allUsedLocals]
      rfl
  | expr :: rest, point, reads, reached => by
      simp only [Expr.anyAssigns, Bool.or_eq_false_iff] at reads
      have first := flow_analyzeExpr expr reads.1 reached
      have second := flow_analyzeExprs rest reads.2
        ((evaluates_analyzeExpr options expr point).reachable.trans reached)
      rw [FlowPoint.tracksNull_of_marks options (marks_analyzeExpr options expr point)] at second
      simp only [analyzeExprs, Expr.allUsedLocals, FlowState.withNonNull_append]
      rw [second, first]

end

end Expressions

/-! ### Where a loop is left -/

/-- A loop is entered from a flow state: some references are used as objects before its
collection is evaluated, some while it is, and the element is assigned. -/
structure LoopEntry.Starts
    (entry : LoopEntry)
    (flow : FlowState)
    (used evaluated : List LocalId)
    (element : Option LocalId) :
    Prop where
  before : entry.before = flow.withNonNull used
  reachable : entry.entered.reachable = flow.reachable
  definite : entry.entered.definite = flow.definite.insertBinding element
  potential : entry.entered.potential = flow.potential.insertBinding element
  nulls : entry.entered.nulls = ((flow.withNonNull used).withNonNull evaluated).nulls

/-- A local is in a set with the one a name is bound to, if it is one of them. -/
theorem VarSet.contains_insertBinding
    (binding : Option LocalId)
    (set : VarSet)
    (id : LocalId) :
    (set.insertBinding binding).contains id = (set.contains id || decide (binding = some id)) := by
  cases binding with
  | none => simp [VarSet.insertBinding]
  | some bound => simp [VarSet.insertBinding]

/-- A loop is entered from the state before it. -/
theorem starts_enterLoop
    (options : CompilerOptions)
    (scope : ScopeId)
    {element : LocalDecl}
    {collection : Expr}
    (noInitial : element.initial = none)
    (reads : collection.assigns = false)
    {point : FlowPoint}
    (reached : point.flow.reachable = true) :
    (enterLoop options scope element collection point).Starts point.flow
        (collection.usedLocal (point.tracksNull options))
        (collection.usedLocals (point.tracksNull options)) element.binding ∧
      (enterLoop options scope element collection point).body.flow =
        (enterLoop options scope element collection point).entered.withoutNulls := by
  have used := flow_checkDereference options collection reached
  have usedReached := (FlowPoint.evaluates_checkDereference options collection point).reachable.trans
    reached
  have evaluated := flow_analyzeExpr options collection reads usedReached
  rw [FlowPoint.tracksNull_of_marks options
    (FlowPoint.marks_checkDereference options collection point), used] at evaluated
  obtain ⟨usedReachable, usedDefinite, usedPotential⟩ := FlowState.withNonNull_eq
    (collection.usedLocal (point.tracksNull options)) point.flow
  obtain ⟨reachable, definite, potential⟩ := FlowState.withNonNull_eq
    (collection.usedLocals (point.tracksNull options))
    (point.flow.withNonNull (collection.usedLocal (point.tracksNull options)))
  refine ⟨?_, rfl⟩
  simp only [enterLoop, analyzeDecl, noInitial]
  cases bound : element.binding with
  | none =>
      exact ⟨used, by rw [evaluated, reachable, usedReachable],
        by rw [evaluated, definite, usedDefinite, VarSet.insertBinding],
        by rw [evaluated, potential, usedPotential, VarSet.insertBinding], by rw [evaluated]⟩
  | some id =>
      refine ⟨used, ?_, ?_, ?_, ?_⟩
      · simp only [FlowState.assign, evaluated, reachable, usedReachable]
      · simp only [FlowState.assign, evaluated, definite, usedDefinite, VarSet.insertBinding]
      · simp only [FlowState.assign, evaluated, potential, usedPotential, VarSet.insertBinding]
      · simp only [FlowState.assign, evaluated]

/-- Where the body of a loop comes back, if flow analysis has met it and it does. -/
def LoopBody.returns
    (body : LoopBody)
    (record : LoopRecord) :
    Option FlowState :=
  if body.analyzed && body.comesBack record then some (body.backEdge record) else none

/-- Where a loop is broken out of, if it is. -/
def LoopRecord.breaks
    (record : LoopRecord) :
    Option FlowState :=
  if record.onBreak.reachable then some record.onBreak else none

/-- What is known about a reference in a state that some path reaches. -/
def FlowState.status?
    (id : LocalId)
    (state : FlowState) :
    Option NullStatus :=
  if state.reachable then some (state.nullStatus id) else none

namespace LoopEntry.Starts

variable
  {entry : LoopEntry}
  {flow : FlowState}
  {used evaluated : List LocalId}
  {element : Option LocalId}

/-- What is known where the collection is evaluated is a table, and so is what is known
after that. -/
theorem isTable
    (starts : entry.Starts flow used evaluated element)
    (table : flow.nulls.IsTable) :
    entry.before.nulls.IsTable ∧ entry.entered.nulls.IsTable := by
  rw [starts.before, starts.nulls]
  exact ⟨FlowState.isTable_withNonNull used table,
    FlowState.isTable_withNonNull evaluated (FlowState.isTable_withNonNull used table)⟩

/-- What is known about a reference where a loop is entered. -/
theorem nullStatus
    (starts : entry.Starts flow used evaluated element)
    (id : LocalId) :
    entry.before.nullStatus id = (if id ∈ used then .nonNull else flow.nullStatus id) ∧
      entry.entered.nullStatus id =
        if id ∈ evaluated then .nonNull else entry.before.nullStatus id := by
  have entered : entry.entered.nullStatus id =
      ((flow.withNonNull used).withNonNull evaluated).nullStatus id :=
    congrArg (NullFacts.status · id) starts.nulls
  rw [entered, starts.before]
  exact ⟨FlowState.nullStatus_withNonNull used flow id,
    FlowState.nullStatus_withNonNull evaluated (flow.withNonNull used) id⟩

/-- What the evaluation of the collection leads to is where the loop is entered. -/
theorem afterRun
    (starts : entry.Starts flow used evaluated element)
    (reached : flow.reachable = true)
    (table : flow.nulls.IsTable) :
    entry.before.afterRun entry.entered = entry.entered := by
  obtain ⟨beforeTable, enteredTable⟩ := starts.isTable table
  obtain ⟨usedReachable, usedDefinite, usedPotential⟩ := FlowState.withNonNull_eq used flow
  have enteredReached := starts.reachable.trans reached
  have alive : entry.entered.isDeadEnd = false := by
    simp [FlowState.isDeadEnd, enteredReached]
  have definite : entry.before.definite.union entry.entered.definite = entry.entered.definite := by
    rw [starts.before, starts.definite, usedDefinite]
    ext id
    simp [VarSet.contains_insertBinding]
  have potential :
      entry.before.potential.union entry.entered.potential = entry.entered.potential := by
    rw [starts.before, starts.potential, usedPotential]
    ext id
    simp [VarSet.contains_insertBinding]
  have nulls : entry.before.nulls.override entry.entered.nulls = entry.entered.nulls := by
    refine NullFacts.IsTable.ext (beforeTable.override enteredTable) enteredTable fun id => ?_
    rw [NullFacts.status_override enteredTable]
    have entered : entry.entered.nulls.status id =
        if id ∈ evaluated then .nonNull else entry.before.nulls.status id :=
      (starts.nullStatus id).2
    rw [entered]
    by_cases isUsed : id ∈ evaluated
    · simp [isUsed]
    · simp [isUsed]
  have reachable : entry.before.reachable = true := by
    rw [starts.before, usedReachable, reached]
  simp only [FlowState.afterRun, alive, Bool.false_eq_true, if_false, enteredReached, if_true,
    definite, potential, nulls, reachable]
  rw [← enteredReached]

variable
  (body : LoopBody)
  (record : LoopRecord)

/-- The collection runs out where the loop has been entered, after a body that may have
come back. -/
theorem exhausted
    (starts : entry.Starts flow used evaluated element)
    (reached : flow.reachable = true)
    (table : flow.nulls.IsTable) :
    body.exhausted entry record =
      (body.returns record).elim entry.entered entry.entered.afterOptional := by
  simp only [LoopBody.exhausted, LoopBody.returns, starts.afterRun reached table]
  cases body.analyzed with
  | false => rfl
  | true =>
      cases body.comesBack record with
      | false => rfl
      | true => rfl

/-- Some path reaches where a collection runs out, and what is assigned there. -/
theorem assigned_exhausted
    (starts : entry.Starts flow used evaluated element)
    (reached : flow.reachable = true)
    (table : flow.nulls.IsTable) :
    (body.exhausted entry record).reachable = true ∧
      (body.exhausted entry record).definite = entry.entered.definite ∧
      ∀ id, (body.exhausted entry record).potential.contains id =
        (entry.entered.potential.contains id ||
          (body.returns record).any (·.potential.contains id)) := by
  have enteredReached := starts.reachable.trans reached
  rw [starts.exhausted body record reached table]
  cases body.returns record with
  | none => exact ⟨enteredReached, rfl, fun id => (Bool.or_false _).symm⟩
  | some bodyEnd => exact ⟨enteredReached, rfl, fun id => VarSet.contains_union _ _ id⟩

/-- What is known about references where a collection runs out. -/
theorem nulls_exhausted
    (starts : entry.Starts flow used evaluated element)
    (reached : flow.reachable = true)
    (table : flow.nulls.IsTable) :
    (body.exhausted entry record).nulls.IsTable ∧
      ∀ id, (body.exhausted entry record).nullStatus id =
        NullStatus.afterLoop none ((body.returns record).bind (·.status? id))
          (entry.before.nullStatus id) (entry.entered.nullStatus id) := by
  have enteredTable := (starts.isTable table).2
  rw [starts.exhausted body record reached table]
  cases body.returns record with
  | none => exact ⟨enteredTable, fun id => rfl⟩
  | some bodyEnd =>
      refine ⟨FlowState.isTable_afterOptional enteredTable, fun id => ?_⟩
      simp only [Option.elim_some, Option.bind_some, FlowState.status?, FlowState.nullStatus,
        FlowState.afterOptional]
      split
      · exact NullFacts.status_afterOptional entry.entered.nulls bodyEnd.nulls id
      · rfl

/-- Some path reaches the end of a loop, and what is assigned there. What every break has
assigned includes what is assigned where the loop is entered. -/
theorem assigned_left
    (starts : entry.Starts flow used evaluated element)
    (reached : flow.reachable = true)
    (table : flow.nulls.IsTable)
    {potential : VarSet}
    (own : record.onBreak.Gains entry.entered.definite potential record.onBreak) :
    (body.left entry record).reachable = true ∧
      (body.left entry record).definite = entry.entered.definite ∧
      ∀ id, (body.left entry record).potential.contains id =
        (entry.entered.potential.contains id || record.breaks.any (·.potential.contains id) ||
          (body.returns record).any (·.potential.contains id)) := by
  obtain ⟨isReached, definite, possible⟩ :=
    starts.assigned_exhausted body record reached table
  obtain ⟨usedReachable, usedDefinite, usedPotential⟩ := FlowState.withNonNull_eq used flow
  have beforeReached : entry.before.reachable = true := by
    rw [starts.before, usedReachable, reached]
  have beforeWithin : ∀ id, entry.before.potential.contains id = true →
      entry.entered.potential.contains id = true := by
    intro id member
    rw [starts.before, usedPotential] at member
    simp [starts.potential, VarSet.contains_insertBinding, member]
  cases breaks : record.onBreak.reachable with
  | false =>
      have unbroken := (own.eq_deadEnd breaks).1
      refine ⟨?_, ?_, fun id => ?_⟩
      · simp [LoopBody.left, breaks, FlowState.merge, isReached]
      · simp [LoopBody.left, breaks, FlowState.merge, isReached, definite]
      · simp [LoopBody.left, LoopRecord.breaks, FlowState.merge, isReached, unbroken,
          FlowState.deadEnd, FlowState.initial, possible]
  | true =>
      have alive : record.onBreak.isDeadEnd = false := by simp [FlowState.isDeadEnd, breaks]
      have assigns := own.definite_eq breaks
      refine ⟨?_, ?_, fun id => ?_⟩
      · simp [LoopBody.left, breaks, FlowState.merge, FlowState.afterRun, alive, isReached,
          beforeReached]
      · ext id
        simp only [LoopBody.left, breaks, FlowState.merge, FlowState.afterRun, alive, isReached,
          beforeReached, definite, if_true, Bool.false_eq_true, if_false, VarSet.contains_inter,
          VarSet.contains_union]
        rw [assigns, VarSet.contains_union]
        cases entry.entered.definite.contains id <;> simp
      · have within := beforeWithin id
        simp only [LoopBody.left, LoopRecord.breaks, breaks, FlowState.merge, FlowState.afterRun,
          alive, isReached, beforeReached, possible, if_true, Bool.false_eq_true, if_false,
          VarSet.contains_union, Option.any_some]
        cases isBefore : entry.before.potential.contains id with
        | false => simp [Bool.or_left_comm, Bool.or_assoc]
        | true => simp [within isBefore]

/-- What is known about references where a loop is left. -/
theorem nulls_left
    (starts : entry.Starts flow used evaluated element)
    (reached : flow.reachable = true)
    (table : flow.nulls.IsTable)
    {definite potential : VarSet}
    (own : record.onBreak.Gains definite potential record.onBreak) :
    (body.left entry record).nulls.IsTable ∧
      ∀ id, (body.left entry record).nullStatus id =
        NullStatus.afterLoop (record.breaks.bind (·.status? id))
          ((body.returns record).bind (·.status? id)) (entry.before.nullStatus id)
          (entry.entered.nullStatus id) := by
  obtain ⟨isReached, -, -⟩ :=
    starts.assigned_exhausted body record reached table
  obtain ⟨exhaustedTable, exhaustedStatus⟩ :=
    starts.nulls_exhausted body record reached table
  have beforeTable := (starts.isTable table).1
  have beforeReached : entry.before.reachable = true := by
    rw [starts.before, (FlowState.withNonNull_eq used flow).1, reached]
  cases breaks : record.onBreak.reachable with
  | false =>
      simp only [LoopBody.left, LoopRecord.breaks, breaks, FlowState.merge, isReached,
        Bool.false_eq_true, if_false, Option.bind_none]
      exact ⟨exhaustedTable, exhaustedStatus⟩
  | true =>
      have alive : record.onBreak.isDeadEnd = false := by simp [FlowState.isDeadEnd, breaks]
      simp only [LoopBody.left, LoopRecord.breaks, breaks, FlowState.merge, FlowState.afterRun,
        alive, isReached, beforeReached, if_true, Bool.false_eq_true, if_false, Option.bind_some,
        FlowState.status?]
      refine ⟨NullFacts.isTable_join _ _, fun id => ?_⟩
      simp only [FlowState.nullStatus, NullFacts.status_join,
        NullFacts.status_override own.isTable]
      have exhausted_ := exhaustedStatus id
      simp only [FlowState.nullStatus] at exhausted_
      rw [exhausted_]
      rfl

end LoopEntry.Starts

/-- States that agree in all that is known are equal. -/
theorem FlowState.eq_of_known
    {first second : FlowState}
    (reachable : first.reachable = second.reachable)
    (definite : first.definite = second.definite)
    (potential : ∀ id, first.potential.contains id = second.potential.contains id)
    (table : first.nulls.IsTable)
    (otherTable : second.nulls.IsTable)
    (status : ∀ id, first.nullStatus id = second.nullStatus id) :
    first = second := by
  have samePotential := VarSet.ext potential
  have sameNulls := table.ext otherTable status
  cases first
  cases second
  simp only at reachable definite samePotential sameNulls
  rw [reachable, definite, samePotential, sameNulls]

section Rounds

variable
  {definite potential : VarSet}
  {first second : Option FlowState}

/-- The same is known about references on a path of both rounds. -/
theorem status?_of_gains
    (gains : Option.Rel (FlowState.Gains definite potential) first second)
    (id : LocalId) :
    second.bind (·.status? id) = first.bind (·.status? id) := by
  cases gains with
  | none => rfl
  | some gains =>
      simp only [Option.bind_some, FlowState.status?, FlowState.nullStatus, gains.reachable,
        gains.nulls]

/-- What is assigned on a path of the second round is assigned on that path of the first
round, or before the second one. -/
theorem potential_of_gains
    (gains : Option.Rel (FlowState.Gains definite potential) first second)
    {id : LocalId}
    (assigned : second.any (·.potential.contains id) = true) :
    first.any (·.potential.contains id) = true ∨ potential.contains id = true := by
  cases gains with
  | none => exact .inl assigned
  | some gains =>
      cases gains with
      | dead => exact .inl assigned
      | live _ => simpa using assigned

end Rounds

/-- Another round from where a loop has been left leaves it in the same state. -/
theorem left_again
    {entry other : LoopEntry}
    {flow : FlowState}
    {used evaluated : List LocalId}
    {element : Option LocalId}
    {body otherBody : LoopBody}
    {record otherRecord : LoopRecord}
    (reached : flow.reachable = true)
    (table : flow.nulls.IsTable)
    (starts : entry.Starts flow used evaluated element)
    (startsAgain : other.Starts (body.left entry record) used evaluated element)
    (own : record.onBreak.Gains entry.entered.definite entry.entered.potential record.onBreak)
    (otherOwn : otherRecord.onBreak.Gains other.entered.definite other.entered.potential
      otherRecord.onBreak)
    (breaks : Option.Rel (FlowState.Gains (body.left entry record).definite
      (body.left entry record).potential) record.breaks otherRecord.breaks)
    (returns : Option.Rel (FlowState.Gains (body.left entry record).definite
      (body.left entry record).potential) (body.returns record)
      (otherBody.returns otherRecord)) :
    otherBody.left other otherRecord = body.left entry record := by
  obtain ⟨isReached, definite, possible⟩ := starts.assigned_left body record reached table own
  obtain ⟨leftTable, status⟩ := starts.nulls_left body record reached table own
  obtain ⟨otherReached, otherDefinite, otherPossible⟩ :=
    startsAgain.assigned_left otherBody otherRecord isReached leftTable otherOwn
  obtain ⟨otherTable, otherStatus⟩ :=
    startsAgain.nulls_left otherBody otherRecord isReached leftTable otherOwn
  refine FlowState.eq_of_known (otherReached.trans isReached.symm) ?_ (fun id => ?_) otherTable
    leftTable (fun id => ?_)
  · rw [otherDefinite, startsAgain.definite, definite, starts.definite]
    ext id
    simp only [VarSet.contains_insertBinding, Bool.or_assoc, Bool.or_self]
  · have element : element = some id → (body.left entry record).potential.contains id = true := by
      intro isElement
      simp [possible, starts.potential, VarSet.contains_insertBinding, isElement]
    have broken : otherRecord.breaks.any (·.potential.contains id) = true →
        (body.left entry record).potential.contains id = true := by
      intro assigned
      rcases potential_of_gains breaks assigned with earlier | before
      · simp [possible, earlier]
      · exact before
    have returned : (otherBody.returns otherRecord).any (·.potential.contains id) = true →
        (body.left entry record).potential.contains id = true := by
      intro assigned
      rcases potential_of_gains returns assigned with earlier | before
      · simp [possible, earlier]
      · exact before
    rw [otherPossible, startsAgain.potential, VarSet.contains_insertBinding]
    cases isLeft : (body.left entry record).potential.contains id with
    | true => simp
    | false =>
        simp only [isLeft, Bool.false_eq_true, imp_false, Bool.not_eq_true] at element broken returned
        simp [element, broken, returned]
  · obtain ⟨before, entered⟩ := starts.nullStatus id
    obtain ⟨otherBefore, otherEntered⟩ := startsAgain.nullStatus id
    have known := status id
    rw [otherStatus id, status?_of_gains breaks id, status?_of_gains returns id, otherEntered,
      otherBefore]
    rw [entered, before] at known
    by_cases isUsed : id ∈ used
    · simp only [isUsed, if_true] at known ⊢
      exact known.symm
    · by_cases isEvaluated : id ∈ evaluated
      · simp only [isUsed, isEvaluated, if_true, if_false] at known ⊢
        rw [known]
        exact NullStatus.afterLoop_again_nonNull _ _ _
      · simp only [isUsed, isEvaluated, if_false] at known ⊢
        rw [known]
        exact NullStatus.afterLoop_again _ _ _

/-! ### Loops -/

/-- Flow through the body of a loop that has been entered, if it has one. -/
def LoopEntry.analyzeAction
    (options : CompilerOptions)
    (action : Option Stmt)
    (entry : LoopEntry) :
    LoopBody :=
  match action with
  | some action => entry.analyzeBody options action
  | none => ⟨none, false, false, entry.body⟩

/-- Targets that come from the same ones are of the same kinds. -/
theorem JumpStack.gains_of_narrows
    {definite potential : VarSet} :
    ∀ {around first second : JumpStack},
      around.Narrows first →
      around.Narrows second →
      first.Gains definite potential (around.map fun _ => false) second
  | [], [], [], _, _ => .nil
  | .loop _ :: _, .loop _ :: _, .loop _ :: _, narrows, others =>
      .cons (.loop fun tracked => nomatch tracked) (gains_of_narrows narrows.2 others.2)
  | .label _ :: _, .label _ :: _, .label _ :: _, narrows, others =>
      .cons (.label (others.1.1.trans narrows.1.1.symm) (others.1.2.1.trans narrows.1.2.1.symm)
        fun tracked => nomatch tracked) (gains_of_narrows narrows.2 others.2)

section Loops

variable
  (options : CompilerOptions)
  (span : Span)
  (element : LocalDecl)
  (collection : Expr)
  (action : Option Stmt)
  {facts : LoopFacts}
  {scope : ScopeId}

/-- Where a loop is left depends on how it is entered and on what its body records for it. -/
theorem flow_analyzeLoop
    (isScope : facts.scope = some scope)
    (point : FlowPoint) :
    ∃ record rest,
      ((enterLoop options scope element collection point).analyzeAction options
        action).finish.jumps = .loop record :: rest ∧
      (analyzeStmt options (.forEach span element collection action facts) point).point.flow =
        ((enterLoop options scope element collection point).analyzeAction options action).left
          (enterLoop options scope element collection point) record := by
  obtain ⟨jumps, -, isEntered⟩ := (enters_enterLoop options scope element collection point).jumps
  have narrows : (enterLoop options scope element collection point).body.jumps.Narrows
      ((enterLoop options scope element collection point).analyzeAction options
        action).finish.jumps := by
    cases action with
    | none => exact .refl _
    | some action => exact narrows_analyzeBody options action _
  rw [isEntered] at narrows
  obtain ⟨record, rest, isPushed, -⟩ := narrows.exists_loop
  have left := leaveLoop_eq options element (facts.met point.flow.reachable)
    (enterLoop options scope element collection point)
    ((enterLoop options scope element collection point).analyzeAction options action) isPushed
  refine ⟨record, rest, isPushed, ?_⟩
  have leaves := congrArg (fun exit : LoopExit => exit.point.flow) left
  cases action with
  | none =>
      simp only [analyzeStmt, isScope]
      exact leaves
  | some action =>
      simp only [analyzeStmt, isScope]
      exact leaves

/-- The body of a loop gains what is assigned where it is entered in addition. -/
theorem gains_analyzeAction
    {definite potential : VarSet}
    {point other : FlowPoint}
    (types : ∀ id, (other.state.localAt id).type = (point.state.localAt id).type)
    {around : JumpStack}
    (narrows : around.Narrows point.jumps)
    (otherNarrows : around.Narrows other.jumps)
    (gains : (enterLoop options scope element collection point).body.flow.Gains definite potential
      (enterLoop options scope element collection other).body.flow)
    (reached : point.flow.reachable = true) :
    ((enterLoop options scope element collection other).analyzeAction options action).analyzed =
        ((enterLoop options scope element collection point).analyzeAction options
          action).analyzed ∧
      ((enterLoop options scope element collection point).analyzeAction options
        action).finish.Gains definite potential (true :: around.map fun _ => false)
        ((enterLoop options scope element collection other).analyzeAction options
          action).finish := by
  have enters := enters_enterLoop options scope element collection point
  obtain ⟨jumps, kept, isPushed⟩ := enters.jumps
  obtain ⟨otherJumps, otherKept, isOther⟩ :=
    (enters_enterLoop options scope element collection other).jumps
  have marks := marks_enterLoop options scope element collection point
  have otherMarks := marks_enterLoop options scope element collection other
  have body : (enterLoop options scope element collection point).body.Gains definite potential
      (true :: around.map fun _ => false)
      (enterLoop options scope element collection other).body := by
    refine ⟨gains, fun id => ?_, ?_⟩
    · rw [marks.type_eq, otherMarks.type_eq]
      exact types id
    · rw [isPushed, isOther]
      exact .cons (.loop fun _ => ⟨.dead, .dead⟩)
        (JumpStack.gains_of_narrows (narrows.trans kept) (otherNarrows.trans otherKept))
  cases action with
  | none => exact ⟨rfl, body⟩
  | some action =>
      exact gains_analyzeBody options (fun gains reached => gains_analyzeStmt options action gains
        reached) body (enters.bodyReachable.trans reached)

/-- What every break out of a loop has assigned includes what is assigned where the loop is
entered. -/
theorem gains_onBreak
    {point : FlowPoint}
    (reached : point.flow.reachable = true)
    {record : LoopRecord}
    {rest : JumpStack}
    (isPushed : ((enterLoop options scope element collection point).analyzeAction options
      action).finish.jumps = .loop record :: rest) :
    record.onBreak.Gains (enterLoop options scope element collection point).entered.definite
      (enterLoop options scope element collection point).entered.potential record.onBreak := by
  have enters := enters_enterLoop options scope element collection point
  have own := FlowState.gains_self (enters.bodyReachable.trans reached)
    (show (enterLoop options scope element collection point).body.flow.nulls.IsTable from
      NullFacts.isTable_nil)
  obtain ⟨-, finish⟩ := gains_analyzeAction options element collection action (fun _ => rfl)
    (.refl point.jumps) (.refl point.jumps) own reached
  obtain ⟨other, others, isOther, ⟨onBreak, -⟩, -⟩ := finish.jumps.exists_loop isPushed
  rw [isPushed] at isOther
  cases isOther
  exact onBreak

/-- The body of a loop starts alike where the loop has been left, except that whatever is
assigned there is assigned in addition. -/
theorem gains_body_again
    {point other : FlowPoint}
    {used evaluated : List LocalId}
    {left : FlowState}
    (reached : point.flow.reachable = true)
    (isReached : left.reachable = true)
    (definite : left.definite = (enterLoop options scope element collection point).entered.definite)
    (potential : ∀ id,
      (enterLoop options scope element collection point).entered.potential.contains id = true →
        left.potential.contains id = true)
    (starts : (enterLoop options scope element collection point).Starts point.flow used evaluated
      element.binding)
    (startsAgain : (enterLoop options scope element collection other).Starts left used evaluated
      element.binding) :
    (enterLoop options scope element collection point).body.flow.Gains left.definite left.potential
      (enterLoop options scope element collection other).body.flow := by
  refine .ofReached (starts.reachable.trans reached) (startsAgain.reachable.trans isReached) ?_ ?_
    rfl NullFacts.isTable_nil
  · change (enterLoop options scope element collection other).entered.definite =
      (enterLoop options scope element collection point).entered.definite.union left.definite
    rw [startsAgain.definite, definite, starts.definite]
    ext id
    simp only [VarSet.contains_union, VarSet.contains_insertBinding, Bool.or_assoc, Bool.or_self]
  · change (enterLoop options scope element collection other).entered.potential =
      (enterLoop options scope element collection point).entered.potential.union left.potential
    rw [startsAgain.potential]
    ext id
    have within := potential id
    simp only [VarSet.contains_union, VarSet.contains_insertBinding, starts.potential] at within ⊢
    cases isLeft : left.potential.contains id with
    | true => simp
    | false =>
        simp only [isLeft, Bool.false_eq_true, imp_false, Bool.not_eq_true,
          Bool.or_eq_false_iff] at within
        simp only [within.1, within.2, Bool.or_self]

/-- The body of a loop comes back on the same paths. -/
theorem gains_returns
    {definite potential : VarSet}
    {body otherBody : LoopBody}
    (sameAnalyzed : otherBody.analyzed = body.analyzed)
    (finish : body.finish.flow.Gains definite potential otherBody.finish.flow)
    {record otherRecord : LoopRecord}
    (onContinue : record.onContinue.Gains definite potential otherRecord.onContinue) :
    Option.Rel (FlowState.Gains definite potential) (body.returns record)
      (otherBody.returns otherRecord) := by
  obtain ⟨sameComesBack, backEdge⟩ := gains_backEdge sameAnalyzed finish onContinue
  simp only [LoopBody.returns, sameAnalyzed, sameComesBack]
  split
  · exact .some backEdge
  · exact .none

/-- A loop is broken out of on the same paths. -/
theorem gains_breaks
    {definite potential : VarSet}
    {record otherRecord : LoopRecord}
    (onBreak : record.onBreak.Gains definite potential otherRecord.onBreak) :
    Option.Rel (FlowState.Gains definite potential) record.breaks otherRecord.breaks := by
  simp only [LoopRecord.breaks, onBreak.reachable]
  split
  · exact .some onBreak
  · exact .none

/-- A loop from where it has been left is left there again. -/
theorem flow_analyzeLoop_again
    (isScope : facts.scope = some scope)
    (noInitial : element.initial = none)
    (reads : collection.assigns = false)
    {point other : FlowPoint}
    (types : ∀ id, (other.state.localAt id).type = (point.state.localAt id).type)
    (narrows : point.jumps.Narrows other.jumps)
    (reached : point.flow.reachable = true)
    (table : point.flow.nulls.IsTable)
    (isLeft : other.flow =
      (analyzeStmt options (.forEach span element collection action facts) point).point.flow) :
    (analyzeStmt options (.forEach span element collection action facts) other).point.flow =
      other.flow := by
  obtain ⟨record, rest, isPushed, left⟩ :=
    flow_analyzeLoop options span element collection action isScope point
  obtain ⟨otherRecord, otherRest, isOther, otherLeft⟩ :=
    flow_analyzeLoop options span element collection action isScope other
  have isLeft := isLeft.trans left
  have starts := (starts_enterLoop options scope noInitial reads reached).1
  have own := gains_onBreak options element collection action reached isPushed
  obtain ⟨isReached, definite, potential⟩ := starts.assigned_left _ record reached table own
  have otherReached : other.flow.reachable = true := by
    rw [isLeft]
    exact isReached
  have startsAgain := (starts_enterLoop options scope noInitial reads otherReached).1
  have sameTracks : other.tracksNull options = point.tracksNull options := by
    funext id
    simp only [FlowPoint.tracksNull, types]
  rw [sameTracks, isLeft] at startsAgain
  have otherOwn := gains_onBreak options element collection action otherReached isOther
  have bodies := gains_body_again options element collection reached isReached definite
    (fun id member => by rw [potential, member]; rfl) starts startsAgain
  obtain ⟨sameAnalyzed, finish⟩ := gains_analyzeAction options element collection action types
    (.refl point.jumps) narrows bodies reached
  obtain ⟨sameRecord, others, isSame, ⟨onBreak, onContinue⟩, -⟩ :=
    finish.jumps.exists_loop isPushed
  rw [isOther] at isSame
  cases isSame
  rw [otherLeft, isLeft]
  exact left_again reached table starts startsAgain own otherOwn (gains_breaks onBreak)
    (gains_returns sameAnalyzed finish.flow onContinue)

/-- The state in which a loop is left is one that the loop does not change any more: analyzed
again from there, the loop is left in the same state. It does so for every loop that name
resolution has met, whatever its body does and wherever it stands. -/
theorem exitState_isFixed
    (table : ClassTable)
    {stmt : Stmt}
    {state : MethodState}
    (resolved : (checkStmt table options scope stmt state).node =
      .forEach span element collection action facts)
    (noInitial : element.initial = none)
    (reads : collection.assigns = false)
    {point : FlowPoint}
    (built : point.flow.IsBuilt)
    (reached : point.flow.reachable = true)
    {first : Flowed Stmt}
    (isFirst : analyzeStmt options (.forEach span element collection action facts) point = first) :
    (analyzeStmt options first.node first.point).point.flow = first.point.flow := by
  subst isFirst
  have haveScopes := scoped_checkStmt table options stmt scope state
  rw [resolved] at haveScopes
  have isScoped : ∃ scope, facts.scope = some scope := by
    refine haveScopes (element, facts) ?_
    cases action <;> simp [Stmt.heads]
  obtain ⟨ownScope, isScope⟩ := isScoped
  have marks := marks_analyzeStmt options (.forEach span element collection action facts) point
  have narrows := narrows_analyzeStmt options (.forEach span element collection action facts)
    reached
  obtain ⟨record, rest, isPushed, left⟩ :=
    flow_analyzeLoop options span element collection action isScope point
  have leftReached : (analyzeStmt options (.forEach span element collection action facts)
      point).point.flow.reachable = true := by
    rw [left]
    exact ((starts_enterLoop options ownScope noInitial reads reached).1.assigned_left _ record
      reached built.isTable
      (gains_onBreak options element collection action reached isPushed)).1
  rw [point_analyzeStmt_again options haveScopes point leftReached]
  exact flow_analyzeLoop_again options span element collection action isScope noInitial reads
    marks.type_eq narrows reached built.isTable rfl

end Loops

/-- A loop that looks for an element and is left when it has found one. -/
def Stmt.findsOne :
    Stmt :=
  .forEach .absent ⟨⟨"x", .absent⟩, .named .absent "int", none, false, none⟩
    (.newArray .absent (.named .absent "int") [.intLit .absent 1, .intLit .absent 2])
    (some (.branch .absent (.binary .absent .eq (.name .absent (.unbound "x")) (.intLit .absent 1))
      (.breakTo .absent none) none))
    .initial

/-- A loop that is left at a break or at its end is left in the same state again. -/
theorem findsOne_exitState :
    ∃ element collection action facts,
      (checkStmt .builtin .standard MethodScope.root Stmt.findsOne .initial).node =
        .forEach .absent element collection action facts ∧
      element.initial = none ∧ collection.assigns = false ∧ FlowState.initial.IsBuilt ∧
      FlowState.initial.reachable = true ∧
      ∃ first, analyzeStmt .standard (.forEach .absent element collection action facts)
          ⟨.initial, (checkStmt .builtin .standard MethodScope.root Stmt.findsOne .initial).state,
            []⟩ = first ∧
        (analyzeStmt .standard first.node first.point).point.flow = first.point.flow := by
  have resolved : ∃ element collection action facts,
      (checkStmt .builtin .standard MethodScope.root Stmt.findsOne .initial).node =
        .forEach .absent element collection action facts ∧
      element.initial = none ∧ collection.assigns = false := ⟨_, _, _, _, rfl, rfl, rfl⟩
  obtain ⟨element, collection, action, facts, isLoop, noInitial, reads⟩ := resolved
  exact ⟨element, collection, action, facts, isLoop, noInitial, reads, .initial, rfl, _, rfl,
    exitState_isFixed .standard .absent element collection action .builtin isLoop noInitial reads
      .initial rfl rfl⟩

end LoopLowering
