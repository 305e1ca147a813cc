import LoopLowering.Proofs.Flow.ExactAnalysis
import LoopLowering.Proofs.Resolution.ReservedNames

namespace LoopLowering

/-!
# Reads of locals that are not assigned

The read of a local is reported as not initialized exactly if some execution of the
method reads it there before it is assigned.
-/

/-- Some execution of a method reads a local at a position before it is assigned.
The parameters are assigned first of all. -/
def Method.ReadsUnassigned
    (method : Method)
    (span : Span)
    (id : LocalId) :
    Prop :=
  ∃ trace outcome, Stmt.allBehaviour method.body.stmts trace outcome ∧
    LocalTrace.ReadsEarly span id
      ((method.params.filterMap Param.binding).map .assign ++ trace)

/-- Where the body of a method starts, everything but the parameters is missed. -/
theorem misses_atBody
    (params : List Param)
    (state : MethodState)
    (id : LocalId) :
    (FlowPoint.atBody params state).flow.Misses id ↔
      LocalTrace.Skips id ((params.filterMap Param.binding).map .assign) := by
  have step : ∀ (ids : List LocalId) (flow : FlowState),
      (ids.foldl (fun flow id => flow.assign id) flow).Misses id ↔
        flow.Misses id ∧ LocalTrace.Skips id (ids.map .assign) := by
    intro ids
    induction ids with
    | nil =>
        intro flow
        simp
    | cons first rest inductionHypothesis =>
        intro flow
        rw [List.foldl_cons, inductionHypothesis, FlowState.misses_assign, and_assoc]
        refine and_congr_right fun _ => ?_
        simp only [LocalTrace.Skips, List.map_cons, List.mem_cons, LocalStep.assign.injEq, not_or]
        exact and_congr_left fun _ => ⟨Ne.symm, Ne.symm⟩
  refine (step _ .initial).trans (and_iff_right ?_)
  exact ⟨rfl, VarSet.contains_empty id⟩

/-- Parameters are assigned without a read. -/
theorem not_readsEarly_params
    (ids : List LocalId)
    (span : Span)
    (id : LocalId) :
    ¬LocalTrace.ReadsEarly span id (ids.map .assign) := by
  intro reads
  obtain ⟨assigned, -, isRead⟩ := List.mem_map.mp reads.mem
  cases isRead

section Methods

variable
  {table : ClassTable}
  {options : CompilerOptions}
  {method : Method}

/-- The read of a local is reported as not initialized exactly if some execution
reads a local of that name there before it is assigned. -/
theorem reportsRead_iff
    (clean : (checkMethod table options method .initial).state.Clean)
    (uninitialized : method.elementsUninitialized = true)
    (name : String)
    (span : Span) :
    (Issue.uninitialized name).diagnostic span ∈
        (analyzedMethod table options method).state.diagnostics ↔
      ∃ id, ((checkMethod table options method .initial).state.localAt id).name = name ∧
        (checkMethod table options method .initial).node.ReadsUnassigned span id := by
  have wellFormed := method.wellFormed_bodyState table
  obtain ⟨-, confines⟩ := @confines_checkStmts table options method.body.stmts MethodScope.root
    (method.bodyState table) wellFormed wellFormed.root
  have heads : ∀ head ∈ Stmt.allHeads (checkMethod table options method .initial).node.body.stmts,
      head.1.initial = none := fun head member =>
    initial_checkMethod table options uninitialized member
  have follows : FlowPoint.Exact
      (Stmt.allElements (checkMethod table options method .initial).node.body.stmts)
      (.atBody (checkMethod table options method .initial).node.params
        (checkMethod table options method .initial).state)
      (analyzeStmts options (checkMethod table options method .initial).node.body.stmts
        (.atBody (checkMethod table options method .initial).node.params
          (checkMethod table options method .initial).state)).point
      (Stmt.allBehaviour (checkMethod table options method .initial).node.body.stmts) :=
    exact_analyzeStmts confines heads
  have notYet : ¬(FlowPoint.atBody (checkMethod table options method .initial).node.params
      (checkMethod table options method .initial).state).ReportsRead name span := by
    intro reported
    have isError : (checkMethod table options method .initial).state.diagnostics.hasErrors =
        true := Array.any_eq_true'.mpr ⟨_, reported, rfl⟩
    rw [MethodState.Clean, isError] at clean
    cases clean
  have completed : (Issue.uninitialized name).diagnostic span ∈
      (analyzedMethod table options method).state.diagnostics ↔
        (analyzeStmts options (checkMethod table options method .initial).node.body.stmts
          (.atBody (checkMethod table options method .initial).node.params
            (checkMethod table options method .initial).state)).point.ReportsRead name span := by
    simp only [analyzedMethod, analyzeMethod, checkCompletion, MethodState.reportIf]
    split
    · exact FlowPoint.reportsRead_report (by simp [Issue.problem]) _ _ name span
    · exact .rfl
  rw [completed, follows.reports, or_iff_right notYet]
  refine exists_congr fun id => and_congr_right fun _ => ?_
  rw [misses_atBody]
  simp only [Method.ReadsUnassigned, LocalTrace.readsEarly_append, not_readsEarly_params, false_or]
  constructor
  · rintro ⟨skips, trace, outcome, isTrace, reads⟩
    exact ⟨trace, outcome, isTrace, skips, reads⟩
  · rintro ⟨trace, outcome, isTrace, skips, reads⟩
    exact ⟨skips, trace, outcome, isTrace, reads⟩

end Methods

/-- A method that returns a number which only the body of a loop assigns. -/
def Method.returnsUnassigned :
    Method where
  name := ⟨"m", .absent⟩
  typeParams := []
  params := [⟨⟨"values", .absent⟩, .array .absent (.named .absent "int"), false, none⟩]
  returnType := some (.named .absent "int")
  body := {
    span := .absent
    stmts := [
      .localVar .absent ⟨⟨"last", .absent⟩, .named .absent "int", none, false, none⟩,
      .forEach .absent ⟨⟨"value", .absent⟩, .named .absent "int", none, false, none⟩
        (.name .absent (.unbound "values"))
        (some (.expr .absent (.assign .absent ⟨.unbound "last", .absent⟩ none
          (.name .absent (.unbound "value")))))
        .initial,
      .returnWith .absent (some (.name .absent (.unbound "last")))]
    facts := .initial
  }

/-- The loop may run out at once, and then the number is not assigned; its element
always is where it is read. -/
theorem returnsUnassigned_reportsRead :
    (checkMethod .builtin .standard .returnsUnassigned .initial).state.Clean ∧
      Method.returnsUnassigned.elementsUninitialized = true ∧
      (∃ id, ((checkMethod .builtin .standard .returnsUnassigned .initial).state.localAt
          id).name = "last" ∧
        (checkMethod .builtin .standard .returnsUnassigned .initial).node.ReadsUnassigned
          .absent id) ∧
      ¬∃ id, ((checkMethod .builtin .standard .returnsUnassigned .initial).state.localAt
          id).name = "value" ∧
        (checkMethod .builtin .standard .returnsUnassigned .initial).node.ReadsUnassigned
          .absent id := by
  have clean : (checkMethod .builtin .standard .returnsUnassigned .initial).state.Clean := by
    decide +kernel
  have uninitialized : Method.returnsUnassigned.elementsUninitialized = true := by
    decide +kernel
  have isReported : (Issue.uninitialized "last").diagnostic .absent ∈
      (analyzedMethod .builtin .standard .returnsUnassigned).state.diagnostics := by
    decide +kernel
  have notReported : (Issue.uninitialized "value").diagnostic .absent ∉
      (analyzedMethod .builtin .standard .returnsUnassigned).state.diagnostics := by
    decide +kernel
  exact ⟨clean, uninitialized, (reportsRead_iff clean uninitialized "last" .absent).mp isReported,
    fun reads => notReported ((reportsRead_iff clean uninitialized "value" .absent).mpr reads)⟩

end LoopLowering
