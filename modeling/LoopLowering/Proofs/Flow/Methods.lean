import LoopLowering.Proofs.Flow.Runs
import LoopLowering.Proofs.Locals.Layout
import LoopLowering.Proofs.Resolution.Methods

namespace LoopLowering

/-!
# Methods without errors

What code generation can rely on in a method without errors: the judgements on
its body hold, and exactly the locals with reason to exist have frame slots.
-/

namespace CodeContext

variable
  {table : ClassTable}
  {options : CompilerOptions}
  {method : Method}

/-- What code generation knows about a local is what flow analysis left, with a
slot if the local exists. -/
theorem hasSlot_loweringContext
    {id : Nat}
    (known : id < (loweringContext table options method).scope.locals.size) :
    (loweringContext table options method).hasSlot id =
      ((loweringContext table options method).localAt id).isMaterialized
        options.keepUnusedLocals := by
  have sameCount := (marks_assignSlots options.keepUnusedLocals
    (analyzedMethod table options method).state).sameCount
  have knownBefore : id < (analyzedMethod table options method).state.scope.locals.size := by
    rw [← sameCount]
    exact known
  have slotted := MethodScope.localAt_assignSlots options.keepUnusedLocals
    (analyzedMethod table options method).state.scope id
  rw [if_pos knownBefore] at slotted
  change (((analyzedMethod table options method).state.scope.assignSlots
    options.keepUnusedLocals).localAt id).slot.isSome =
      (((analyzedMethod table options method).state.scope.assignSlots
        options.keepUnusedLocals).localAt id).isMaterialized options.keepUnusedLocals
  rw [slotted]
  exact MethodScope.slotFor_isSome _ _ _

/-- Only locals of the method have slots. -/
theorem known_of_hasSlot
    {context : CodeContext}
    {id : Nat}
    (hasSlot : context.hasSlot id = true) :
    id < context.scope.locals.size := by
  rcases Nat.lt_or_ge id context.scope.locals.size with known | unknown
  · exact known
  · have isDefault : context.localAt id = default :=
      MethodScope.localAt_unknown (Nat.not_lt.mpr unknown)
    rw [CodeContext.hasSlot, isDefault] at hasSlot
    exact Bool.noConfusion hasSlot

/-- Only locals with reason to exist have slots. -/
theorem economical_loweringContext :
    (loweringContext table options method).Economical options := by
  intro id hasSlot
  rw [← hasSlot_loweringContext (known_of_hasSlot hasSlot)]
  exact hasSlot

end CodeContext

/-- Parameters are bound to the first locals, in order. -/
theorem bindings_checkParams
    (table : ClassTable) :
    ∀ (params : List Param) (state : MethodState) (index : Nat) (param : Param),
      (checkParams table params state).node[index]? = some param →
      param.binding = some (state.scope.locals.size + index)
  | [], _, _, _, found => by
      simp [checkParams] at found
  | first :: rest, state, 0, param, found => by
      simp only [checkParams, List.getElem?_cons_zero, Option.some.injEq] at found
      subst found
      have marks := marks_resolveType table first.type state
      have declared := CodeContext.size_declareLocal MethodScope.root
        { LocalVariable.declared first.name.node (resolveType table first.type state).1
            first.name.span with isParam := true, isFinal := first.isFinal }
        (resolveType table first.type state).2
      rw [marks.sameCount] at declared
      exact congrArg some declared.1
  | first :: rest, state, index + 1, param, found => by
      simp only [checkParams, List.getElem?_cons_succ] at found
      have marks := marks_resolveType table first.type state
      have declared := CodeContext.size_declareLocal MethodScope.root
        { LocalVariable.declared first.name.node (resolveType table first.type state).1
            first.name.span with isParam := true, isFinal := first.isFinal }
        (resolveType table first.type state).2
      rw [marks.sameCount] at declared
      have bound := bindings_checkParams table rest _ index param found
      rw [bound, declared.2]
      congr 1
      omega

section Methods

variable
  {strict : Bool}
  {table : ClassTable}
  {options : CompilerOptions}
  {method : Method}

/-- Where the body of a method starts, its parameters are assigned. -/
def Method.parameterSet
    (table : ClassTable)
    (options : CompilerOptions)
    (method : Method) :
    VarSet :=
  (FlowPoint.atBody (checkMethod table options method .initial).node.params
    (checkMethod table options method .initial).state).flow.definite

/-- A local that is declared before parameters is a parameter if it is declared
as one. -/
theorem isParam_declareLocal
    (table : ClassTable)
    (rest : List Param)
    (block : Nat)
    (entry : LocalVariable)
    (state : MethodState) :
    (declareLocal block entry state).1 <
        (checkParams table rest (declareLocal block entry state).2).state.scope.locals.size ∧
      ((checkParams table rest (declareLocal block entry state).2).state.localAt
        (declareLocal block entry state).1).isParam = entry.isParam := by
  obtain ⟨isNext, size⟩ := CodeContext.size_declareLocal block entry state
  have known : (declareLocal block entry state).1 <
      (declareLocal block entry state).2.scope.locals.size := by
    rw [isNext, size]
    exact Nat.lt_succ_self _
  have isEntry : ((declareLocal block entry state).2.localAt
      (declareLocal block entry state).1).isParam = entry.isParam := by
    change (((state.reportIf _ _ _).scope.declare block entry).localAt
      (state.reportIf _ _ _).scope.locals.size).isParam = _
    rw [MethodScope.localAt_declare, if_pos rfl]
  have grows := (@MethodState.leads_checkParams table rest
    (declareLocal block entry state).2).scope
  exact ⟨Nat.lt_of_lt_of_le known grows.localCount,
    (grows.persists _ known).isParam.trans isEntry⟩

/-- Parameters are bound to locals that are parameters. -/
theorem isParam_checkParams
    (table : ClassTable) :
    ∀ (params : List Param) (state : MethodState),
      ∀ param ∈ (checkParams table params state).node, ∀ id, param.binding = some id →
        id < (checkParams table params state).state.scope.locals.size ∧
          ((checkParams table params state).state.localAt id).isParam = true
  | [], _, _, member => by
      simp [checkParams] at member
  | first :: rest, state, param, member => by
      intro id isBound
      simp only [checkParams, List.mem_cons] at member isBound ⊢
      rcases member with rfl | further
      · obtain rfl := Option.some.inj isBound
        exact isParam_declareLocal table rest _ _ _
      · exact isParam_checkParams table rest _ param further id isBound

/-- What is assigned where the body of a method starts are parameters. -/
theorem Method.isParam_parameterSet
    {id : Nat}
    (member : (method.parameterSet table options).contains id = true) :
    id < (method.bodyState table).scope.locals.size ∧
      ((method.bodyState table).localAt id).isParam = true := by
  have assigned : ∀ (ids : List LocalId) (flow : FlowState),
      (ids.foldl (fun flow id => flow.assign id) flow).definite.contains id = true →
      id ∈ ids ∨ flow.definite.contains id = true := by
    intro ids
    induction ids with
    | nil =>
        exact fun _ isKnown => .inr isKnown
    | cons first rest inductionHypothesis =>
        intro flow isKnown
        rcases inductionHypothesis (flow.assign first) isKnown with further | isFirst
        · exact .inl (List.mem_cons_of_mem _ further)
        · have either : flow.definite.contains id = true ∨ first = id := by
            simpa [FlowState.assign] using isFirst
          rcases either with before | rfl
          · exact .inr before
          · exact .inl List.mem_cons_self
  rcases assigned _ _ member with isBound | none
  · obtain ⟨param, isParam, isBinding⟩ := List.mem_filterMap.mp isBound
    exact isParam_checkParams table method.params _ param isParam id isBinding
  · simp [FlowState.initial] at none

/-- The start of a body is reached. -/
theorem reachable_atBody
    (params : List Param)
    (state : MethodState) :
    (FlowPoint.atBody params state).flow.reachable = true := by
  have step : ∀ (ids : List LocalId) (flow : FlowState),
      flow.reachable = true →
      (ids.foldl (fun flow id => flow.assign id) flow).reachable = true := by
    intro ids
    induction ids with
    | nil =>
        exact fun _ reached => reached
    | cons id rest inductionHypothesis =>
        exact fun flow reached => inductionHypothesis (flow.assign id) reached
  exact step _ _ rfl

/-- The analyzed body of a method. -/
def Method.analyzedBody
    (table : ClassTable)
    (options : CompilerOptions)
    (method : Method) :
    FlowedList :=
  analyzeStmts options (checkMethod table options method .initial).node.body.stmts
    (.atBody (checkMethod table options method .initial).node.params
      (checkMethod table options method .initial).state)

/-- Completing a method keeps its locals. -/
theorem scope_analyzedMethod
    (table : ClassTable)
    (options : CompilerOptions)
    (method : Method) :
    (analyzedMethod table options method).state.scope =
      (method.analyzedBody table options).point.state.scope := by
  change ((checkCompletion _ _ _).scope) = _
  simp only [checkCompletion, MethodState.reportIf]
  split <;> rfl

/-- The resolved body of a method without errors is resolved. -/
theorem resolved_body
    (tableSound : table.Sound strict)
    (allowed : method.isAllowed strict = true)
    (clean : (analyzedMethod table options method).state.Clean) :
    (loweringContext table options method).AllResolved strict
        (checkMethod table options method .initial).node.body.stmts MethodScope.root
        (method.bodyState table).scope.locals.size ∧
      (loweringContext table options method).scope.locals.size =
        (method.bodyState table).scope.locals.size +
          Stmt.localCounts (checkMethod table options method .initial).node.body.stmts := by
  have settles := settles_loweringContext clean
  have bodyLeads := leads_checkStmts table options method.body.stmts MethodScope.root
    (method.bodyState table)
  obtain ⟨bodySound, -⟩ := Method.sound_bodyState tableSound allowed
    (bodyLeads.isClean settles.isClean)
  have sound := sound_loweringContext tableSound allowed clean
  simp only [Method.isAllowed, Bool.and_eq_true] at allowed
  obtain ⟨resolved, size⟩ := CodeContext.resolved_checkStmts sound bodySound
    bodySound.wellFormed.root allowed.2 settles
  exact ⟨resolved, (marks_loweringContext table options method).sameCount.trans size⟩

/-- What is known about the locals at the start of a body is settled. -/
theorem agrees_body
    (tableSound : table.Sound strict)
    (allowed : method.isAllowed strict = true)
    (clean : (analyzedMethod table options method).state.Clean) :
    (loweringContext table options method).Agrees
      (checkMethod table options method .initial).state where
  count := (marks_loweringContext table options method).sameCount.symm
  isUsed := by
    intro id isSource
    obtain ⟨resolved, -⟩ := resolved_body tableSound allowed clean
    have touches := @CodeContext.touchesOnly_analyzeStmts _ _ options _ _ _ resolved
      (.atBody (checkMethod table options method .initial).node.params
        (checkMethod table options method .initial).state) id (by
          rintro ⟨-, -, isSynthetic⟩
          exact absurd isSynthetic (by simp [isSource]))
    have slotted := MethodScope.localAt_assignSlots options.keepUnusedLocals
      (analyzedMethod table options method).state.scope id
    change (((analyzedMethod table options method).state.scope.assignSlots
      options.keepUnusedLocals).localAt id).isUsed = _
    rw [slotted, scope_analyzedMethod]
    split
    · exact touches
    · next unknown =>
        have marks := marks_analyzeStmts options
          (checkMethod table options method .initial).node.body.stmts
          (.atBody (checkMethod table options method .initial).node.params
            (checkMethod table options method .initial).state)
        rw [Method.analyzedBody, marks.sameCount] at unknown
        exact (congrArg LocalVariable.isUsed (MethodScope.localAt_unknown unknown)).symm

/-- Between the end of a body and code generation, slots are assigned. -/
theorem marks_analyzedBody
    (table : ClassTable)
    (options : CompilerOptions)
    (method : Method) :
    (method.analyzedBody table options).point.state.Marks
      (loweringContext table options method).state := by
  have completed : (method.analyzedBody table options).point.state.Marks
      { (method.analyzedBody table options).point.state with
        completesNormally := (method.analyzedBody table options).point.flow.reachable } :=
    ⟨⟨.refl _, rfl, rfl, fun _ => id⟩, rfl, rfl⟩
  exact (completed.trans (MethodState.marks_reportIf _ _ _ _)).trans (marks_assignSlots _ _)

/-- The body of a method without errors runs. -/
theorem runs_body
    (tableSound : table.Sound strict)
    (allowed : method.isAllowed strict = true)
    (clean : (analyzedMethod table options method).state.Clean) :
    (method.analyzedBody table options).unreachableFrom = none ∧
      (loweringContext table options method).AllRun (method.analyzedBody table options).nodes []
        (method.parameterSet table options)
        (.after (method.analyzedBody table options).point.flow) := by
  obtain ⟨resolved, -⟩ := resolved_body tableSound allowed clean
  have reached := reachable_atBody (checkMethod table options method .initial).node.params
    (checkMethod table options method .initial).state
  have narrows := narrows_analyzeStmts options
    (checkMethod table options method .initial).node.body.stmts reached
  have fits : (method.analyzedBody table options).point.jumps.Fits [] := by
    change JumpStack.Narrows [] (method.analyzedBody table options).point.jumps at narrows
    cases jumps : (method.analyzedBody table options).point.jumps with
    | nil =>
        trivial
    | cons record rest =>
        rw [jumps] at narrows
        exact narrows.elim
  exact CodeContext.runs_analyzeStmts CodeContext.economical_loweringContext resolved reached
    (agrees_body tableSound allowed clean)
    ⟨(marks_analyzedBody table options method).toLeads, clean⟩ fits (FlowExit.follows_after _)

/-- A method without errors does not end without the result it has to return. -/
theorem completesNormally_loweringContext
    (clean : (analyzedMethod table options method).state.Clean) :
    (loweringContext table options method).state.completesNormally =
        (method.analyzedBody table options).point.flow.reachable ∧
      ((method.analyzedBody table options).point.flow.reachable = true →
        (loweringContext table options method).state.returnType = .void ∨
          (loweringContext table options method).state.returnType.isUnknown = true) := by
  have sameType : (loweringContext table options method).state.returnType =
      (method.analyzedBody table options).point.state.returnType :=
    (marks_analyzedBody table options method).returnType
  have reported := (MethodState.clean_reportIf _ rfl _ _).mp clean
  constructor
  · change (checkCompletion _ _ _).completesNormally = _
    simp only [checkCompletion, MethodState.reportIf]
    split <;> rfl
  · intro completes
    rw [sameType]
    have harmless := reported.1
    change ((method.analyzedBody table options).point.flow.reachable &&
      (method.analyzedBody table options).point.state.returnType != Ty.void &&
      !(method.analyzedBody table options).point.state.returnType.isUnknown) = false at harmless
    rw [completes] at harmless
    simpa [or_comm, Classical.or_iff_not_imp_left] using harmless

end Methods

end LoopLowering
