import LoopLowering.Proofs.Code.Completeness

namespace LoopLowering

/-!
# Methods have code

A method without errors is lowered exactly if each expression that its code
evaluates can be generated: what code generation can fail at beyond that, the
passes before it rule out.
-/

namespace CodeContext

/-- Opening the ranges of bound parameters adds no code. -/
theorem exists_openParams
    (context : CodeContext) :
    ∀ {params : List Param},
      (∀ param ∈ params, param.binding.isSome = true) →
      ∀ code, ∃ after, context.openParams params code = .ok after ∧ code.SameCode after
  | [], _, code => ⟨code, rfl, rfl, rfl⟩
  | param :: rest, bound, code => by
      obtain ⟨id, isBound⟩ := Option.isSome_iff_exists.mp (bound param (by simp))
      have othersBound : ∀ other ∈ rest, other.binding.isSome = true :=
        fun other member => bound other (by simp [member])
      obtain ⟨after, opened, same⟩ := exists_openParams context othersBound
        (code.openLocal context.scope id)
      refine ⟨after, by simpa [openParams, isBound] using opened, ?_⟩
      exact CodeStream.SameCode.trans (CodeStream.openLocal_same _ _ _) same

/-- A method without a result returns at the end of its body. -/
def returned
    (context : CodeContext)
    (code : CodeStream) :
    CodeStream :=
  if context.state.completesNormally && context.state.returnType == .void then
    code.emit (.returnWith none)
  else
    code

/-- The code of a method consists of that of its parameters and of its body. -/
theorem methodCode_eq_ok
    {context : CodeContext}
    {method : Method}
    {code : MethodCode} :
    context.methodCode method = .ok code ↔
      ∃ opened ran, context.openParams method.params .empty = .ok opened ∧
        context.pushStmts method.body.stmts method.body.facts.unreachableFrom [] MethodScope.root
          opened = .ok ran ∧
        ((context.returned ran).markSource opened.position method.body.span).finish context.scope
          method.name.node = .ok code := by
  simp only [methodCode, bind_eq_ok, returned, exists_and_left]

/-- Code that is complete is so with the return at the end of a method. -/
theorem appends_returned
    (context : CodeContext)
    {before code : CodeStream}
    (appends : CodeStream.Appends [] before code) :
    CodeStream.Appends [] before (context.returned code) := by
  simp only [returned]
  split
  · exact appends.emit _
  · exact appends

end CodeContext

namespace CodeStream

/-- Branch targets that are all placed have offsets. -/
theorem exists_placedLabels
    (name : String) :
    ∀ (label : Label) {labels : List (Option Nat)},
      (∀ placed ∈ labels, placed.isSome = true) →
      ∃ offsets, placedLabels name label labels = .ok offsets ∧ offsets.map some = labels
  | _, [], _ => ⟨[], rfl, rfl⟩
  | label, none :: _, placed => by
      simpa using placed none (by simp)
  | label, some offset :: rest, placed => by
      have othersPlaced : ∀ other ∈ rest, other.isSome = true :=
        fun other member => placed other (by simp [member])
      obtain ⟨offsets, isPlaced, isMap⟩ := exists_placedLabels name (label + 1) othersPlaced
      exact ⟨offset :: offsets, by simp [placedLabels, isPlaced, bind, Except.bind, pure,
        Except.pure], by simp [isMap]⟩

/-- Complete code can be finished. -/
theorem exists_finish
    (scope : MethodScope)
    (name : String)
    {code : CodeStream}
    (complete : Appends [] .empty code) :
    ∃ finished, code.finish scope name = .ok finished ∧
      finished.instructions = code.instructions ∧
      finished.labels.toList.map some = code.labels.toList := by
  have placed : ∀ offset ∈ code.labels.toList, offset.isSome = true := by
    intro offset member
    obtain ⟨label, inCode, isOffset⟩ := List.mem_iff_getElem.mp member
    rcases complete.isPlaced label (Nat.zero_le _) (by simpa using inCode) with
      isOpen | ⟨found, isFound, -⟩
    · simp at isOpen
    · have isSome := (Array.getElem?_eq_some_iff.mp isFound).2
      rw [← isOffset, Array.getElem_toList, isSome]
      rfl
  obtain ⟨offsets, isPlaced, isMap⟩ := exists_placedLabels name 0 placed
  have closed : placedLabels name 0 (code.closeWhere (fun _ => true)).labels.toList =
      .ok offsets := isPlaced
  exact ⟨_, by simp only [finish, bind_eq_ok, pure_eq_ok]; exact ⟨offsets, closed, rfl⟩, rfl,
    by simpa using isMap⟩

end CodeStream

/-- Parameters that are resolved are bound. -/
theorem isSome_binding_checkParams
    {table : ClassTable}
    {params : List Param}
    {state : MethodState} :
    ∀ param ∈ (checkParams table params state).node, param.binding.isSome = true := by
  intro param member
  obtain ⟨index, inParams, isParam⟩ := List.mem_iff_getElem.mp member
  rw [bindings_checkParams table params state index param
    (List.getElem?_eq_some_iff.mpr ⟨inParams, isParam⟩)]
  rfl

section Methods

variable
  {strict : Bool}
  {table : ClassTable}
  {options : CompilerOptions}
  {method : Method}

/-- Every used local of a method has a slot. -/
theorem slotted_loweringContext :
    (loweringContext table options method).Slotted := by
  intro id known isUsed
  rw [CodeContext.hasSlot_loweringContext known]
  simp [LocalVariable.isMaterialized, isUsed]

/-- The analyzed body of a method without errors is resolved, in the locals of
the method. -/
theorem resolved_analyzedBody
    (tableSound : table.Sound strict)
    (allowed : method.isAllowed strict = true)
    (clean : (analyzedMethod table options method).state.Clean) :
    (loweringContext table options method).AllResolved strict
        (method.analyzedBody table options).nodes MethodScope.root
        (method.bodyState table).scope.locals.size ∧
      (method.bodyState table).scope.locals.size +
          Stmt.localCounts (method.analyzedBody table options).nodes =
        (loweringContext table options method).scope.locals.size := by
  obtain ⟨resolved, size⟩ := resolved_body tableSound allowed clean
  obtain ⟨stays, counts⟩ := @CodeContext.resolved_analyzeStmts _ _ options _ _ _ resolved
    (.atBody (checkMethod table options method .initial).node.params
      (checkMethod table options method .initial).state)
  refine ⟨stays, ?_⟩
  rw [size]
  exact congrArg _ counts

/-- A method without errors has code exactly if every expression that its code
evaluates can be generated. -/
theorem exists_methodCode_iff
    (tableSound : table.Sound strict)
    (allowed : method.isAllowed strict = true)
    (clean : (analyzedMethod table options method).state.Clean) :
    (∃ code, (loweringContext table options method).methodCode
        (analyzedMethod table options method).node = .ok code) ↔
      (loweringContext table options method).CanEmit (method.emissions table options) := by
  have sound := sound_loweringContext tableSound allowed clean
  obtain ⟨resolved, counts⟩ := resolved_analyzedBody tableSound allowed clean
  obtain ⟨reachesAll, runs⟩ := runs_body tableSound allowed clean
  have emissions : method.emissions table options =
      (loweringContext table options method).allEmissions
        (method.analyzedBody table options).nodes none := by
    rw [← reachesAll]
    rfl
  rw [emissions]
  constructor
  · rintro ⟨code, generated⟩
    obtain ⟨opened, ran, -, isRan, -⟩ := CodeContext.methodCode_eq_ok.mp generated
    change CodeContext.pushStmts _ _ (method.analyzedBody table options).unreachableFrom _ _ _ = _
      at isRan
    rw [reachesAll] at isRan
    exact CodeContext.canEmit_of_pushStmts sound resolved (Nat.le_of_eq counts) runs isRan
  · intro canEmit
    have bound : ∀ param ∈ (analyzedMethod table options method).node.params,
        param.binding.isSome = true := isSome_binding_checkParams
    obtain ⟨opened, isOpened, sameCode⟩ :=
      (loweringContext table options method).exists_openParams bound .empty
    have mirrors : JumpFrame.Mirrors [] [] := trivial
    obtain ⟨ran, isRan⟩ := CodeContext.exists_pushStmts sound slotted_loweringContext resolved
      (Nat.le_of_eq counts) runs mirrors canEmit MethodScope.root opened
    have body : CodeStream.Appends [] .empty ran := ((CodeStream.Appends.refl _).sameCode
      sameCode).trans (CodeContext.appends_pushStmts _ _ _ _ _ isRan)
    have complete := ((loweringContext table options method).appends_returned body).sameCode
      (CodeStream.markSource_same opened.position method.body.span _)
    obtain ⟨code, finished, -⟩ := CodeStream.exists_finish
      (loweringContext table options method).scope method.name.node complete
    refine ⟨code, CodeContext.methodCode_eq_ok.mpr ⟨opened, ran, isOpened, ?_, finished⟩⟩
    change CodeContext.pushStmts _ _ (method.analyzedBody table options).unreachableFrom _ _ _ = _
    rw [reachesAll]
    exact isRan

/-- Code that is generated is that of the lowered method. -/
theorem lowerMethod_of_methodCode
    {code : MethodCode}
    (generated : (loweringContext table options method).methodCode
      (analyzedMethod table options method).node = .ok code) :
    lowerMethod table options method = .ok
      ⟨(analyzedMethod table options method).node, some code,
        (analyzedMethod table options method).state.diagnostics,
        (loweringContext table options method).scope⟩ := by
  unfold loweringContext at generated
  simp only [lowerMethod, generated]
  rfl

/-- A method without errors is lowered to code exactly if every expression that
its code evaluates can be generated: no array in it has more elements than an
array can have, and no method is called on an array of a type parameter. -/
theorem lowersToCode_iff
    {unit : CompilationUnit}
    (declared : ClassTable.ofUnit unit = .ok table)
    (clean : (analyzedMethod table options method).state.Clean) :
    (∃ lowered, lowerMethod table options method = .ok lowered ∧ lowered.code.isSome = true) ↔
      ∀ emission ∈ method.emissions table options,
        (loweringContext table options method).Emittable emission.1 emission.2 = true := by
  have tableSound := ClassTable.ofUnit_sound unit.isAllowed_lenient declared
  refine Iff.trans ?_ (exists_methodCode_iff tableSound method.isAllowed_lenient clean)
  cases generated : (loweringContext table options method).methodCode
      (analyzedMethod table options method).node with
  | ok code =>
      exact ⟨fun _ => ⟨code, rfl⟩, fun _ => ⟨_, lowerMethod_of_methodCode generated, rfl⟩⟩
  | error cause =>
      have fails : lowerMethod table options method = .error cause := by
        unfold loweringContext at generated
        simp only [lowerMethod, generated]
        exact if_neg (Bool.eq_false_iff.mp clean)
      constructor
      · rintro ⟨lowered, isLowered, -⟩
        rw [fails] at isLowered
        cases isLowered
      · rintro ⟨code, isCode⟩
        cases isCode

end Methods

/-- A method that creates an array of its type parameter and calls a method on
it. -/
def Method.hashesNewArray :
    Method where
  name := ⟨"m", .absent⟩
  typeParams := [⟨"T", none⟩]
  params := []
  returnType := none
  body := {
    span := .absent
    stmts := [.expr .absent (.methodCall .absent (.newArray .absent (.named .absent "T") [])
      ⟨"hashCode", .absent⟩ [])]
    facts := .initial
  }

/-- A call on a new array of a type parameter is reported by no pass and has no
code. -/
theorem hashesNewArray_hasNoCode :
    ClassTable.ofUnit ⟨"Main", none, [], [], []⟩ = .ok .builtin ∧
      (analyzedMethod .builtin .standard .hashesNewArray).state.Clean ∧
      ¬∃ lowered, lowerMethod .builtin .standard .hashesNewArray = .ok lowered ∧
        lowered.code.isSome = true := by
  have declared : ClassTable.ofUnit ⟨"Main", none, [], [], []⟩ = .ok .builtin := rfl
  have clean : (analyzedMethod .builtin .standard .hashesNewArray).state.Clean := by
    decide +kernel
  refine ⟨declared, clean, ?_⟩
  rw [lowersToCode_iff declared clean]
  decide +kernel

end LoopLowering
