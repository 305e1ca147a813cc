import LoopLowering.Proofs.Flow.Reporting
import LoopLowering.Proofs.Flow.Reanalysis

namespace LoopLowering

/-!
# Lowering a method a second time

The code does not depend on the choice of reports, nor on what is recorded in a tree.

## The choice of reports never changes the code

The compliance level, the analysis of nullness and the severity of boxing only
decide what is reported. Whatever is chosen, the locals of a method have the same
uses and slots, the method has the same code or fails for the same reason, and the
other reports are the same.
-/

section Methods

variable
  {table : ClassTable}
  {method : Method}
  {first second : CompilerOptions}

/-- A method is analyzed alike. -/
theorem reportsAlike_analyzedMethod
    (sameUnused : first.keepUnusedLocals = second.keepUnusedLocals) :
    (analyzedMethod table first method).ReportsAlike (analyzedMethod table second method) := by
  have checked := reportsAlike_checkMethod first second table method .initial
  simp only [analyzedMethod, checked.node]
  exact reportsAlike_analyzeMethod sameUnused _ checked.state

/-- Two analyses that report alike have the same code. -/
theorem FlowedMethod.ReportsAlike.methodCode
    {first second : FlowedMethod}
    (alike : first.ReportsAlike second)
    (table : ClassTable)
    (keepUnused : Bool) :
    (CodeContext.mk table (second.state.mapScope (.assignSlots keepUnused))).methodCode
        second.node =
      (CodeContext.mk table (first.state.mapScope (.assignSlots keepUnused))).methodCode
        first.node := by
  have slots := alike.state.mapScope (.assignSlots keepUnused)
  rw [slots.eq_withFindings]
  exact @CodeContext.methodCode_withFindings
    ⟨table, first.state.mapScope (.assignSlots keepUnused)⟩ _ _ slots.checkpoints _ _ alike.rest
    alike.stmts

/-- Whatever is chosen about reports, the locals of a method have the same uses and
slots, the method has the same code or fails for the same reason, and what is
reported differs only in null references and in how severe boxing is. -/
theorem methodCode_eq_of_sameUnused
    (sameUnused : first.keepUnusedLocals = second.keepUnusedLocals) :
    (loweringContext table second method).scope = (loweringContext table first method).scope ∧
      (loweringContext table second method).methodCode (analyzedMethod table second method).node =
        (loweringContext table first method).methodCode (analyzedMethod table first method).node ∧
      (analyzedMethod table second method).state.diagnostics.lasting =
        (analyzedMethod table first method).state.diagnostics.lasting := by
  have alike := @reportsAlike_analyzedMethod table method first second sameUnused
  have slots := alike.state.mapScope (.assignSlots first.keepUnusedLocals)
  unfold loweringContext
  rw [← sameUnused]
  exact ⟨slots.scope, alike.methodCode table first.keepUnusedLocals, alike.state.lasting⟩

end Methods

/-- The options of a user who wants to hear of every boxing and of no null reference,
for a language whose empty loops are not analyzed. -/
def CompilerOptions.loud :
    CompilerOptions where
  compliance := .v1_3
  keepUnusedLocals := false
  autoboxing := .warning
  nullAnalysis := false

/-- A method that keeps the last one of some numbers in a box, forgets the numbers and
then loops over them with nothing to do. -/
def Method.forgetsNumbers :
    Method where
  name := ⟨"m", .absent⟩
  typeParams := []
  params := [⟨⟨"values", .absent⟩, .array .absent (.named .absent "int"), false, none⟩]
  returnType := none
  body := {
    span := .absent
    stmts := [
      .localVar .absent ⟨⟨"last", .absent⟩, .named .absent "Integer", none, false, none⟩,
      .forEach .absent ⟨⟨"value", .absent⟩, .named .absent "Integer", none, false, none⟩
        (.name .absent (.unbound "values"))
        (some (.expr .absent (.assign .absent ⟨.unbound "last", .absent⟩ none
          (.name .absent (.unbound "value")))))
        .initial,
      .expr .absent (.assign .absent ⟨.unbound "values", .absent⟩ none (.null .absent)),
      .forEach .absent ⟨⟨"value", .absent⟩, .named .absent "int", none, false, none⟩
        (.name .absent (.unbound "values")) none .initial]
    facts := .initial
  }

/-- Its code is the same for two users who are told different things. -/
theorem forgetsNumbers_methodCode_eq :
    CompilerOptions.standard.keepUnusedLocals = CompilerOptions.loud.keepUnusedLocals ∧
      ((loweringContext .builtin .standard .forgetsNumbers).methodCode
        (analyzedMethod .builtin .standard .forgetsNumbers).node).isOk = true ∧
      (analyzedMethod .builtin .standard .forgetsNumbers).state.diagnostics.toList.map
        Diagnostic.severity = [.info, .error] ∧
      (analyzedMethod .builtin .loud .forgetsNumbers).state.diagnostics.toList.map
        Diagnostic.severity = [.warning] ∧
      (loweringContext .builtin .loud .forgetsNumbers).scope =
        (loweringContext .builtin .standard .forgetsNumbers).scope ∧
      (loweringContext .builtin .loud .forgetsNumbers).methodCode
          (analyzedMethod .builtin .loud .forgetsNumbers).node =
        (loweringContext .builtin .standard .forgetsNumbers).methodCode
          (analyzedMethod .builtin .standard .forgetsNumbers).node ∧
      (analyzedMethod .builtin .loud .forgetsNumbers).state.diagnostics.lasting =
        (analyzedMethod .builtin .standard .forgetsNumbers).state.diagnostics.lasting := by
  have sameUnused :
      CompilerOptions.standard.keepUnusedLocals = CompilerOptions.loud.keepUnusedLocals := rfl
  refine ⟨sameUnused, ?_, ?_, ?_, methodCode_eq_of_sameUnused sameUnused⟩
  · decide +kernel
  · decide +kernel
  · decide +kernel

/-!
## Lowering a tree again

What a tree has recorded in it, by an earlier lowering or by anyone else, has no
influence on what lowering it results in. The elements of loops must have no
initial values, as those are analyzed but never resolved.
-/

/-- What comes out of a lowering, other than the tree itself. -/
structure LoweringResults where
  code : Option MethodCode
  diagnostics : Diagnostics
  scope : MethodScope

/-- What came out of lowering a method. -/
def LoweredMethod.results
    (lowered : LoweredMethod) :
    LoweringResults :=
  ⟨lowered.code, lowered.diagnostics, lowered.scope⟩

/-- What lowering a method results in, which may be a failure. -/
def loweringResults
    (table : ClassTable)
    (options : CompilerOptions)
    (method : Method) :
    Except CodegenError LoweringResults :=
  (lowerMethod table options method).map LoweredMethod.results

section Methods

variable
  {table : ClassTable}
  {options : CompilerOptions}

/-- Methods that are analyzed to the same state and have the same code in it have
the same results. -/
theorem loweringResults_eq
    {first second : Method}
    (sameState : (analyzedMethod table options second).state =
      (analyzedMethod table options first).state)
    (sameCode : (loweringContext table options first).methodCode
        (analyzedMethod table options second).node =
      (loweringContext table options first).methodCode
        (analyzedMethod table options first).node) :
    loweringResults table options second = loweringResults table options first := by
  unfold loweringContext at sameCode
  simp only [loweringResults, lowerMethod, sameState, sameCode]
  split
  · rfl
  · split <;> rfl

/-- A method has the results of the same method with nothing recorded in it. -/
theorem loweringResults_cleared
    (table : ClassTable)
    (options : CompilerOptions)
    {method : Method}
    (uninitialized : method.elementsUninitialized = true) :
    loweringResults table options method.cleared = loweringResults table options method := by
  obtain ⟨sameState, sameRest, shared⟩ := renews_analyzeMethod options
    (scoped_checkMethod table options method .initial)
    (checkMethod table options method .initial).state
  have analyzed : analyzedMethod table options method.cleared =
      analyzeMethod options (checkMethod table options method .initial).node.unflowed
        (checkMethod table options method .initial).state := by
    simp only [analyzedMethod, checkMethod_cleared table options uninitialized]
  refine loweringResults_eq (analyzed ▸ sameState) ?_
  rw [analyzed]
  exact @CodeContext.methodCode_withFindings (loweringContext table options method)
    (loweringContext table options method).state.checkpoints
    (loweringContext table options method).state.diagnostics rfl _ _ sameRest shared

/-- Methods that differ only in what is recorded in them have the same results. -/
theorem loweringResults_of_cleared
    (table : ClassTable)
    (options : CompilerOptions)
    {first second : Method}
    (uninitialized : first.elementsUninitialized = true)
    (sameTree : second.cleared = first.cleared) :
    loweringResults table options second = loweringResults table options first := by
  have secondUninitialized := (Method.elementsUninitialized_of_cleared sameTree).trans uninitialized
  calc loweringResults table options second
      _ = loweringResults table options second.cleared :=
        (loweringResults_cleared table options secondUninitialized).symm
      _ = loweringResults table options first.cleared := by rw [sameTree]
      _ = loweringResults table options first := loweringResults_cleared table options uninitialized

/-- Resolution and analysis change nothing but what is recorded in a method. -/
theorem cleared_analyzedMethod
    (table : ClassTable)
    (options : CompilerOptions)
    (method : Method) :
    (analyzedMethod table options method).node.cleared = method.cleared := by
  rw [analyzedMethod, cleared_analyzeMethod, cleared_checkMethod]

/-- The tree that comes out of lowering a method. -/
theorem method_lowerMethod
    {method : Method}
    {lowered : LoweredMethod}
    (lowers : lowerMethod table options method = .ok lowered) :
    lowered.method = (analyzedMethod table options method).node := by
  simp only [lowerMethod] at lowers
  split at lowers
  · rw [← Except.ok.inj lowers]
  · split at lowers
    · rw [← Except.ok.inj lowers]
    · cases lowers

/-- What is recorded in a method never shows. A method has the results of the same
method with nothing recorded in it. After it has been annotated by an earlier
lowering, in whatever way and whether that failed or not, lowering it again has the
results that lowering it at once has. -/
theorem loweringResults_fresh
    (table : ClassTable)
    (options : CompilerOptions)
    {method : Method}
    (uninitialized : method.elementsUninitialized = true) :
    loweringResults table options method = loweringResults table options method.cleared ∧
      ∀ (earlierTable : ClassTable) (earlierOptions : CompilerOptions),
        loweringResults table options (analyzedMethod earlierTable earlierOptions method).node =
            loweringResults table options method ∧
          ∀ lowered, lowerMethod earlierTable earlierOptions method = .ok lowered →
            loweringResults table options lowered.method =
              loweringResults table options method := by
  have again : ∀ (earlierTable : ClassTable) (earlierOptions : CompilerOptions),
      loweringResults table options (analyzedMethod earlierTable earlierOptions method).node =
        loweringResults table options method :=
    fun earlierTable earlierOptions => loweringResults_of_cleared table options uninitialized
      (cleared_analyzedMethod earlierTable earlierOptions method)
  refine ⟨(loweringResults_cleared table options uninitialized).symm, fun _ _ => ⟨again _ _, ?_⟩⟩
  intro lowered lowers
  rw [method_lowerMethod lowers]
  exact again _ _

end Methods

/-- A method that copies numbers and has been annotated by someone who knows nothing
about it: names are bound to locals that do not exist, the loop is not reached, and
no path enters a block. -/
def Method.misannotated :
    Method where
  name := ⟨"m", .absent⟩
  typeParams := []
  params := [⟨⟨"values", .absent⟩, .array .absent (.named .absent "int"), false, some 8⟩]
  returnType := none
  body := {
    span := .absent
    stmts := [
      .forEach .absent ⟨⟨"value", .absent⟩, .named .absent "int", none, false, some 7⟩
        (.name .absent ⟨"values", some 9⟩)
        (some (.block .absent
          [.localVar .absent ⟨⟨"copy", .absent⟩, .named .absent "int",
            some (.name .absent ⟨"value", none⟩), false, some 0⟩]
          ⟨some 5, some 0⟩))
        { LoopFacts.initial with classification := .invalid, entered := some 3 }]
    facts := ⟨none, some 0⟩
  }

/-- It is lowered as if nobody had touched it, also after it has been lowered with
other options. -/
theorem misannotated_loweringResults_fresh :
    Method.misannotated.elementsUninitialized = true ∧
      ((loweringResults .builtin .standard .misannotated).toOption.bind
        LoweringResults.code).isSome = true ∧
      loweringResults .builtin .standard .misannotated =
        loweringResults .builtin .standard Method.misannotated.cleared ∧
      ∃ lowered, lowerMethod .builtin .loud .misannotated = .ok lowered ∧
        loweringResults .builtin .standard lowered.method =
          loweringResults .builtin .standard .misannotated := by
  have uninitialized : Method.misannotated.elementsUninitialized = true := by decide +kernel
  obtain ⟨fresh, again⟩ := loweringResults_fresh .builtin .standard uninitialized
  have lowers : (lowerMethod .builtin .loud .misannotated).toOption.isSome = true := by
    decide +kernel
  refine ⟨uninitialized, by decide +kernel, fresh, ?_⟩
  cases result : lowerMethod .builtin .loud .misannotated with
  | error cause => rw [result] at lowers; cases lowers
  | ok lowered => exact ⟨lowered, rfl, (again .builtin .loud).2 lowered result⟩

end LoopLowering
