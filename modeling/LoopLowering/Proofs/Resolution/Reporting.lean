import LoopLowering.Proofs.Code.SharedCode
import LoopLowering.Resolution.Statements

namespace LoopLowering

/-!
# Resolution and the choice of reports

How loudly boxing is reported decides on nothing but the severity of a
diagnostic. Two resolutions of a method that differ in such choices find the same
locals, types and loops, and what they report differs only in what was chosen.
-/

/-- What a diagnostic says whatever is chosen about reports: nothing when it is
about a null reference, and no severity of its own when it is about boxing. -/
def Diagnostic.lasting?
    (diagnostic : Diagnostic) :
    Option Diagnostic :=
  match diagnostic.problem with
  | .nullReference | .potentialNull => none
  | .autoboxing => some { diagnostic with severity := .info }
  | _ => some diagnostic

/-- What diagnostics say whatever is chosen about reports, in order. -/
def Diagnostics.lasting
    (diagnostics : Diagnostics) :
    List Diagnostic :=
  diagnostics.toList.filterMap Diagnostic.lasting?

/-- What a diagnostic adds. -/
theorem Diagnostics.lasting_push
    (diagnostics : Diagnostics)
    (added : Diagnostic) :
    lasting (diagnostics.push added) = diagnostics.lasting ++ added.lasting?.toList := by
  rw [lasting, Array.toList_push, List.filterMap_append]
  cases kept : added.lasting? <;> simp [lasting, kept]

/-- Two states of a method differ only in what is known about nullness and in
what is chosen about reports. -/
structure MethodState.ReportsAlike
    (first second : MethodState) :
    Prop where
  scope : second.scope = first.scope
  checkpoints : CodeContext.SameAssignments first.checkpoints second.checkpoints
  lasting : second.diagnostics.lasting = first.diagnostics.lasting
  typeVars : second.typeVars = first.typeVars
  returnType : second.returnType = first.returnType
  completesNormally : second.completesNormally = first.completesNormally

namespace MethodState.ReportsAlike

variable
  {first second : MethodState}

theorem refl
    (state : MethodState) :
    state.ReportsAlike state :=
  ⟨rfl, rfl, rfl, rfl, rfl, rfl⟩

theorem symm
    (alike : first.ReportsAlike second) :
    second.ReportsAlike first :=
  ⟨alike.scope.symm, alike.checkpoints.symm, alike.lasting.symm, alike.typeVars.symm,
    alike.returnType.symm, alike.completesNormally.symm⟩

theorem trans
    {third : MethodState}
    (alike : first.ReportsAlike second)
    (other : second.ReportsAlike third) :
    first.ReportsAlike third :=
  ⟨other.scope.trans alike.scope, other.checkpoints.trans alike.checkpoints,
    other.lasting.trans alike.lasting, other.typeVars.trans alike.typeVars,
    other.returnType.trans alike.returnType,
    other.completesNormally.trans alike.completesNormally⟩

/-- An issue of which nothing remains is reported. -/
theorem reportNull
    (state : MethodState)
    {issue : Issue}
    {span : Span}
    (passes : (issue.diagnostic span).lasting? = none) :
    state.ReportsAlike (state.report issue span) where
  scope := rfl
  checkpoints := rfl
  lasting := by
    simp only [report, Diagnostics.lasting_push, passes, Option.toList_none, List.append_nil]
  typeVars := rfl
  returnType := rfl
  completesNormally := rfl

/-- The locals are the same. -/
theorem localAt
    (alike : first.ReportsAlike second)
    (id : LocalId) :
    second.localAt id = first.localAt id := by
  rw [MethodState.localAt, MethodState.localAt, alike.scope]

/-- Two issues are reported of which the same remains. -/
theorem reportBoth
    (alike : first.ReportsAlike second)
    {issue other : Issue}
    {span : Span}
    (same : (other.diagnostic span).lasting? = (issue.diagnostic span).lasting?) :
    (first.report issue span).ReportsAlike (second.report other span) where
  scope := alike.scope
  checkpoints := alike.checkpoints
  lasting := by
    simp only [report, Diagnostics.lasting_push, alike.lasting, same]
  typeVars := alike.typeVars
  returnType := alike.returnType
  completesNormally := alike.completesNormally

/-- The same issue is reported. -/
theorem report
    (alike : first.ReportsAlike second)
    (issue : Issue)
    (span : Span) :
    (first.report issue span).ReportsAlike (second.report issue span) :=
  alike.reportBoth rfl

/-- Two such states are the same but for their flow states and diagnostics. -/
theorem eq_withFindings
    (alike : first.ReportsAlike second) :
    second =
      { first with checkpoints := second.checkpoints, diagnostics := second.diagnostics } := by
  simp only [← alike.scope, ← alike.typeVars, ← alike.returnType, ← alike.completesNormally]

/-- The same check is made. -/
theorem reportIf
    (alike : first.ReportsAlike second)
    (wrong : Bool)
    (issue : Issue)
    (span : Span) :
    (first.reportIf wrong issue span).ReportsAlike (second.reportIf wrong issue span) := by
  cases wrong with
  | false => exact alike
  | true => exact alike.report issue span

/-- The locals are changed in the same way. -/
theorem mapScope
    (alike : first.ReportsAlike second)
    (change : MethodScope → MethodScope) :
    (first.mapScope change).ReportsAlike (second.mapScope change) where
  scope := congrArg change alike.scope
  checkpoints := alike.checkpoints
  lasting := alike.lasting
  typeVars := alike.typeVars
  returnType := alike.returnType
  completesNormally := alike.completesNormally

end MethodState.ReportsAlike

/-- Two nodes after resolution differ in reports only. -/
structure Checked.ReportsAlike
    {α : Type}
    (first second : Checked α) :
    Prop where
  node : second.node = first.node
  type : second.type = first.type
  state : first.state.ReportsAlike second.state

/-- Two lists of expressions after resolution differ in reports only. -/
structure CheckedList.ReportsAlike
    (first second : CheckedList) :
    Prop where
  nodes : second.nodes = first.nodes
  types : second.types = first.types
  state : first.state.ReportsAlike second.state

/-- Two trees after resolution differ in reports only. -/
structure CheckedTree.ReportsAlike
    {α : Type}
    (first second : CheckedTree α) :
    Prop where
  node : second.node = first.node
  state : first.state.ReportsAlike second.state

section Expressions

variable
  {first second : MethodState}

/-- A written type is resolved alike. -/
theorem reportsAlike_resolveType
    (table : ClassTable)
    (type : TypeExpr)
    (alike : first.ReportsAlike second) :
    (resolveType table type second).1 = (resolveType table type first).1 ∧
      (resolveType table type first).2.ReportsAlike (resolveType table type second).2 := by
  simp only [resolveType, alike.typeVars]
  split
  · exact ⟨rfl, alike⟩
  · exact ⟨rfl, alike.report _ _⟩

/-- A conversion is checked alike. -/
theorem reportsAlike_checkConverts
    (table : ClassTable)
    (source target : Ty)
    (span : Span)
    (alike : first.ReportsAlike second) :
    (checkConverts table source target span first).ReportsAlike
      (checkConverts table source target span second) :=
  alike.reportIf _ _ _

/-- A name is bound alike. -/
theorem reportsAlike_bindName
    (block : ScopeId)
    (span : Span)
    (ref : NameRef)
    (alike : first.ReportsAlike second) :
    (bindName block span ref second).1 = (bindName block span ref first).1 ∧
      (bindName block span ref first).2.ReportsAlike (bindName block span ref second).2 := by
  simp only [bindName, alike.scope]
  exact ⟨trivial, alike.reportIf _ _ _⟩

/-- A use is recorded alike. -/
theorem reportsAlike_markUse
    (binding : Option LocalId)
    (alike : first.ReportsAlike second) :
    (markUse binding first).ReportsAlike (markUse binding second) := by
  cases binding with
  | none => exact alike
  | some id => exact alike.mapScope _

/-- The type of a binding is the same. -/
theorem bindingType_of_reportsAlike
    (binding : Option LocalId)
    (alike : first.ReportsAlike second) :
    bindingType second binding = bindingType first binding := by
  cases binding with
  | none => rfl
  | some id => simp only [bindingType, alike.localAt]

/-- The types of arguments are checked alike. -/
theorem reportsAlike_checkArgumentTypes
    (table : ClassTable) :
    ∀ (params types : List Ty) (args : List Expr) {first second : MethodState},
      first.ReportsAlike second →
      (checkArgumentTypes table params types args first).ReportsAlike
        (checkArgumentTypes table params types args second)
  | param :: params, given :: types, arg :: args, _, _, alike => by
      simp only [checkArgumentTypes]
      exact reportsAlike_checkArgumentTypes table params types args
        (reportsAlike_checkConverts table given param arg.span alike)
  | [], _, _, _, _, alike | _ :: _, [], _, _, _, alike | _ :: _, _ :: _, [], _, _, alike => by
      simpa only [checkArgumentTypes] using alike

/-- Arguments are checked alike. -/
theorem reportsAlike_checkArguments
    (table : ClassTable)
    (name : String)
    (params types : List Ty)
    (args : List Expr)
    (span : Span)
    (alike : first.ReportsAlike second) :
    (checkArguments table name params types args span first).ReportsAlike
      (checkArguments table name params types args span second) := by
  simp only [checkArguments]
  split
  · exact reportsAlike_checkArgumentTypes table params types args alike
  · exact alike.report _ _

/-- An assigned value is checked alike. -/
theorem reportsAlike_checkAssignedValue
    (table : ClassTable)
    (op : Option BinOp)
    (target value : Ty)
    (span valueSpan : Span)
    (alike : first.ReportsAlike second) :
    (checkAssignedValue table op target value span valueSpan first).ReportsAlike
      (checkAssignedValue table op target value span valueSpan second) := by
  cases op with
  | none => exact reportsAlike_checkConverts table value target valueSpan alike
  | some op => exact alike.reportIf _ _ _

mutual

/-- An expression is resolved alike. -/
theorem reportsAlike_checkExpr
    (table : ClassTable)
    (block : ScopeId) :
    ∀ (expr : Expr) {first second : MethodState},
      first.ReportsAlike second →
      (checkExpr table block expr first).ReportsAlike (checkExpr table block expr second)
  | .intLit .., _, _, alike | .boolLit .., _, _, alike | .stringLit .., _, _, alike
  | .null _, _, _, alike => by
      simp only [checkExpr]
      exact ⟨rfl, rfl, alike⟩
  | .name span ref, first, _, alike => by
      obtain ⟨sameRef, bound⟩ := reportsAlike_bindName block span ref alike
      have used := reportsAlike_markUse (bindName block span ref first).1.binding bound
      simp only [checkExpr, sameRef, bindingType_of_reportsAlike _ used]
      exact ⟨rfl, rfl, used⟩
  | .newArray _ component elements, first, _, alike => by
      obtain ⟨sameType, resolved⟩ := reportsAlike_resolveType table component alike
      have filled := reportsAlike_checkElements table block (resolveType table component first).1
        elements resolved
      simp only [checkExpr, sameType, filled.nodes]
      exact ⟨rfl, rfl, filled.state⟩
  | .binary span op left right, _, _, alike => by
      have leftAlike := reportsAlike_checkExpr table block left alike
      have rightAlike := reportsAlike_checkExpr table block right leftAlike.state
      simp only [checkExpr, leftAlike.node, leftAlike.type, rightAlike.node, rightAlike.type]
      split
      · exact ⟨rfl, rfl, rightAlike.state⟩
      · exact ⟨rfl, rfl, rightAlike.state.report _ _⟩
  | .assign span target op value, first, second, alike => by
      obtain ⟨sameRef, bound⟩ := reportsAlike_bindName block target.span target.node alike
      have used : (if op.isSome then
            markUse (bindName block target.span target.node first).1.binding
              (bindName block target.span target.node first).2
          else (bindName block target.span target.node first).2).ReportsAlike
          (if op.isSome then
            markUse (bindName block target.span target.node first).1.binding
              (bindName block target.span target.node second).2
          else (bindName block target.span target.node second).2) := by
        split
        · exact reportsAlike_markUse _ bound
        · exact bound
      have valueAlike := reportsAlike_checkExpr table block value used
      simp only [checkExpr, sameRef, valueAlike.node, valueAlike.type, valueAlike.state.localAt]
      split
      · exact ⟨rfl, rfl, valueAlike.state⟩
      · exact ⟨rfl, rfl, reportsAlike_checkAssignedValue _ _ _ _ _ _ valueAlike.state⟩
  | .call span function args, _, _, alike => by
      have argsAlike := reportsAlike_checkExprs table block args alike
      simp only [checkExpr, argsAlike.nodes, argsAlike.types]
      split
      · exact ⟨rfl, rfl, argsAlike.state.report _ _⟩
      · exact ⟨rfl, rfl, reportsAlike_checkArguments _ _ _ _ _ _ argsAlike.state⟩
  | .methodCall span receiver method args, _, _, alike => by
      have receiverAlike := reportsAlike_checkExpr table block receiver alike
      have argsAlike := reportsAlike_checkExprs table block args receiverAlike.state
      simp only [checkExpr, receiverAlike.node, receiverAlike.type, argsAlike.nodes,
        argsAlike.types]
      split
      · exact ⟨rfl, rfl, argsAlike.state⟩
      · split
        · exact ⟨rfl, rfl, argsAlike.state.report _ _⟩
        · exact ⟨rfl, rfl, reportsAlike_checkArguments _ _ _ _ _ _ argsAlike.state⟩

theorem reportsAlike_checkExprs
    (table : ClassTable)
    (block : ScopeId) :
    ∀ (exprs : List Expr) {first second : MethodState},
      first.ReportsAlike second →
      (checkExprs table block exprs first).ReportsAlike (checkExprs table block exprs second)
  | [], _, _, alike => by
      simp only [checkExprs]
      exact ⟨rfl, rfl, alike⟩
  | expr :: rest, _, _, alike => by
      have headAlike := reportsAlike_checkExpr table block expr alike
      have tailAlike := reportsAlike_checkExprs table block rest headAlike.state
      simp only [checkExprs]
      exact ⟨by rw [headAlike.node, tailAlike.nodes], by rw [headAlike.type, tailAlike.types],
        tailAlike.state⟩

theorem reportsAlike_checkElements
    (table : ClassTable)
    (block : ScopeId)
    (component : Ty) :
    ∀ (exprs : List Expr) {first second : MethodState},
      first.ReportsAlike second →
      (checkElements table block component exprs first).ReportsAlike
        (checkElements table block component exprs second)
  | [], _, _, alike => by
      simp only [checkElements]
      exact ⟨rfl, rfl, alike⟩
  | expr :: rest, first, _, alike => by
      have headAlike := reportsAlike_checkExpr table block expr alike
      have tailAlike := reportsAlike_checkElements table block component rest
        (reportsAlike_checkConverts table (checkExpr table block expr first).type component
          (checkExpr table block expr first).node.span headAlike.state)
      simp only [checkElements, headAlike.node, headAlike.type, tailAlike.nodes, tailAlike.types]
      exact ⟨rfl, rfl, tailAlike.state⟩

end

/-- A local is declared alike. -/
theorem reportsAlike_declareLocal
    (block : ScopeId)
    (entry : LocalVariable)
    (alike : first.ReportsAlike second) :
    (declareLocal block entry second).1 = (declareLocal block entry first).1 ∧
      (declareLocal block entry first).2.ReportsAlike (declareLocal block entry second).2 := by
  have reported := alike.reportIf (first.scope.lookup block entry.name).isSome
    (.duplicateLocal entry.name) entry.span
  simp only [declareLocal, alike.scope, reported.scope]
  exact ⟨trivial, reported.mapScope _⟩

/-- The variable of a declaration is declared alike. -/
theorem reportsAlike_checkDeclaration
    (table : ClassTable)
    (block : ScopeId)
    (decl : LocalDecl)
    (alike : first.ReportsAlike second) :
    (checkDeclaration table block decl first).ReportsAlike
      (checkDeclaration table block decl second) := by
  obtain ⟨sameType, resolved⟩ := reportsAlike_resolveType table decl.type alike
  obtain ⟨sameId, declared⟩ := reportsAlike_declareLocal block
    { LocalVariable.declared decl.name.node (resolveType table decl.type first).1 decl.name.span with
      isFinal := decl.isFinal } resolved
  simp only [checkDeclaration, sameType, sameId]
  exact ⟨rfl, rfl, declared⟩

end Expressions

section Statements

variable
  {first second : MethodState}
  (firstOptions secondOptions : CompilerOptions)

/-- A finding about a loop is reported alike. -/
theorem lasting?_issue
    (finding : LoopFinding)
    (span : Span) :
    ((finding.issue secondOptions).diagnostic span).lasting? =
      ((finding.issue firstOptions).diagnostic span).lasting? := by
  cases finding with
  | mismatch element declared =>
      rfl
  | autoboxing element declared boxing =>
      cases boxing <;> rfl

/-- The findings about a loop are reported alike. -/
theorem reportsAlike_reportFindings
    (span : Span) :
    ∀ (findings : List LoopFinding) {first second : MethodState},
      first.ReportsAlike second →
      (findings.foldl (fun state finding => state.report (finding.issue firstOptions) span)
        first).ReportsAlike
        (findings.foldl (fun state finding => state.report (finding.issue secondOptions) span)
          second)
  | [], _, _, alike => alike
  | finding :: rest, _, _, alike =>
      reportsAlike_reportFindings span rest
        (alike.reportBoth (lasting?_issue firstOptions secondOptions finding span))

/-- A loop is classified alike. -/
theorem reportsAlike_resolveLoop
    (table : ClassTable)
    (block : ScopeId)
    (declared collection : Ty)
    (span : Span)
    (alike : first.ReportsAlike second) :
    (resolveLoop table secondOptions block declared collection span second).1 =
        (resolveLoop table firstOptions block declared collection span first).1 ∧
      (resolveLoop table firstOptions block declared collection span first).2.ReportsAlike
        (resolveLoop table secondOptions block declared collection span second).2 := by
  simp only [resolveLoop]
  split
  · exact ⟨rfl, alike⟩
  · split
    · exact ⟨rfl, alike.report _ _⟩
    · next classified _ =>
        have reported := reportsAlike_reportFindings firstOptions secondOptions span
          classified.findings alike
        rw [reported.scope]
        exact ⟨rfl, reported.mapScope _⟩

/-- Two heads of loops after resolution differ in reports only. -/
structure CheckedLoop.ReportsAlike
    (first second : CheckedLoop) :
    Prop where
  element : second.element = first.element
  collection : second.collection = first.collection
  scope : second.scope = first.scope
  classification : second.classification = first.classification
  state : first.state.ReportsAlike second.state

/-- The head of a loop is resolved alike. -/
theorem reportsAlike_checkLoopHead
    (table : ClassTable)
    (outer : ScopeId)
    (element : LocalDecl)
    (collection : Expr)
    (alike : first.ReportsAlike second) :
    (checkLoopHead table firstOptions outer element collection first).ReportsAlike
      (checkLoopHead table secondOptions outer element collection second) := by
  have declared := reportsAlike_checkDeclaration table first.scope.nextBlock element
    (alike.mapScope (.openBlock outer))
  have evaluated := reportsAlike_checkExpr table first.scope.nextBlock collection declared.state
  obtain ⟨sameClassification, resolved⟩ := reportsAlike_resolveLoop firstOptions secondOptions
    table first.scope.nextBlock
    (checkDeclaration table first.scope.nextBlock element
      (first.mapScope (.openBlock outer))).type
    (checkExpr table first.scope.nextBlock collection
      (checkDeclaration table first.scope.nextBlock element
        (first.mapScope (.openBlock outer))).state).type
    (checkExpr table first.scope.nextBlock collection
      (checkDeclaration table first.scope.nextBlock element
        (first.mapScope (.openBlock outer))).state).node.span evaluated.state
  simp only [checkLoopHead, alike.scope, declared.node, declared.type, evaluated.node,
    evaluated.type, sameClassification]
  exact ⟨rfl, rfl, rfl, rfl, resolved⟩

/-- A returned value is checked alike. -/
theorem reportsAlike_checkReturned
    (table : ClassTable)
    {value other : Checked Expr}
    (alike : value.ReportsAlike other) :
    (checkReturned table value).ReportsAlike (checkReturned table other) := by
  simp only [checkReturned, alike.node, alike.type, alike.state.returnType]
  split
  · exact alike.state.report _ _
  · exact reportsAlike_checkConverts _ _ _ _ alike.state

mutual

/-- A statement is resolved alike. -/
theorem reportsAlike_checkStmt
    (table : ClassTable) :
    ∀ (stmt : Stmt) (block : ScopeId) {first second : MethodState},
      first.ReportsAlike second →
      (checkStmt table firstOptions block stmt first).ReportsAlike
        (checkStmt table secondOptions block stmt second)
  | .localVar span decl, block, _, _, alike => by
      have declared := reportsAlike_checkDeclaration table block decl alike
      simp only [checkStmt, declared.node]
      split
      · exact ⟨rfl, declared.state⟩
      · next value _ =>
          have valueAlike := reportsAlike_checkExpr table block value declared.state
          simp only [valueAlike.node, valueAlike.type, declared.type]
          exact ⟨rfl, reportsAlike_checkConverts _ _ _ _ valueAlike.state⟩
  | .expr span value, block, _, _, alike => by
      have valueAlike := reportsAlike_checkExpr table block value alike
      simp only [checkStmt, valueAlike.node]
      exact ⟨rfl, valueAlike.state⟩
  | .block span stmts facts, block, first, _, alike => by
      have inner := reportsAlike_checkStmts table stmts first.scope.nextBlock
        (alike.mapScope (.openBlock block))
      simp only [checkStmt, alike.scope, inner.node]
      exact ⟨rfl, inner.state⟩
  | .branch span condition thenBranch none, block, first, _, alike => by
      have tested := reportsAlike_checkExpr table block condition alike
      have thenAlike := reportsAlike_checkStmt table thenBranch block
        (reportsAlike_checkConverts table (checkExpr table block condition first).type .boolean
          (checkExpr table block condition first).node.span tested.state)
      simp only [checkStmt, tested.node, tested.type, thenAlike.node]
      exact ⟨rfl, thenAlike.state⟩
  | .branch span condition thenBranch (some elseBranch), block, first, _, alike => by
      have tested := reportsAlike_checkExpr table block condition alike
      have thenAlike := reportsAlike_checkStmt table thenBranch block
        (reportsAlike_checkConverts table (checkExpr table block condition first).type .boolean
          (checkExpr table block condition first).node.span tested.state)
      have elseAlike := reportsAlike_checkStmt table elseBranch block thenAlike.state
      simp only [checkStmt, tested.node, tested.type, thenAlike.node, elseAlike.node]
      exact ⟨rfl, elseAlike.state⟩
  | .forEach span element collection none facts, block, _, _, alike => by
      have head := reportsAlike_checkLoopHead firstOptions secondOptions table block element
        collection alike
      simp only [checkStmt, head.element, head.collection, head.scope, head.classification]
      exact ⟨rfl, head.state⟩
  | .forEach span element collection (some action) facts, block, first, _, alike => by
      have head := reportsAlike_checkLoopHead firstOptions secondOptions table block element
        collection alike
      have actionAlike := reportsAlike_checkStmt table action
        (checkLoopHead table firstOptions block element collection first).scope head.state
      simp only [checkStmt, head.element, head.collection, head.scope, head.classification,
        actionAlike.node]
      exact ⟨rfl, actionAlike.state⟩
  | .labeled span label body, block, _, _, alike => by
      have bodyAlike := reportsAlike_checkStmt table body block alike
      simp only [checkStmt, bodyAlike.node]
      exact ⟨rfl, bodyAlike.state⟩
  | .breakTo .., _, _, _, alike | .continueTo .., _, _, _, alike | .empty _, _, _, _, alike => by
      simp only [checkStmt]
      exact ⟨rfl, alike⟩
  | .returnWith span none, _, _, _, alike => by
      simp only [checkStmt, alike.returnType]
      exact ⟨rfl, alike.reportIf _ _ _⟩
  | .returnWith span (some value), block, _, _, alike => by
      have valueAlike := reportsAlike_checkExpr table block value alike
      simp only [checkStmt, valueAlike.node]
      exact ⟨rfl, reportsAlike_checkReturned table valueAlike⟩

theorem reportsAlike_checkStmts
    (table : ClassTable) :
    ∀ (stmts : List Stmt) (block : ScopeId) {first second : MethodState},
      first.ReportsAlike second →
      (checkStmts table firstOptions block stmts first).ReportsAlike
        (checkStmts table secondOptions block stmts second)
  | [], _, _, _, alike => by
      simp only [checkStmts]
      exact ⟨rfl, alike⟩
  | stmt :: rest, block, _, _, alike => by
      have headAlike := reportsAlike_checkStmt table stmt block alike
      have tailAlike := reportsAlike_checkStmts table rest block headAlike.state
      simp only [checkStmts, headAlike.node, tailAlike.node]
      exact ⟨rfl, tailAlike.state⟩

end

/-- A method is resolved alike. -/
theorem reportsAlike_checkMethod
    (table : ClassTable)
    (method : Method)
    (state : MethodState) :
    (checkMethod table firstOptions method state).ReportsAlike
      (checkMethod table secondOptions method state) := by
  have body := reportsAlike_checkStmts firstOptions secondOptions table method.body.stmts
    MethodScope.root
    (.refl (checkParams table method.params (checkReturnType table method.returnType
      (checkTypeParams table method.typeParams state))).state)
  simp only [checkMethod, body.node]
  exact ⟨rfl, body.state⟩

end Statements

end LoopLowering
