import LoopLowering.Proofs.Locals.WellFormed
import LoopLowering.Resolution.Statements

namespace LoopLowering

/-!
# Growth of the state of a method

Resolution never takes anything back: locals, scopes and errors stay once they
are there, and neither the type variables nor the result type change while the
body is resolved. Resolving an expression only marks locals as used.
-/

namespace MethodState

/-- No error has been reported. -/
def Clean
    (state : MethodState) :
    Prop :=
  state.diagnostics.hasErrors = false

/-- Whether a state is clean can be computed. -/
instance
    (state : MethodState) :
    Decidable state.Clean :=
  inferInstanceAs (Decidable (state.diagnostics.hasErrors = false))

@[simp] theorem clean_report
    (issue : Issue)
    (span : Span)
    (state : MethodState) :
    (state.report issue span).Clean ↔ issue.severity ≠ .error ∧ state.Clean := by
  simp only [Clean, report, Diagnostics.hasErrors, Issue.diagnostic]
  rw [Array.any_push]
  simp [and_comm]

/-- A check that reports an error leaves a state clean only if nothing is
wrong. -/
theorem clean_reportIf
    (wrong : Bool)
    {issue : Issue}
    (isError : issue.severity = .error)
    (span : Span)
    (state : MethodState) :
    (state.reportIf wrong issue span).Clean ↔ wrong = false ∧ state.Clean := by
  cases wrong <;> simp [reportIf, isError]

/-- The state of a method at an earlier and at a later time. -/
structure Leads
    (before after : MethodState) :
    Prop where
  scope : before.scope.Grows after.scope
  typeVars : after.typeVars = before.typeVars
  returnType : after.returnType = before.returnType
  reports : ∀ diagnostic ∈ before.diagnostics, diagnostic ∈ after.diagnostics

/-- Between two times, locals have been marked as used at most. -/
structure Marks
    (before after : MethodState) :
    Prop extends before.Leads after where
  sameBlocks : after.scope.blocks = before.scope.blocks
  sameCount : after.scope.locals.size = before.scope.locals.size

namespace Leads

@[refl] theorem refl
    (state : MethodState) :
    state.Leads state :=
  ⟨.refl _, rfl, rfl, fun _ => id⟩

theorem trans
    {first second third : MethodState}
    (earlier : first.Leads second)
    (later : second.Leads third) :
    first.Leads third where
  scope := earlier.scope.trans later.scope
  typeVars := later.typeVars.trans earlier.typeVars
  returnType := later.returnType.trans earlier.returnType
  reports := fun _ reported => later.reports _ (earlier.reports _ reported)

/-- A state without errors had none before. -/
theorem isClean
    {before after : MethodState}
    (leads : before.Leads after)
    (clean : after.Clean) :
    before.Clean := by
  simp only [Clean, Diagnostics.hasErrors, Array.any_eq_false'] at clean ⊢
  exact fun diagnostic reported => clean diagnostic (leads.reports diagnostic reported)

/-- Changing the locals in a way that lets them grow. -/
theorem mapScope
    {state : MethodState}
    {change : MethodScope → MethodScope}
    (grows : state.scope.Grows (change state.scope)) :
    state.Leads (state.mapScope change) :=
  ⟨grows, rfl, rfl, fun _ => id⟩

end Leads

namespace Marks

@[refl] theorem refl
    (state : MethodState) :
    state.Marks state :=
  ⟨.refl _, rfl, rfl⟩

theorem trans
    {first second third : MethodState}
    (earlier : first.Marks second)
    (later : second.Marks third) :
    first.Marks third where
  toLeads := earlier.toLeads.trans later.toLeads
  sameBlocks := later.sameBlocks.trans earlier.sameBlocks
  sameCount := later.sameCount.trans earlier.sameCount

/-- The scopes stay well formed. -/
theorem wellFormed
    {before after : MethodState}
    (marks : before.Marks after)
    (wellFormed : before.scope.WellFormed) :
    after.scope.WellFormed :=
  wellFormed.relabel marks.scope marks.sameBlocks marks.sameCount

/-- Marking locals as used keeps what is known of each. -/
theorem persists
    {before after : MethodState}
    (marks : before.Marks after)
    (id : LocalId) :
    (before.localAt id).Persists (after.localAt id) := by
  by_cases known : id < before.scope.locals.size
  · exact marks.scope.persists id known
  · have unknown : ¬id < after.scope.locals.size := by
      rw [marks.sameCount]
      exact known
    change (before.scope.localAt id).Persists (after.scope.localAt id)
    rw [MethodScope.localAt_unknown known, MethodScope.localAt_unknown unknown]

/-- Marking locals as used renames nothing. -/
theorem sameName
    {before after : MethodState}
    (marks : before.Marks after)
    (id : LocalId) :
    (after.localAt id).name = (before.localAt id).name :=
  (marks.persists id).name

/-- Marking locals as used gives no local another type. -/
theorem sameType
    {before after : MethodState}
    (marks : before.Marks after)
    (id : LocalId) :
    (after.localAt id).type = (before.localAt id).type :=
  (marks.persists id).type

end Marks

/-- A report marks nothing. -/
theorem marks_report
    (issue : Issue)
    (span : Span)
    (state : MethodState) :
    state.Marks (state.report issue span) :=
  ⟨⟨.refl _, rfl, rfl, fun _ reported => Array.mem_push.mpr (.inl reported)⟩, rfl, rfl⟩

/-- A check marks nothing. -/
theorem marks_reportIf
    (wrong : Bool)
    (issue : Issue)
    (span : Span)
    (state : MethodState) :
    state.Marks (state.reportIf wrong issue span) := by
  cases wrong with
  | false =>
      exact .refl state
  | true =>
      exact marks_report issue span state

end MethodState

/-- Binding a name marks nothing. -/
theorem marks_bindName
    (block : ScopeId)
    (span : Span)
    (ref : NameRef)
    (state : MethodState) :
    state.Marks (bindName block span ref state).2 :=
  MethodState.marks_reportIf _ _ _ _

/-- Recording a use marks at most one local. -/
theorem marks_markUse
    (binding : Option LocalId)
    (state : MethodState) :
    state.Marks (markUse binding state) := by
  cases binding with
  | none =>
      exact .refl state
  | some id =>
      exact ⟨.mapScope (MethodScope.grows_markUsed id state.scope), rfl,
        by simp [markUse, MethodState.mapScope, MethodScope.markUsed, MethodScope.modifyLocal]⟩

/-- Resolving a written type marks nothing. -/
theorem marks_resolveType
    (table : ClassTable)
    (type : TypeExpr)
    (state : MethodState) :
    state.Marks (resolveType table type state).2 := by
  unfold resolveType
  split
  · exact .refl state
  · exact MethodState.marks_report _ _ _

/-- Checking a conversion marks nothing. -/
theorem marks_checkConverts
    (table : ClassTable)
    (source target : Ty)
    (span : Span)
    (state : MethodState) :
    state.Marks (checkConverts table source target span state) :=
  MethodState.marks_reportIf _ _ _ _

/-- Checking the types of arguments marks nothing. -/
theorem marks_checkArgumentTypes
    (table : ClassTable) :
    ∀ (params types : List Ty) (args : List Expr) (state : MethodState),
      state.Marks (checkArgumentTypes table params types args state)
  | param :: params, given :: types, arg :: args, state =>
      (marks_checkConverts table given param arg.span state).trans
        (marks_checkArgumentTypes table params types args _)
  | [], _, _, state | _ :: _, [], _, state | _ :: _, _ :: _, [], state => by
      simp only [checkArgumentTypes]
      exact .refl state

/-- Checking arguments marks nothing. -/
theorem marks_checkArguments
    (table : ClassTable)
    (name : String)
    (params types : List Ty)
    (args : List Expr)
    (span : Span)
    (state : MethodState) :
    state.Marks (checkArguments table name params types args span state) := by
  unfold checkArguments
  split
  · exact marks_checkArgumentTypes table params types args state
  · exact MethodState.marks_report _ _ _

/-- Checking an assigned value marks nothing. -/
theorem marks_checkAssignedValue
    (table : ClassTable)
    (op : Option BinOp)
    (target value : Ty)
    (span valueSpan : Span)
    (state : MethodState) :
    state.Marks (checkAssignedValue table op target value span valueSpan state) := by
  cases op with
  | none =>
      exact marks_checkConverts table value target valueSpan state
  | some op =>
      exact MethodState.marks_reportIf _ _ _ _

mutual

/-- Resolving an expression marks locals at most. -/
theorem marks_checkExpr
    (table : ClassTable)
    (block : ScopeId) :
    ∀ (expr : Expr) (state : MethodState),
      state.Marks (checkExpr table block expr state).state
  | .intLit .., state | .boolLit .., state | .stringLit .., state | .null _, state => by
      simp only [checkExpr]
      exact .refl state
  | .name span ref, state => by
      simp only [checkExpr]
      exact (marks_bindName block span ref state).trans (marks_markUse _ _)
  | .newArray _ component elements, state => by
      simp only [checkExpr]
      exact (marks_resolveType table component state).trans
        (marks_checkElements table block _ elements _)
  | .binary span op left right, state => by
      have operands := (marks_checkExpr table block left state).trans
        (marks_checkExpr table block right (checkExpr table block left state).state)
      simp only [checkExpr]
      split
      · exact operands
      · exact operands.trans (MethodState.marks_report _ _ _)
  | .assign span target op value, state => by
      have bound := marks_bindName block target.span target.node state
      have used : state.Marks
          (if op.isSome then
            markUse (bindName block target.span target.node state).1.binding
              (bindName block target.span target.node state).2
          else (bindName block target.span target.node state).2) := by
        split
        · exact bound.trans (marks_markUse _ _)
        · exact bound
      have evaluated := used.trans (marks_checkExpr table block value _)
      simp only [checkExpr]
      split
      · exact evaluated
      · exact evaluated.trans (marks_checkAssignedValue _ _ _ _ _ _ _)
  | .call span function args, state => by
      have evaluated := marks_checkExprs table block args state
      simp only [checkExpr]
      split
      · exact evaluated.trans (MethodState.marks_report _ _ _)
      · exact evaluated.trans (marks_checkArguments _ _ _ _ _ _ _)
  | .methodCall span receiver method args, state => by
      have evaluated := (marks_checkExpr table block receiver state).trans
        (marks_checkExprs table block args (checkExpr table block receiver state).state)
      simp only [checkExpr]
      split
      · exact evaluated
      · split
        · exact evaluated.trans (MethodState.marks_report _ _ _)
        · exact evaluated.trans (marks_checkArguments _ _ _ _ _ _ _)

theorem marks_checkExprs
    (table : ClassTable)
    (block : ScopeId) :
    ∀ (exprs : List Expr) (state : MethodState),
      state.Marks (checkExprs table block exprs state).state
  | [], state => by
      simp only [checkExprs]
      exact .refl state
  | expr :: rest, state => by
      simp only [checkExprs]
      exact (marks_checkExpr table block expr state).trans (marks_checkExprs table block rest _)

theorem marks_checkElements
    (table : ClassTable)
    (block : ScopeId)
    (component : Ty) :
    ∀ (exprs : List Expr) (state : MethodState),
      state.Marks (checkElements table block component exprs state).state
  | [], state => by
      simp only [checkElements]
      exact .refl state
  | expr :: rest, state => by
      simp only [checkElements]
      exact ((marks_checkExpr table block expr state).trans
        (marks_checkConverts table _ _ _ _)).trans (marks_checkElements table block component rest _)

end

/-- Declaring a local lets the locals grow. -/
theorem leads_declareLocal
    (block : ScopeId)
    (entry : LocalVariable)
    (state : MethodState) :
    state.Leads (declareLocal block entry state).2 :=
  (MethodState.marks_reportIf _ _ _ _).toLeads.trans (.mapScope (MethodScope.grows_declare _ _ _))

/-- Declaring the variable of a declaration lets the locals grow. -/
theorem leads_checkDeclaration
    (table : ClassTable)
    (block : ScopeId)
    (decl : LocalDecl)
    (state : MethodState) :
    state.Leads (checkDeclaration table block decl state).state :=
  (marks_resolveType table decl.type state).toLeads.trans (leads_declareLocal block _ _)

/-- Declaring the locals of a loop lets the locals grow. -/
theorem grows_declareSynthetics
    (block : ScopeId)
    (shape : LoopShape)
    (collection : Ty)
    (span : Span)
    (scope : MethodScope) :
    scope.Grows (scope.declareSynthetics block shape collection span) := by
  cases shape with
  | array =>
      exact ((MethodScope.grows_declare _ _ _).trans (MethodScope.grows_declare _ _ _)).trans
        (MethodScope.grows_declare _ _ _)
  | rawIterable receiver | genericIterable receiver =>
      exact MethodScope.grows_declare _ _ _

/-- Reporting what was found about a loop marks nothing. -/
theorem marks_reportFindings
    (options : CompilerOptions)
    (span : Span) :
    ∀ (findings : List LoopFinding) (state : MethodState),
      state.Marks
        (findings.foldl (fun state finding => state.report (finding.issue options) span) state)
  | [], _ => .refl _
  | _ :: rest, _ =>
      (MethodState.marks_report _ _ _).trans (marks_reportFindings options span rest _)

/-- Resolving a loop lets the locals grow. -/
theorem leads_resolveLoop
    (table : ClassTable)
    (options : CompilerOptions)
    (block : ScopeId)
    (declared collection : Ty)
    (span : Span)
    (state : MethodState) :
    state.Leads (resolveLoop table options block declared collection span state).2 := by
  unfold resolveLoop
  split
  · exact .refl state
  · split
    · exact (MethodState.marks_report _ _ _).toLeads
    · exact (marks_reportFindings options span _ state).toLeads.trans
        (.mapScope (grows_declareSynthetics _ _ _ _ _))

/-- Once the scope of a loop is open, resolving its head lets the locals grow. -/
theorem leads_openedLoopHead
    (table : ClassTable)
    (options : CompilerOptions)
    (outer : ScopeId)
    (element : LocalDecl)
    (collection : Expr)
    (state : MethodState) :
    (state.mapScope (.openBlock outer)).Leads
      (checkLoopHead table options outer element collection state).state :=
  ((leads_checkDeclaration table _ element _).trans
    (marks_checkExpr table _ collection _).toLeads).trans (leads_resolveLoop _ _ _ _ _ _ _)

/-- Resolving the head of a loop lets the locals grow. -/
theorem leads_checkLoopHead
    (table : ClassTable)
    (options : CompilerOptions)
    (outer : ScopeId)
    (element : LocalDecl)
    (collection : Expr)
    (state : MethodState) :
    state.Leads (checkLoopHead table options outer element collection state).state :=
  (MethodState.Leads.mapScope (MethodScope.grows_openBlock _ _)).trans
    (leads_openedLoopHead table options outer element collection state)

/-- Resolving an expression and checking what it gives marks locals at most. -/
theorem marks_checkGiven
    (table : ClassTable)
    (block : Nat)
    (expr : Expr)
    (target : Ty)
    (state : MethodState) :
    state.Marks (checkConverts table (checkExpr table block expr state).type target
      (checkExpr table block expr state).node.span (checkExpr table block expr state).state) :=
  (marks_checkExpr table block expr state).trans (marks_checkConverts _ _ _ _ _)

/-- Checking a returned value marks nothing. -/
theorem marks_checkReturned
    (table : ClassTable)
    (value : Checked Expr) :
    value.state.Marks (checkReturned table value) := by
  simp only [checkReturned]
  split
  · exact MethodState.marks_report _ _ _
  · exact marks_checkConverts _ _ _ _ _

mutual

/-- Resolving a statement lets the locals grow. -/
theorem leads_checkStmt
    (table : ClassTable)
    (options : CompilerOptions) :
    ∀ (stmt : Stmt) (block : ScopeId) (state : MethodState),
      state.Leads (checkStmt table options block stmt state).state
  | .localVar span decl, block, state => by
      have declared := leads_checkDeclaration table block decl state
      simp only [checkStmt]
      split
      · exact declared
      · exact (declared.trans (marks_checkExpr table block _ _).toLeads).trans
          (marks_checkConverts _ _ _ _ _).toLeads
  | .expr span value, block, state => by
      simp only [checkStmt]
      exact (marks_checkExpr table block value state).toLeads
  | .block span stmts facts, block, state => by
      have opened : state.Leads (state.mapScope (.openBlock block)) :=
        .mapScope (MethodScope.grows_openBlock _ _)
      simp only [checkStmt]
      exact opened.trans (leads_checkStmts table options stmts _ _)
  | .branch span condition thenBranch none, block, state => by
      simp only [checkStmt]
      exact (marks_checkGiven table block condition .boolean state).toLeads.trans
        (leads_checkStmt table options thenBranch block _)
  | .branch span condition thenBranch (some elseBranch), block, state => by
      simp only [checkStmt]
      exact ((marks_checkGiven table block condition .boolean state).toLeads.trans
        (leads_checkStmt table options thenBranch block _)).trans
          (leads_checkStmt table options elseBranch block _)
  | .forEach span element collection none facts, block, state => by
      simp only [checkStmt]
      exact leads_checkLoopHead table options block element collection state
  | .forEach span element collection (some action) facts, block, state => by
      simp only [checkStmt]
      exact (leads_checkLoopHead table options block element collection state).trans
        (leads_checkStmt table options action _ _)
  | .labeled span label body, block, state => by
      simp only [checkStmt]
      exact leads_checkStmt table options body block state
  | .breakTo .., block, state | .continueTo .., block, state | .empty _, block, state => by
      simp only [checkStmt]
      exact .refl state
  | .returnWith span none, block, state => by
      simp only [checkStmt]
      exact (MethodState.marks_reportIf _ _ _ _).toLeads
  | .returnWith span (some value), block, state => by
      simp only [checkStmt]
      exact ((marks_checkExpr table block value state).trans (marks_checkReturned _ _)).toLeads

theorem leads_checkStmts
    (table : ClassTable)
    (options : CompilerOptions) :
    ∀ (stmts : List Stmt) (block : ScopeId) (state : MethodState),
      state.Leads (checkStmts table options block stmts state).state
  | [], block, state => by
      simp only [checkStmts]
      exact .refl state
  | stmt :: rest, block, state => by
      simp only [checkStmts]
      exact (leads_checkStmt table options stmt block state).trans
        (leads_checkStmts table options rest block _)

end

end LoopLowering
