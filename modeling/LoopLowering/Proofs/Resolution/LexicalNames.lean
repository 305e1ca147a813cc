import LoopLowering.Proofs.Resolution.LexicalScopes

namespace LoopLowering

/-!
# Names are bound lexically

Every use of a name in a method is bound to the local that the name means where
it is used, or is reported as undefined. The exception is the initial value of a
loop variable, which resolution does not look at.
-/

namespace MethodState

/-- A use of a name is resolved: it is bound to the local that the name means,
which the source declares unless the name is reserved, or it means none and is
reported. -/
structure Binds
    (state : MethodState)
    (use : NameUse) :
    Prop where
  isMeant : use.name.node.binding = use.visible.meaning? use.name.node.name
  isLocal : ∀ id, use.name.node.binding = some id →
    id < state.scope.locals.size ∧ (state.localAt id).name = use.name.node.name ∧
      (isReservedName use.name.node.name = false → (state.localAt id).isSynthetic = false)
  isReported : use.name.node.binding = none →
    (Issue.undefinedVariable use.name.node.name).diagnostic use.name.span ∈ state.diagnostics

/-- Uses of names are resolved, except for those in the initial values of loop
variables. -/
def BindsAll
    (state : MethodState)
    (uses : List NameUse) :
    Prop :=
  ∀ use ∈ uses, use.isLoopInitial = false → state.Binds use

section Later

variable
  {before after : MethodState}
  (leads : before.Leads after)

include leads

/-- What is resolved stays resolved. -/
theorem Binds.later
    {use : NameUse}
    (binds : before.Binds use) :
    after.Binds use where
  isMeant := binds.isMeant
  isLocal := by
    intro id isBound
    obtain ⟨inLocals, sameName, isSource⟩ := binds.isLocal id isBound
    have persists : (before.localAt id).Persists (after.localAt id) :=
      leads.scope.persists id inLocals
    refine ⟨Nat.lt_of_lt_of_le inLocals leads.scope.localCount, persists.name.trans sameName, ?_⟩
    exact fun unreserved => persists.isSynthetic.trans (isSource unreserved)
  isReported := fun isUnbound => leads.reports _ (binds.isReported isUnbound)

/-- What is resolved stays resolved. -/
theorem BindsAll.later
    {uses : List NameUse}
    (binds : before.BindsAll uses) :
    after.BindsAll uses :=
  fun use isUsed isRegular => (binds use isUsed isRegular).later leads

end Later

theorem BindsAll.append
    {state : MethodState}
    {first second : List NameUse}
    (left : state.BindsAll first)
    (right : state.BindsAll second) :
    state.BindsAll (first ++ second) :=
  List.forall_mem_append.mpr ⟨left, right⟩

theorem BindsAll.nil
    {state : MethodState} :
    state.BindsAll [] :=
  fun _ isUsed => absurd isUsed List.not_mem_nil

/-- The uses in the initial value of a loop variable do not have to be
resolved. -/
theorem BindsAll.loopInitial
    {state : MethodState}
    (visible : VisibleNames)
    (element : LocalDecl) :
    state.BindsAll (element.uses visible true) := by
  intro use isUsed isRegular
  cases (LocalDecl.isLoopInitial_of_mem_uses isUsed).symm.trans isRegular

end MethodState

open MethodState

/-- A name that is bound is resolved. -/
theorem MethodState.StandsAt.binds_bindName
    {state : MethodState}
    {block : Nat}
    {visible : VisibleNames}
    (stands : state.StandsAt block visible)
    (span : Span)
    (ref : NameRef) :
    (bindName block span ref state).2.Binds
      ⟨⟨(bindName block span ref state).1, span⟩, visible, false⟩ where
  isMeant := stands.wellFormed.lookup_eq_meaning? stands.shows ref.name
  isLocal := by
    intro id isBound
    have found : state.scope.lookup block ref.name = some id := isBound
    have sameScope : (bindName block span ref state).2.scope = state.scope := scope_reportIf _ _ _ _
    simp only [MethodState.localAt, sameScope]
    refine ⟨(stands.wellFormed.sees_lookup found).1, MethodScope.name_of_lookup found, ?_⟩
    intro unreserved
    refine Bool.eq_false_iff.mpr fun isSynthetic => ?_
    have reserved := stands.shows.isReservedName_of_lookup stands.wellFormed found isSynthetic
    rw [MethodScope.name_of_lookup found] at reserved
    cases reserved.symm.trans unreserved
  isReported := by
    intro isUnbound
    have missing : state.scope.lookup block ref.name = none := isUnbound
    simp [bindName, missing, reportIf, report]

namespace Expr

variable
  (visible : VisibleNames)
  (isLoopInitial : Bool)

/-- The uses in an array are those in its elements. -/
theorem uses_newArray
    (span : Span)
    (component : TypeExpr)
    (elements : List Expr) :
    (newArray span component elements).uses visible isLoopInitial =
      allUses visible isLoopInitial elements := by
  simp [uses, allUses, visits, visitNode, List.filterMap_cons, VisitedNode.use?]

/-- The uses in an operation are those in its operands. -/
theorem uses_binary
    (span : Span)
    (op : BinOp)
    (left right : Expr) :
    (binary span op left right).uses visible isLoopInitial =
      left.uses visible isLoopInitial ++ right.uses visible isLoopInitial := by
  simp [uses, visits, visitNode, List.filterMap_cons, VisitedNode.use?]

/-- The uses in an assignment are its target and those in its value. -/
theorem uses_assign
    (span : Span)
    (target : Spanned NameRef)
    (op : Option BinOp)
    (value : Expr) :
    (assign span target op value).uses visible isLoopInitial =
      ⟨target, visible, isLoopInitial⟩ :: value.uses visible isLoopInitial := by
  simp [uses, visits, visitNode, VisitedNode.use?]

/-- The uses in a call are those in its arguments. -/
theorem uses_call
    (span : Span)
    (function : Spanned String)
    (args : List Expr) :
    (call span function args).uses visible isLoopInitial = allUses visible isLoopInitial args := by
  simp [uses, allUses, visits, visitNode, List.filterMap_cons, VisitedNode.use?]

/-- The uses in a method call are those in its receiver and its arguments. -/
theorem uses_methodCall
    (span : Span)
    (receiver : Expr)
    (method : Spanned String)
    (args : List Expr) :
    (methodCall span receiver method args).uses visible isLoopInitial =
      receiver.uses visible isLoopInitial ++ allUses visible isLoopInitial args := by
  simp [uses, allUses, visits, visitNode, List.filterMap_cons, VisitedNode.use?]

/-- The uses in expressions are those in the first and those in the others. -/
theorem allUses_cons
    (expr : Expr)
    (rest : List Expr) :
    allUses visible isLoopInitial (expr :: rest) =
      expr.uses visible isLoopInitial ++ allUses visible isLoopInitial rest := by
  simp [uses, allUses, visitsAll]

end Expr

mutual

/-- Resolving an expression resolves the names in it. -/
theorem binds_checkExpr
    (table : ClassTable)
    {block : Nat}
    {visible : VisibleNames} :
    ∀ (expr : Expr) {state : MethodState},
      state.StandsAt block visible →
      (checkExpr table block expr state).state.BindsAll
        ((checkExpr table block expr state).node.uses visible false)
  | .intLit .., _, _ | .boolLit .., _, _ | .stringLit .., _, _ | .null _, _, _ => by
      simp only [checkExpr]
      exact .nil
  | .name span ref, state, stands => by
      simp only [checkExpr]
      intro use isUsed _
      obtain rfl := List.mem_singleton.mp isUsed
      exact (stands.binds_bindName span ref).later (marks_markUse _ _).toLeads
  | .newArray _ component elements, state, stands => by
      simp only [checkExpr, Expr.uses_newArray]
      exact binds_checkElements table elements
        (stands.afterMarks (marks_resolveType table component state))
  | .binary span op left right, state, stands => by
      have leftMarks := marks_checkExpr table block left state
      have rightMarks := marks_checkExpr table block right (checkExpr table block left state).state
      have operands := ((binds_checkExpr table left stands).later rightMarks.toLeads).append
        (binds_checkExpr table right (stands.afterMarks leftMarks))
      simp only [checkExpr]
      split
      · simpa only [Expr.uses_binary] using operands
      · simpa only [Expr.uses_binary] using operands.later (marks_report _ _ _).toLeads
  | .assign span target op value, state, stands => by
      have bound := marks_bindName block target.span target.node state
      have used : (bindName block target.span target.node state).2.Marks
          (if op.isSome then
            markUse (bindName block target.span target.node state).1.binding
              (bindName block target.span target.node state).2
          else (bindName block target.span target.node state).2) := by
        split
        · exact marks_markUse _ _
        · exact .refl _
      have assigned := (stands.binds_bindName target.span target.node).later
        (used.trans (marks_checkExpr table block value _)).toLeads
      have evaluated := binds_checkExpr table value (stands.afterMarks (bound.trans used))
      have both : (checkExpr table block value _).state.BindsAll
          (⟨⟨(bindName block target.span target.node state).1, target.span⟩, visible, false⟩ ::
            (checkExpr table block value _).node.uses visible false) :=
        List.forall_mem_cons.mpr ⟨fun _ => assigned, evaluated⟩
      simp only [checkExpr]
      split
      · simpa only [Expr.uses_assign] using both
      · simpa only [Expr.uses_assign] using
          both.later (marks_checkAssignedValue _ _ _ _ _ _ _).toLeads
  | .call span function args, state, stands => by
      have evaluated := binds_checkExprs table args stands
      simp only [checkExpr]
      split
      · simpa only [Expr.uses_call] using evaluated.later (marks_report _ _ _).toLeads
      · simpa only [Expr.uses_call] using
          evaluated.later (marks_checkArguments _ _ _ _ _ _ _).toLeads
  | .methodCall span receiver method args, state, stands => by
      have receiverMarks := marks_checkExpr table block receiver state
      have argMarks := marks_checkExprs table block args
        (checkExpr table block receiver state).state
      have evaluated := ((binds_checkExpr table receiver stands).later argMarks.toLeads).append
        (binds_checkExprs table args (stands.afterMarks receiverMarks))
      simp only [checkExpr]
      split
      · simpa only [Expr.uses_methodCall] using evaluated
      · split
        · simpa only [Expr.uses_methodCall] using evaluated.later (marks_report _ _ _).toLeads
        · simpa only [Expr.uses_methodCall] using
            evaluated.later (marks_checkArguments _ _ _ _ _ _ _).toLeads

theorem binds_checkExprs
    (table : ClassTable)
    {block : Nat}
    {visible : VisibleNames} :
    ∀ (exprs : List Expr) {state : MethodState},
      state.StandsAt block visible →
      (checkExprs table block exprs state).state.BindsAll
        (Expr.allUses visible false (checkExprs table block exprs state).nodes)
  | [], state, stands => by
      simp only [checkExprs]
      exact .nil
  | expr :: rest, state, stands => by
      have marks := marks_checkExpr table block expr state
      have restMarks := marks_checkExprs table block rest (checkExpr table block expr state).state
      simp only [checkExprs, Expr.allUses_cons]
      exact ((binds_checkExpr table expr stands).later restMarks.toLeads).append
        (binds_checkExprs table rest (stands.afterMarks marks))

theorem binds_checkElements
    (table : ClassTable)
    {block : Nat}
    {visible : VisibleNames}
    {component : Ty} :
    ∀ (exprs : List Expr) {state : MethodState},
      state.StandsAt block visible →
      (checkElements table block component exprs state).state.BindsAll
        (Expr.allUses visible false (checkElements table block component exprs state).nodes)
  | [], state, stands => by
      simp only [checkElements]
      exact .nil
  | expr :: rest, state, stands => by
      have marks := marks_checkExpr table block expr state
      have converts := marks_checkConverts table (checkExpr table block expr state).type component
        (checkExpr table block expr state).node.span (checkExpr table block expr state).state
      have restMarks := marks_checkElements table block component rest
        (checkConverts table (checkExpr table block expr state).type component
          (checkExpr table block expr state).node.span (checkExpr table block expr state).state)
      simp only [checkElements, Expr.allUses_cons]
      exact ((binds_checkExpr table expr stands).later
        (converts.trans restMarks).toLeads).append
          (binds_checkElements table rest (stands.afterMarks (marks.trans converts)))

end

/-- Resolving the head of a loop resolves the names in the collection, and the
loop variable and the locals of the compiler are visible from then on. -/
theorem MethodState.StandsAt.afterLoopHead
    {outer : Nat}
    {visible : VisibleNames}
    {state : MethodState}
    (stands : state.StandsAt outer visible)
    (table : ClassTable)
    (options : CompilerOptions)
    (element : LocalDecl)
    (collection : Expr) :
    let head := checkLoopHead table options outer element collection state
    head.state.StandsAt head.scope
        (VisibleNames.declare head.classification.names (head.element.visibleInLoop visible)) ∧
      head.state.BindsAll (head.element.uses (head.element.visibleInLoop visible) true ++
        head.collection.uses (head.element.visibleInLoop visible) false) := by
  intro head
  have declared := stands.afterOpenBlock.afterDeclaration table element
  have collectionMarks := marks_checkExpr table state.scope.nextBlock collection
    (checkDeclaration table state.scope.nextBlock element (state.mapScope (.openBlock outer))).state
  have evaluated := binds_checkExpr table collection declared
  have resolved := (declared.afterMarks collectionMarks).afterResolveLoop table options
  refine ⟨resolved _ _ _, .append (.loopInitial _ _) (evaluated.later ?_)⟩
  exact leads_resolveLoop _ _ _ _ _ _ _

mutual

/-- Resolving a statement resolves the names in it, and the names that it
declares are visible from then on. -/
theorem binds_checkStmt
    (table : ClassTable)
    (options : CompilerOptions) :
    ∀ (stmt : Stmt) {block : Nat} {visible : VisibleNames} {state : MethodState},
      state.StandsAt block visible →
      (checkStmt table options block stmt state).state.StandsAt block
          (visible.declare (checkStmt table options block stmt state).node.names) ∧
        (checkStmt table options block stmt state).state.BindsAll
          ((checkStmt table options block stmt state).node.uses visible)
  | .localVar span decl, block, visible, state, stands => by
      have declared := stands.afterDeclaration table decl
      simp only [checkStmt]
      cases initial : decl.initial with
      | none =>
          refine ⟨declared, ?_⟩
          have noUses : (checkDeclaration table block decl state).node.initial = none := initial
          simp only [Stmt.uses, LocalDecl.uses, noUses]
          exact .nil
      | some value =>
          refine ⟨(declared.afterMarks (marks_checkExpr table block value _)).afterMarks
            (marks_checkConverts _ _ _ _ _), ?_⟩
          exact (binds_checkExpr table value declared).later (marks_checkConverts _ _ _ _ _).toLeads
  | .expr span value, block, visible, state, stands => by
      simp only [checkStmt, Stmt.uses, Stmt.names, VisibleNames.declare_nil]
      exact ⟨stands.afterMarks (marks_checkExpr table block value state),
        binds_checkExpr table value stands⟩
  | .block span stmts facts, block, visible, state, stands => by
      obtain ⟨⟨names, inner⟩, binds⟩ := binds_checkStmts table options stmts stands.afterOpenBlock
      simp only [checkStmt, Stmt.uses, Stmt.names, VisibleNames.declare_nil]
      exact ⟨stands.leave (leads_checkStmts table options stmts _ _) inner, binds⟩
  | .branch span condition thenBranch none, block, visible, state, stands => by
      obtain ⟨after, binds⟩ := binds_checkStmt table options thenBranch
        (stands.afterMarks (marks_checkGiven table block condition .boolean state))
      simp only [checkStmt, Stmt.uses, Stmt.names]
      exact ⟨after, .append ((binds_checkExpr table condition stands).later
        ((marks_checkConverts _ _ _ _ _).toLeads.trans
          (leads_checkStmt table options thenBranch block _))) binds⟩
  | .branch span condition thenBranch (some elseBranch), block, visible, state, stands => by
      obtain ⟨afterThen, bindsThen⟩ := binds_checkStmt table options thenBranch
        (stands.afterMarks (marks_checkGiven table block condition .boolean state))
      obtain ⟨afterElse, bindsElse⟩ := binds_checkStmt table options elseBranch afterThen
      simp only [checkStmt, Stmt.uses, Stmt.names]
      have beforeElse := leads_checkStmt table options elseBranch block
      refine ⟨by simpa only [VisibleNames.declare_declare] using afterElse,
        .append (.append ?_ (bindsThen.later (beforeElse _))) bindsElse⟩
      exact (binds_checkExpr table condition stands).later
        ((marks_checkConverts _ _ _ _ _).toLeads.trans
          ((leads_checkStmt table options thenBranch block _).trans (beforeElse _)))
  | .forEach span element collection none facts, block, visible, state, stands => by
      obtain ⟨inner, binds⟩ := stands.afterLoopHead table options element collection
      simp only [checkStmt, Stmt.uses, Stmt.names, VisibleNames.declare_nil]
      exact ⟨stands.leave (leads_openedLoopHead table options block element collection state) inner,
        binds⟩
  | .forEach span element collection (some action) facts, block, visible, state, stands => by
      obtain ⟨inner, binds⟩ := stands.afterLoopHead table options element collection
      obtain ⟨after, bindsAction⟩ := binds_checkStmt table options action inner
      have headLeads := leads_openedLoopHead table options block element collection state
      have actionLeads := leads_checkStmt table options action
        (checkLoopHead table options block element collection state).scope
        (checkLoopHead table options block element collection state).state
      simp only [checkStmt, Stmt.uses, Stmt.names, VisibleNames.declare_nil]
      exact ⟨stands.leave (headLeads.trans actionLeads) after,
        .append (binds.later actionLeads) bindsAction⟩
  | .labeled span label body, block, visible, state, stands => by
      simp only [checkStmt, Stmt.uses, Stmt.names]
      exact binds_checkStmt table options body stands
  | .breakTo .., block, visible, state, stands
  | .continueTo .., block, visible, state, stands
  | .empty _, block, visible, state, stands => by
      simp only [checkStmt, Stmt.uses, Stmt.names, VisibleNames.declare_nil]
      exact ⟨stands, .nil⟩
  | .returnWith span none, block, visible, state, stands => by
      simp only [checkStmt, Stmt.uses, Stmt.names, VisibleNames.declare_nil]
      exact ⟨stands.afterMarks (marks_reportIf _ _ _ _), .nil⟩
  | .returnWith span (some value), block, visible, state, stands => by
      have returned := marks_checkReturned table (checkExpr table block value state)
      simp only [checkStmt, Stmt.uses, Stmt.names, VisibleNames.declare_nil]
      exact ⟨stands.afterMarks ((marks_checkExpr table block value state).trans returned),
        (binds_checkExpr table value stands).later returned.toLeads⟩

theorem binds_checkStmts
    (table : ClassTable)
    (options : CompilerOptions) :
    ∀ (stmts : List Stmt) {block : Nat} {visible : VisibleNames} {state : MethodState},
      state.StandsAt block visible →
      (∃ names, (checkStmts table options block stmts state).state.StandsAt block
          (visible.declare names)) ∧
        (checkStmts table options block stmts state).state.BindsAll
          (Stmt.allUses visible (checkStmts table options block stmts state).node)
  | [], block, visible, state, stands => by
      simp only [checkStmts, Stmt.allUses]
      exact ⟨⟨[], by simpa using stands⟩, .nil⟩
  | stmt :: rest, block, visible, state, stands => by
      obtain ⟨after, binds⟩ := binds_checkStmt table options stmt stands
      obtain ⟨⟨names, last⟩, bindsRest⟩ := binds_checkStmts table options rest after
      simp only [checkStmts, Stmt.allUses]
      refine ⟨⟨_, by simpa using last⟩, .append (binds.later ?_) bindsRest⟩
      exact leads_checkStmts table options rest block _

end

/-- Declaring parameters makes their names visible. -/
theorem MethodState.StandsAt.afterParams
    (table : ClassTable) :
    ∀ (params : List Param) {visible : VisibleNames} {state : MethodState},
      state.StandsAt MethodScope.root visible →
      (checkParams table params state).state.StandsAt MethodScope.root
        ((checkParams table params state).node.foldl
          (fun visible param => visible.declare param.names) visible)
  | [], _, _, stands => stands
  | param :: rest, _, state, stands =>
      afterParams table rest
        ((stands.afterMarks (marks_resolveType table param.type state)).afterDeclareLocal rfl)

/-- The body of a method starts where the names of its parameters are visible. -/
theorem Method.standsAt_bodyState
    (table : ClassTable)
    (method : Method) :
    (method.bodyState table).StandsAt MethodScope.root
      ((checkParams table method.params (method.signatureState table)).node.foldl
        (fun visible param => visible.declare param.names) [[]]) := by
  refine MethodState.StandsAt.afterParams table method.params ?_
  have unscoped := scope_signatureState table method
  refine ⟨?_, ?_, ?_⟩
  · rw [unscoped]
    exact MethodScope.wellFormed_initial
  · rw [unscoped]
    exact MethodScope.wellFormed_initial.root
  · rw [unscoped]
    refine .outermost rfl ⟨rfl, ?_⟩
    simp [MethodScope.initial, MethodScope.block, MethodScope.root]

/-- The names in the initial values of loop variables. -/
def loopInitialNames
    (uses : List NameUse) :
    List (Spanned NameRef) :=
  (uses.filter NameUse.isLoopInitial).map NameUse.name

/-- The names of two lists of uses are those of the first and of the second. -/
theorem loopInitialNames_append
    (first second : List NameUse) :
    loopInitialNames (first ++ second) = loopInitialNames first ++ loopInitialNames second := by
  simp [loopInitialNames]

/-- A name in an expression elsewhere is not one of them. -/
theorem Expr.loopInitialNames_uses
    (visible : VisibleNames)
    (expr : Expr) :
    loopInitialNames (expr.uses visible false) = [] := by
  rw [loopInitialNames, List.filter_eq_nil_iff.mpr, List.map_nil]
  intro use isUsed
  simp [Expr.isLoopInitial_of_mem_uses isUsed]

/-- A name in another declaration is not one of them. -/
theorem LocalDecl.loopInitialNames_uses
    (visible : VisibleNames)
    (decl : LocalDecl) :
    loopInitialNames (decl.uses visible false) = [] := by
  rw [loopInitialNames, List.filter_eq_nil_iff.mpr, List.map_nil]
  intro use isUsed
  simp [LocalDecl.isLoopInitial_of_mem_uses isUsed]

/-- Which names they are does not depend on what is visible. -/
theorem LocalDecl.loopInitialNames_uses_element
    (visible : VisibleNames)
    (element : LocalDecl) :
    loopInitialNames (element.uses visible true) =
      (element.visits fun _ => true).filterMap VisitedNode.use? := by
  rw [loopInitialNames, List.filter_eq_self.mpr, LocalDecl.map_name_uses]
  exact fun use isUsed => LocalDecl.isLoopInitial_of_mem_uses isUsed

mutual

/-- Resolving a statement leaves the names in the initial values of loop
variables alone. -/
theorem loopInitialNames_checkStmt
    (table : ClassTable)
    (options : CompilerOptions) :
    ∀ (stmt : Stmt) (block : ScopeId) (state : MethodState) (visible before : VisibleNames),
      loopInitialNames ((checkStmt table options block stmt state).node.uses visible) =
        loopInitialNames (stmt.uses before)
  | .localVar span decl, block, state, visible, before => by
      simp only [checkStmt]
      split <;> simp only [Stmt.uses, LocalDecl.loopInitialNames_uses]
  | .expr span value, block, state, visible, before => by
      simp only [checkStmt, Stmt.uses, Expr.loopInitialNames_uses]
  | .block span stmts facts, block, state, visible, before => by
      simp only [checkStmt, Stmt.uses]
      exact loopInitialNames_checkStmts table options stmts _ _ _ _
  | .branch span condition thenBranch none, block, state, visible, before => by
      simp only [checkStmt, Stmt.uses, loopInitialNames_append, Expr.loopInitialNames_uses]
      rw [loopInitialNames_checkStmt table options thenBranch _ _ _ before]
  | .branch span condition thenBranch (some elseBranch), block, state, visible, before => by
      simp only [checkStmt, Stmt.uses, loopInitialNames_append, Expr.loopInitialNames_uses]
      rw [loopInitialNames_checkStmt table options thenBranch _ _ _ before,
        loopInitialNames_checkStmt table options elseBranch _ _ _
          (before.declare thenBranch.names)]
  | .forEach span element collection none facts, block, state, visible, before => by
      simp only [checkStmt, Stmt.uses, loopInitialNames_append, Expr.loopInitialNames_uses,
        LocalDecl.loopInitialNames_uses_element]
      rfl
  | .forEach span element collection (some action) facts, block, state, visible, before => by
      simp only [checkStmt, Stmt.uses, loopInitialNames_append, Expr.loopInitialNames_uses,
        LocalDecl.loopInitialNames_uses_element]
      rw [loopInitialNames_checkStmt table options action _ _ _
        (VisibleNames.declare facts.classification.names (element.visibleInLoop before))]
      rfl
  | .labeled span label body, block, state, visible, before => by
      simp only [checkStmt, Stmt.uses]
      exact loopInitialNames_checkStmt table options body _ _ _ _
  | .breakTo .., block, state, visible, before | .continueTo .., block, state, visible, before
  | .returnWith span none, block, state, visible, before
  | .empty _, block, state, visible, before => by
      simp only [checkStmt, Stmt.uses]
  | .returnWith span (some value), block, state, visible, before => by
      simp only [checkStmt, Stmt.uses, Expr.loopInitialNames_uses]

theorem loopInitialNames_checkStmts
    (table : ClassTable)
    (options : CompilerOptions) :
    ∀ (stmts : List Stmt) (block : ScopeId) (state : MethodState) (visible before : VisibleNames),
      loopInitialNames (Stmt.allUses visible (checkStmts table options block stmts state).node) =
        loopInitialNames (Stmt.allUses before stmts)
  | [], block, state, visible, before => by
      simp only [checkStmts, Stmt.allUses]
  | stmt :: rest, block, state, visible, before => by
      simp only [checkStmts, Stmt.allUses, loopInitialNames_append]
      rw [loopInitialNames_checkStmt table options stmt _ _ _ before,
        loopInitialNames_checkStmts table options rest _ _ _ (before.declare stmt.names)]

end

/-- Resolution reaches every use of a name that a traversal reaches. It resolves
each of them but those in the initial values of loop variables, and leaves these
as they are. -/
theorem Method.names_bound_lexically
    (table : ClassTable)
    (options : CompilerOptions)
    (method : Method) :
    let checked := checkMethod table options method .initial
    checked.node.uses.map NameUse.name = checked.node.visits.filterMap VisitedNode.use? ∧
      checked.state.BindsAll checked.node.uses ∧
      loopInitialNames checked.node.uses = loopInitialNames method.uses := by
  refine ⟨Method.map_name_uses _, ?_, ?_⟩
  · exact (binds_checkStmts table options method.body.stmts (method.standsAt_bodyState table)).2
  · exact loopInitialNames_checkStmts table options method.body.stmts _ _ _ _

end LoopLowering
