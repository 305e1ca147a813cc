import LoopLowering.Proofs.Locals.Layout
import LoopLowering.Proofs.Resolution.Methods
import LoopLowering.Syntax.Traversal

namespace LoopLowering

/-!
# Reserved names

The locals that the compiler introduces have names that start with a blank. A
method without such names refers to none of these locals, so that resolution
does not mark them as used.
-/

/-- A name that is reserved for the locals that the compiler introduces. -/
def isReservedName
    (name : String) :
    Bool :=
  name.toList.head? == some ' '

/-- The names of the locals that the compiler introduces are reserved. -/
theorem LoopShape.areReserved_names :
    isReservedName indexName = true ∧ isReservedName boundName = true ∧
      isReservedName sourceName = true := by
  decide +kernel

/-- A node neither declares nor uses a reserved name. -/
def VisitedNode.isUnreserved
    (node : VisitedNode) :
    Bool :=
  node.nameRef?.all fun ref => !isReservedName ref.name

/-- An expression uses no reserved name. -/
def Expr.isUnreserved
    (expr : Expr) :
    Bool :=
  (expr.visits fun _ => true).all VisitedNode.isUnreserved

/-- Expressions use no reserved name. -/
def Expr.areUnreserved
    (exprs : List Expr) :
    Bool :=
  (Expr.visitsAll (fun _ => true) exprs).all VisitedNode.isUnreserved

/-- A statement neither declares nor uses a reserved name. -/
def Stmt.isUnreserved
    (stmt : Stmt) :
    Bool :=
  (stmt.visits fun _ => true).all VisitedNode.isUnreserved

/-- Statements neither declare nor use a reserved name. -/
def Stmt.areUnreserved
    (stmts : List Stmt) :
    Bool :=
  (Stmt.visitsAll (fun _ => true) stmts).all VisitedNode.isUnreserved

/-- The body of a method neither declares nor uses a reserved name. -/
def Method.isUnreserved
    (method : Method) :
    Bool :=
  method.nameRefs.all fun ref => !isReservedName ref.name

namespace Expr

@[simp] theorem isUnreserved_intLit
    (span : Span)
    (value : Int32) :
    (intLit span value).isUnreserved = true :=
  rfl

@[simp] theorem isUnreserved_boolLit
    (span : Span)
    (value : Bool) :
    (boolLit span value).isUnreserved = true :=
  rfl

@[simp] theorem isUnreserved_stringLit
    (span : Span)
    (value : String) :
    (stringLit span value).isUnreserved = true :=
  rfl

@[simp] theorem isUnreserved_null
    (span : Span) :
    (null span).isUnreserved = true :=
  rfl

@[simp] theorem isUnreserved_name
    (span : Span)
    (ref : NameRef) :
    (name span ref).isUnreserved = !isReservedName ref.name := by
  simp [isUnreserved, visits, visitNode, VisitedNode.isUnreserved, VisitedNode.nameRef?]

@[simp] theorem isUnreserved_newArray
    (span : Span)
    (component : TypeExpr)
    (elements : List Expr) :
    (newArray span component elements).isUnreserved = areUnreserved elements := by
  simp [isUnreserved, areUnreserved, visits, visitNode, VisitedNode.isUnreserved,
    VisitedNode.nameRef?]

@[simp] theorem isUnreserved_binary
    (span : Span)
    (op : BinOp)
    (left right : Expr) :
    (binary span op left right).isUnreserved = (left.isUnreserved && right.isUnreserved) := by
  simp [isUnreserved, visits, visitNode, VisitedNode.isUnreserved, VisitedNode.nameRef?]

@[simp] theorem isUnreserved_assign
    (span : Span)
    (target : Spanned NameRef)
    (op : Option BinOp)
    (value : Expr) :
    (assign span target op value).isUnreserved =
      (!isReservedName target.node.name && value.isUnreserved) := by
  simp [isUnreserved, visits_assign, visitNode, VisitedNode.isUnreserved, VisitedNode.nameRef?]

@[simp] theorem isUnreserved_call
    (span : Span)
    (function : Spanned String)
    (args : List Expr) :
    (call span function args).isUnreserved = areUnreserved args := by
  simp [isUnreserved, areUnreserved, visits, visitNode, VisitedNode.isUnreserved,
    VisitedNode.nameRef?]

@[simp] theorem isUnreserved_methodCall
    (span : Span)
    (receiver : Expr)
    (method : Spanned String)
    (args : List Expr) :
    (methodCall span receiver method args).isUnreserved =
      (receiver.isUnreserved && areUnreserved args) := by
  simp [isUnreserved, areUnreserved, visits, visitNode, VisitedNode.isUnreserved,
    VisitedNode.nameRef?]

@[simp] theorem areUnreserved_nil :
    areUnreserved [] = true :=
  rfl

@[simp] theorem areUnreserved_cons
    (expr : Expr)
    (rest : List Expr) :
    areUnreserved (expr :: rest) = (expr.isUnreserved && areUnreserved rest) := by
  simp [isUnreserved, areUnreserved, visitsAll]

end Expr

/-- A declaration neither declares nor uses a reserved name. -/
def LocalDecl.isUnreserved
    (decl : LocalDecl) :
    Bool :=
  !isReservedName decl.name.node && decl.initial.all Expr.isUnreserved

/-- What a traversal meets in a declaration. -/
theorem LocalDecl.all_visits
    (decl : LocalDecl) :
    (decl.visits fun _ => true).all VisitedNode.isUnreserved = decl.isUnreserved := by
  cases initial : decl.initial <;>
    simp [isUnreserved, visits, visitNode, VisitedNode.isUnreserved, VisitedNode.nameRef?, initial,
      Expr.isUnreserved]

namespace Stmt

@[simp] theorem isUnreserved_localVar
    (span : Span)
    (decl : LocalDecl) :
    (localVar span decl).isUnreserved = decl.isUnreserved := by
  simp [isUnreserved, visits, visitNode, VisitedNode.isUnreserved, VisitedNode.nameRef?,
    ← LocalDecl.all_visits]

@[simp] theorem isUnreserved_expr
    (span : Span)
    (value : Expr) :
    (expr span value).isUnreserved = value.isUnreserved := by
  simp [isUnreserved, Expr.isUnreserved, visits, visitNode, VisitedNode.isUnreserved,
    VisitedNode.nameRef?]

@[simp] theorem isUnreserved_block
    (span : Span)
    (stmts : List Stmt)
    (facts : BlockFacts) :
    (block span stmts facts).isUnreserved = areUnreserved stmts := by
  simp [isUnreserved, areUnreserved, visits, visitNode, VisitedNode.isUnreserved,
    VisitedNode.nameRef?]

@[simp] theorem isUnreserved_branch_none
    (span : Span)
    (condition : Expr)
    (thenBranch : Stmt) :
    (branch span condition thenBranch none).isUnreserved =
      (condition.isUnreserved && thenBranch.isUnreserved) := by
  simp [isUnreserved, Expr.isUnreserved, visits, visitNode, VisitedNode.isUnreserved,
    VisitedNode.nameRef?]

@[simp] theorem isUnreserved_branch_some
    (span : Span)
    (condition : Expr)
    (thenBranch elseBranch : Stmt) :
    (branch span condition thenBranch (some elseBranch)).isUnreserved =
      (condition.isUnreserved && thenBranch.isUnreserved && elseBranch.isUnreserved) := by
  simp [isUnreserved, Expr.isUnreserved, visits, visitNode, VisitedNode.isUnreserved,
    VisitedNode.nameRef?, Bool.and_assoc]

@[simp] theorem isUnreserved_forEach_none
    (span : Span)
    (element : LocalDecl)
    (collection : Expr)
    (facts : LoopFacts) :
    (forEach span element collection none facts).isUnreserved =
      (element.isUnreserved && collection.isUnreserved) := by
  simp [isUnreserved, Expr.isUnreserved, visits, visitNode, VisitedNode.isUnreserved,
    VisitedNode.nameRef?, ← LocalDecl.all_visits]

@[simp] theorem isUnreserved_forEach_some
    (span : Span)
    (element : LocalDecl)
    (collection : Expr)
    (action : Stmt)
    (facts : LoopFacts) :
    (forEach span element collection (some action) facts).isUnreserved =
      (element.isUnreserved && collection.isUnreserved && action.isUnreserved) := by
  simp [isUnreserved, Expr.isUnreserved, visits, visitNode, VisitedNode.isUnreserved,
    VisitedNode.nameRef?, ← LocalDecl.all_visits, Bool.and_assoc]

@[simp] theorem isUnreserved_labeled
    (span : Span)
    (label : Spanned String)
    (body : Stmt) :
    (labeled span label body).isUnreserved = body.isUnreserved := by
  simp [isUnreserved, visits_labeled, visitNode, VisitedNode.isUnreserved, VisitedNode.nameRef?]

@[simp] theorem isUnreserved_returnWith
    (span : Span)
    (value : Expr) :
    (returnWith span (some value)).isUnreserved = value.isUnreserved := by
  simp [isUnreserved, Expr.isUnreserved, visits, visitNode, VisitedNode.isUnreserved,
    VisitedNode.nameRef?]

@[simp] theorem areUnreserved_nil :
    areUnreserved [] = true :=
  rfl

@[simp] theorem areUnreserved_cons
    (stmt : Stmt)
    (rest : List Stmt) :
    areUnreserved (stmt :: rest) = (stmt.isUnreserved && areUnreserved rest) := by
  simp [isUnreserved, areUnreserved, visitsAll]

end Stmt

/-- A method whose names are not reserved has statements whose names are not. -/
theorem Method.areUnreserved_stmts
    {method : Method}
    (unreserved : method.isUnreserved = true) :
    Stmt.areUnreserved method.body.stmts = true := by
  simp only [isUnreserved, nameRefs, List.all_filterMap] at unreserved
  have whole : method.visits.all VisitedNode.isUnreserved = true := by
    refine Eq.trans ?_ unreserved
    congr 1
  simp only [visits, visitsWhere, visitNode, if_true, List.all_cons, Bool.and_eq_true] at whole
  exact whole.2.2

namespace MethodScope

/-- The locals that the compiler introduced have reserved names, are no
parameters, and are not used yet. -/
def Reserves
    (scope : MethodScope) :
    Prop :=
  ∀ id, (scope.localAt id).isSynthetic = true →
    isReservedName (scope.localAt id).name = true ∧ (scope.localAt id).isParam = false ∧
      (scope.localAt id).isUsed = false

/-- Declaring a local of the source or an unused local of a reserved name
reserves names. -/
theorem Reserves.declare
    {scope : MethodScope}
    (reserves : scope.Reserves)
    (home : Nat)
    (entry : LocalVariable)
    (isReserved : entry.isSynthetic = true →
      isReservedName entry.name = true ∧ entry.isParam = false ∧ entry.isUsed = false) :
    (scope.declare home entry).Reserves := by
  intro id
  rw [localAt_declare]
  split
  · exact isReserved
  · exact reserves id

/-- Using a name that is not reserved reserves names. -/
theorem Reserves.markUsed
    {scope : MethodScope}
    (reserves : scope.Reserves)
    {used : Nat}
    (unreserved : isReservedName (scope.localAt used).name = false) :
    (scope.markUsed used).Reserves := by
  intro id isSynthetic
  by_cases same : used = id
  · subst same
    have persists := (grows_markUsed used scope).persists used
    rcases Nat.lt_or_ge used scope.locals.size with known | unknown
    · rw [(persists known).isSynthetic] at isSynthetic
      have isReserved := (reserves used isSynthetic).1
      rw [unreserved] at isReserved
      cases isReserved
    · have missing : (scope.markUsed used).localAt used = default :=
        localAt_unknown (by
          simpa [MethodScope.markUsed, modifyLocal] using Nat.not_lt.mpr unknown)
      rw [missing] at isSynthetic
      cases isSynthetic
  · have unchanged : (scope.markUsed used).localAt id = scope.localAt id := by
      simp [localAt, MethodScope.markUsed, modifyLocal, Array.getElem?_modify, same]
    rw [unchanged] at isSynthetic ⊢
    exact reserves id isSynthetic

end MethodScope

section States

variable
  {table : ClassTable}
  {state : MethodState}

/-- A report keeps the locals. -/
theorem scope_reportIf
    (wrong : Bool)
    (issue : Issue)
    (span : Span)
    (state : MethodState) :
    (state.reportIf wrong issue span).scope = state.scope := by
  simp only [MethodState.reportIf]
  split <;> rfl

/-- Resolving a written type keeps the locals. -/
theorem scope_resolveType
    (table : ClassTable)
    (type : TypeExpr)
    (state : MethodState) :
    (resolveType table type state).2.scope = state.scope := by
  simp only [resolveType]
  split <;> rfl

/-- Checking a conversion keeps the locals. -/
theorem scope_checkConverts
    (table : ClassTable)
    (source target : Ty)
    (span : Span)
    (state : MethodState) :
    (checkConverts table source target span state).scope = state.scope :=
  scope_reportIf _ _ _ _

/-- Checking the types of arguments keeps the locals. -/
theorem scope_checkArgumentTypes
    (table : ClassTable) :
    ∀ (params types : List Ty) (args : List Expr) (state : MethodState),
      (checkArgumentTypes table params types args state).scope = state.scope
  | param :: params, given :: types, arg :: args, state => by
      rw [checkArgumentTypes, scope_checkArgumentTypes, scope_checkConverts]
  | [], _, _, _ | _ :: _, [], _, _ | _ :: _, _ :: _, [], _ => by
      simp only [checkArgumentTypes]

/-- Checking arguments keeps the locals. -/
theorem scope_checkArguments
    (table : ClassTable)
    (name : String)
    (params types : List Ty)
    (args : List Expr)
    (span : Span)
    (state : MethodState) :
    (checkArguments table name params types args span state).scope = state.scope := by
  simp only [checkArguments]
  split
  · exact scope_checkArgumentTypes _ _ _ _ _
  · rfl

/-- Checking an assigned value keeps the locals. -/
theorem scope_checkAssignedValue
    (table : ClassTable)
    (op : Option BinOp)
    (target value : Ty)
    (span valueSpan : Span)
    (state : MethodState) :
    (checkAssignedValue table op target value span valueSpan state).scope = state.scope := by
  cases op <;> exact scope_reportIf _ _ _ _

/-- Binding a name that is not reserved and recording its use reserves names. -/
theorem reserves_markUse
    {block : Nat}
    {span : Span}
    {ref : NameRef}
    (reserves : state.scope.Reserves)
    (unreserved : isReservedName ref.name = false) :
    (markUse (bindName block span ref state).1.binding
      (bindName block span ref state).2).scope.Reserves := by
  have sameScope : (bindName block span ref state).2.scope = state.scope := scope_reportIf _ _ _ _
  cases found : state.scope.lookup block ref.name with
  | none =>
      simp only [bindName, found, markUse]
      rw [scope_reportIf]
      exact reserves
  | some id =>
      simp only [bindName, found, markUse, MethodState.mapScope]
      rw [scope_reportIf]
      exact reserves.markUsed (by rw [MethodScope.name_of_lookup found]; exact unreserved)

mutual

/-- Resolving an expression without reserved names reserves names. -/
theorem reserves_checkExpr
    {block : Nat} :
    ∀ {expr : Expr} {state : MethodState},
      expr.isUnreserved = true →
      state.scope.Reserves →
      (checkExpr table block expr state).state.scope.Reserves
  | .intLit .., state, _, reserves | .boolLit .., state, _, reserves
  | .stringLit .., state, _, reserves | .null _, state, _, reserves => by
      simp only [checkExpr]
      exact reserves
  | .name span ref, state, unreserved, reserves => by
      simp only [Expr.isUnreserved_name, Bool.not_eq_true'] at unreserved
      simp only [checkExpr]
      exact reserves_markUse reserves unreserved
  | .newArray _ component elements, state, unreserved, reserves => by
      simp only [Expr.isUnreserved_newArray] at unreserved
      simp only [checkExpr]
      refine reserves_checkElements unreserved ?_
      rw [scope_resolveType]
      exact reserves
  | .binary span op left right, state, unreserved, reserves => by
      simp only [Expr.isUnreserved_binary, Bool.and_eq_true] at unreserved
      have operands : (checkExpr table block right
          (checkExpr table block left state).state).state.scope.Reserves :=
        reserves_checkExpr unreserved.2 (reserves_checkExpr unreserved.1 reserves)
      simp only [checkExpr]
      split <;> exact operands
  | .assign span target op value, state, unreserved, reserves => by
      simp only [Expr.isUnreserved_assign, Bool.and_eq_true, Bool.not_eq_true'] at unreserved
      have used : (if op.isSome = true then
          markUse (bindName block target.span target.node state).1.binding
            (bindName block target.span target.node state).2
          else (bindName block target.span target.node state).2).scope.Reserves := by
        split
        · exact reserves_markUse reserves unreserved.1
        · rw [show (bindName block target.span target.node state).2.scope = state.scope from
            scope_reportIf _ _ _ _]
          exact reserves
      have evaluated : (checkExpr table block value _).state.scope.Reserves :=
        reserves_checkExpr unreserved.2 used
      simp only [checkExpr]
      split
      · exact evaluated
      · rw [scope_checkAssignedValue]
        exact evaluated
  | .call span function args, state, unreserved, reserves => by
      simp only [Expr.isUnreserved_call] at unreserved
      have evaluated : (checkExprs table block args state).state.scope.Reserves :=
        reserves_checkExprs unreserved reserves
      simp only [checkExpr]
      split
      · exact evaluated
      · rw [scope_checkArguments]
        exact evaluated
  | .methodCall span receiver method args, state, unreserved, reserves => by
      simp only [Expr.isUnreserved_methodCall, Bool.and_eq_true] at unreserved
      have evaluated : (checkExprs table block args
          (checkExpr table block receiver state).state).state.scope.Reserves :=
        reserves_checkExprs unreserved.2 (reserves_checkExpr unreserved.1 reserves)
      simp only [checkExpr]
      split
      · exact evaluated
      · split
        · exact evaluated
        · rw [scope_checkArguments]
          exact evaluated

theorem reserves_checkExprs
    {block : Nat} :
    ∀ {exprs : List Expr} {state : MethodState},
      Expr.areUnreserved exprs = true →
      state.scope.Reserves →
      (checkExprs table block exprs state).state.scope.Reserves
  | [], state, _, reserves => by
      simp only [checkExprs]
      exact reserves
  | expr :: rest, state, unreserved, reserves => by
      simp only [Expr.areUnreserved_cons, Bool.and_eq_true] at unreserved
      simp only [checkExprs]
      exact reserves_checkExprs unreserved.2 (reserves_checkExpr unreserved.1 reserves)

theorem reserves_checkElements
    {block : Nat}
    {component : Ty} :
    ∀ {exprs : List Expr} {state : MethodState},
      Expr.areUnreserved exprs = true →
      state.scope.Reserves →
      (checkElements table block component exprs state).state.scope.Reserves
  | [], state, _, reserves => by
      simp only [checkElements]
      exact reserves
  | expr :: rest, state, unreserved, reserves => by
      simp only [Expr.areUnreserved_cons, Bool.and_eq_true] at unreserved
      simp only [checkElements]
      refine reserves_checkElements unreserved.2 ?_
      rw [scope_checkConverts]
      exact reserves_checkExpr unreserved.1 reserves

end

/-- Declaring a local of the source reserves names. -/
theorem reserves_declareLocal
    {block : Nat}
    {entry : LocalVariable}
    (isSource : entry.isSynthetic = false)
    (reserves : state.scope.Reserves) :
    (declareLocal block entry state).2.scope.Reserves := by
  simp only [declareLocal, MethodState.mapScope]
  rw [scope_reportIf]
  refine reserves.declare _ _ fun isSynthetic => ?_
  rw [isSource] at isSynthetic
  cases isSynthetic

/-- Declaring the variable of a declaration reserves names. -/
theorem reserves_checkDeclaration
    {block : Nat}
    {decl : LocalDecl}
    (reserves : state.scope.Reserves) :
    (checkDeclaration table block decl state).state.scope.Reserves := by
  simp only [checkDeclaration]
  refine reserves_declareLocal rfl ?_
  rw [scope_resolveType]
  exact reserves

/-- Declaring the locals of a loop reserves names. -/
theorem reserves_declareSynthetics
    {scope : MethodScope}
    (reserves : scope.Reserves)
    (block : Nat)
    (shape : LoopShape)
    (collection : Ty)
    (span : Span) :
    (scope.declareSynthetics block shape collection span).Reserves := by
  have step : ∀ (entries : List (String × Ty)) (scope : MethodScope),
      (∀ entry ∈ entries, isReservedName entry.1 = true) →
      scope.Reserves →
      (entries.foldl (fun scope entry => scope.declare block (.synthetic entry.1 entry.2 span))
        scope).Reserves := by
    intro entries
    induction entries with
    | nil =>
        exact fun _ _ reserves => reserves
    | cons entry rest inductionHypothesis =>
        intro scope areReserved reserves
        refine inductionHypothesis _ (fun other member => areReserved other (by simp [member])) ?_
        exact reserves.declare block (.synthetic entry.1 entry.2 span) fun _ =>
          ⟨areReserved entry (by simp), rfl, rfl⟩
  refine step _ _ ?_ reserves
  cases shape <;> simp [LoopShape.synthetics, LoopShape.areReserved_names]

/-- Resolving the head of a loop without reserved names reserves names. -/
theorem reserves_checkLoopHead
    {options : CompilerOptions}
    {outer : Nat}
    {element : LocalDecl}
    {collection : Expr}
    (unreserved : collection.isUnreserved = true)
    (reserves : state.scope.Reserves) :
    (checkLoopHead table options outer element collection state).state.scope.Reserves := by
  have declared : (checkDeclaration table state.scope.nextBlock element
      (state.mapScope (.openBlock outer))).state.scope.Reserves :=
    reserves_checkDeclaration reserves
  have evaluated : (checkExpr table state.scope.nextBlock collection
      (checkDeclaration table state.scope.nextBlock element
        (state.mapScope (.openBlock outer))).state).state.scope.Reserves :=
    reserves_checkExpr unreserved declared
  have reported : ∀ (findings : List LoopFinding) (span : Span) (state : MethodState),
      (findings.foldl (fun state finding => state.report (finding.issue options) span)
        state).scope = state.scope := by
    intro findings span
    induction findings with
    | nil =>
        exact fun _ => rfl
    | cons finding rest inductionHypothesis =>
        exact fun state => inductionHypothesis _
  simp only [checkLoopHead, resolveLoop]
  split
  · exact evaluated
  · split
    · exact evaluated
    · simp only [MethodState.mapScope]
      rw [reported]
      exact reserves_declareSynthetics evaluated _ _ _ _

mutual

/-- Resolving a statement without reserved names reserves names. -/
theorem reserves_checkStmt
    {options : CompilerOptions} :
    ∀ {stmt : Stmt} {scope : ScopeId} {state : MethodState},
      stmt.isUnreserved = true →
      state.scope.Reserves →
      (checkStmt table options scope stmt state).state.scope.Reserves
  | .localVar span decl, scope, state, unreserved, reserves => by
      have declared : (checkDeclaration table scope decl state).state.scope.Reserves :=
        reserves_checkDeclaration reserves
      simp only [Stmt.isUnreserved_localVar, LocalDecl.isUnreserved, Bool.and_eq_true]
        at unreserved
      simp only [checkStmt]
      cases initial : decl.initial with
      | none =>
          exact declared
      | some value =>
          simp only [initial, Option.all_some] at unreserved
          rw [scope_checkConverts]
          exact reserves_checkExpr unreserved.2 declared
  | .expr span value, scope, state, unreserved, reserves => by
      simp only [Stmt.isUnreserved_expr] at unreserved
      simp only [checkStmt]
      exact reserves_checkExpr unreserved reserves
  | .block span stmts facts, scope, state, unreserved, reserves => by
      simp only [Stmt.isUnreserved_block] at unreserved
      simp only [checkStmt]
      exact reserves_checkStmts unreserved reserves
  | .branch span condition thenBranch none, scope, state, unreserved, reserves => by
      simp only [Stmt.isUnreserved_branch_none, Bool.and_eq_true] at unreserved
      simp only [checkStmt]
      refine reserves_checkStmt unreserved.2 ?_
      rw [scope_checkConverts]
      exact reserves_checkExpr unreserved.1 reserves
  | .branch span condition thenBranch (some elseBranch), scope, state, unreserved, reserves => by
      simp only [Stmt.isUnreserved_branch_some, Bool.and_eq_true] at unreserved
      simp only [checkStmt]
      refine reserves_checkStmt unreserved.2 (reserves_checkStmt unreserved.1.2 ?_)
      rw [scope_checkConverts]
      exact reserves_checkExpr unreserved.1.1 reserves
  | .forEach span element collection none facts, scope, state, unreserved, reserves => by
      simp only [Stmt.isUnreserved_forEach_none, Bool.and_eq_true] at unreserved
      simp only [checkStmt]
      exact reserves_checkLoopHead unreserved.2 reserves
  | .forEach span element collection (some action) facts, scope, state, unreserved, reserves => by
      simp only [Stmt.isUnreserved_forEach_some, Bool.and_eq_true] at unreserved
      simp only [checkStmt]
      exact reserves_checkStmt unreserved.2 (reserves_checkLoopHead unreserved.1.2 reserves)
  | .labeled span label body, scope, state, unreserved, reserves => by
      simp only [Stmt.isUnreserved_labeled] at unreserved
      simp only [checkStmt]
      exact reserves_checkStmt unreserved reserves
  | .breakTo .., scope, state, _, reserves | .continueTo .., scope, state, _, reserves
  | .empty _, scope, state, _, reserves => by
      simp only [checkStmt]
      exact reserves
  | .returnWith span none, scope, state, _, reserves => by
      simp only [checkStmt]
      rw [scope_reportIf]
      exact reserves
  | .returnWith span (some value), scope, state, unreserved, reserves => by
      simp only [Stmt.isUnreserved_returnWith] at unreserved
      have evaluated : (checkExpr table scope value state).state.scope.Reserves :=
        reserves_checkExpr unreserved reserves
      simp only [checkStmt, checkReturned]
      split
      · exact evaluated
      · rw [scope_checkConverts]
        exact evaluated

theorem reserves_checkStmts
    {options : CompilerOptions} :
    ∀ {stmts : List Stmt} {scope : ScopeId} {state : MethodState},
      Stmt.areUnreserved stmts = true →
      state.scope.Reserves →
      (checkStmts table options scope stmts state).state.scope.Reserves
  | [], scope, state, _, reserves => by
      simp only [checkStmts]
      exact reserves
  | stmt :: rest, scope, state, unreserved, reserves => by
      simp only [Stmt.areUnreserved_cons, Bool.and_eq_true] at unreserved
      simp only [checkStmts]
      exact reserves_checkStmts unreserved.2 (reserves_checkStmt unreserved.1 reserves)

end

end States

/-- Declaring parameters reserves names. -/
theorem reserves_checkParams
    (table : ClassTable) :
    ∀ {params : List Param} {state : MethodState},
      state.scope.Reserves →
      (checkParams table params state).state.scope.Reserves
  | [], state, reserves => reserves
  | param :: rest, state, reserves => by
      simp only [checkParams]
      refine reserves_checkParams table (reserves_declareLocal rfl ?_)
      rw [scope_resolveType]
      exact reserves

/-- Bringing type parameters into scope keeps the locals. -/
theorem scope_checkTypeParams
    (table : ClassTable) :
    ∀ (params : List TypeParam) (state : MethodState),
      (checkTypeParams table params state).scope = state.scope
  | [], state => rfl
  | ⟨name, none⟩ :: rest, state => by
      rw [checkTypeParams, scope_checkTypeParams table rest]
  | ⟨name, some bound⟩ :: rest, state => by
      rw [checkTypeParams, scope_checkTypeParams table rest]
      exact scope_resolveType table bound state

/-- The signature of a method declares no locals. -/
theorem Method.scope_signatureState
    (table : ClassTable)
    (method : Method) :
    (method.signatureState table).scope = .initial := by
  unfold signatureState checkReturnType
  split
  · next type _ =>
      exact (scope_resolveType table type _).trans (scope_checkTypeParams table _ _)
  · exact scope_checkTypeParams table _ _

/-- The locals that the compiler introduces in a method without reserved names
are not used when resolution is done. -/
theorem Method.reserves_checkMethod
    (table : ClassTable)
    (options : CompilerOptions)
    {method : Method}
    (unreserved : method.isUnreserved = true) :
    (checkMethod table options method .initial).state.scope.Reserves := by
  have initial : MethodScope.initial.Reserves := by
    intro id isSynthetic
    have missing : MethodScope.initial.localAt id = default :=
      MethodScope.localAt_unknown (Nat.not_lt_zero id)
    rw [missing] at isSynthetic
    cases isSynthetic
  have declared : (method.bodyState table).scope.Reserves :=
    reserves_checkParams table (scope_signatureState table method ▸ initial)
  exact reserves_checkStmts (areUnreserved_stmts unreserved) declared

end LoopLowering
