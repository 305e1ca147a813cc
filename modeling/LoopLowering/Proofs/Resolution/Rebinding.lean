import LoopLowering.Proofs.Flow.Resolved

namespace LoopLowering

/-!
# Resolving a tree again

A tree has room for what the passes find out about it, and a tree that has been
lowered before has that room filled. Resolution writes every binding, every block
scope and every classification of a loop, and reads none of them, so it does not
depend on what an earlier run left there. What flow analysis records is none of
its business and stays as it is.
-/

namespace Expr

mutual

/-- An expression without its bindings. -/
def cleared :
    Expr → Expr
  | .intLit span value => .intLit span value
  | .boolLit span value => .boolLit span value
  | .stringLit span value => .stringLit span value
  | .null span => .null span
  | .name span ref => .name span (.unbound ref.name)
  | .newArray span component elements => .newArray span component (allCleared elements)
  | .binary span op left right => .binary span op left.cleared right.cleared
  | .assign span target op value =>
      .assign span ⟨.unbound target.node.name, target.span⟩ op value.cleared
  | .call span function args => .call span function (allCleared args)
  | .methodCall span receiver method args =>
      .methodCall span receiver.cleared method (allCleared args)

/-- Expressions without their bindings. -/
def allCleared :
    List Expr → List Expr
  | [] => []
  | expr :: rest => expr.cleared :: allCleared rest

end

end Expr

/-- A declaration without its bindings. -/
def LocalDecl.cleared
    (decl : LocalDecl) :
    LocalDecl :=
  { decl with initial := decl.initial.map Expr.cleared, binding := none }

/-- Facts about a list without those of flow analysis. -/
def BlockFacts.unflowed
    (facts : BlockFacts) :
    BlockFacts :=
  { BlockFacts.initial with scope := facts.scope }

/-- Facts about a loop without those of flow analysis. -/
def LoopFacts.unflowed
    (facts : LoopFacts) :
    LoopFacts :=
  { LoopFacts.initial with scope := facts.scope, classification := facts.classification }

namespace Stmt

mutual

/-- A statement as it is before the first pass. -/
def cleared :
    Stmt → Stmt
  | .localVar span decl => .localVar span decl.cleared
  | .expr span value => .expr span value.cleared
  | .block span stmts _ => .block span (allCleared stmts) .initial
  | .branch span condition thenBranch none =>
      .branch span condition.cleared thenBranch.cleared none
  | .branch span condition thenBranch (some elseBranch) =>
      .branch span condition.cleared thenBranch.cleared (some elseBranch.cleared)
  | .forEach span element collection none _ =>
      .forEach span element.cleared collection.cleared none .initial
  | .forEach span element collection (some action) _ =>
      .forEach span element.cleared collection.cleared (some action.cleared) .initial
  | .labeled span label body => .labeled span label body.cleared
  | .breakTo span label => .breakTo span label
  | .continueTo span label => .continueTo span label
  | .returnWith span value => .returnWith span (value.map Expr.cleared)
  | .empty span => .empty span

/-- Statements as they are before the first pass. -/
def allCleared :
    List Stmt → List Stmt
  | [] => []
  | stmt :: rest => stmt.cleared :: allCleared rest

end

mutual

/-- A statement as it is before flow analysis. -/
def unflowed :
    Stmt → Stmt
  | .localVar span decl => .localVar span decl
  | .expr span value => .expr span value
  | .block span stmts facts => .block span (allUnflowed stmts) facts.unflowed
  | .branch span condition thenBranch none => .branch span condition thenBranch.unflowed none
  | .branch span condition thenBranch (some elseBranch) =>
      .branch span condition thenBranch.unflowed (some elseBranch.unflowed)
  | .forEach span element collection none facts =>
      .forEach span element collection none facts.unflowed
  | .forEach span element collection (some action) facts =>
      .forEach span element collection (some action.unflowed) facts.unflowed
  | .labeled span label body => .labeled span label body.unflowed
  | .breakTo span label => .breakTo span label
  | .continueTo span label => .continueTo span label
  | .returnWith span value => .returnWith span value
  | .empty span => .empty span

/-- Statements as they are before flow analysis. -/
def allUnflowed :
    List Stmt → List Stmt
  | [] => []
  | stmt :: rest => stmt.unflowed :: allUnflowed rest

end

/-- The loops of a statement have block scopes. -/
def Scoped
    (heads : List (LocalDecl × LoopFacts)) :
    Prop :=
  ∀ head ∈ heads, ∃ scope, head.2.scope = some scope

end Stmt

/-- A parameter without its binding. -/
def Param.cleared
    (param : Param) :
    Param :=
  { param with binding := none }

namespace Method

/-- A method as it is before the first pass. -/
def cleared
    (method : Method) :
    Method :=
  { method with
    params := method.params.map Param.cleared
    body := { method.body with stmts := Stmt.allCleared method.body.stmts, facts := .initial } }

/-- A method as it is before flow analysis. -/
def unflowed
    (method : Method) :
    Method :=
  { method with
    body := { method.body with
      stmts := Stmt.allUnflowed method.body.stmts
      facts := method.body.facts.unflowed } }

end Method

section Elements

/-- A declaration without bindings has an initial value if it had one before. -/
theorem isInitialized_declared
    (decl : LocalDecl)
    (facts : LoopFacts) :
    isInitialized (decl.cleared, .initial) = isInitialized (decl, facts) := by
  simp only [isInitialized, LocalDecl.cleared, Option.isSome_map]

mutual

/-- The elements of loops have initial values whatever is recorded. -/
theorem Stmt.isInitialized_cleared :
    ∀ stmt : Stmt, stmt.cleared.heads.map isInitialized = stmt.heads.map isInitialized
  | .localVar .. | .expr .. | .breakTo .. | .continueTo .. | .returnWith .. | .empty _ => by
      simp only [Stmt.cleared, Stmt.heads]
  | .block _ stmts _ => by
      simp only [Stmt.cleared, Stmt.heads, Stmt.isInitialized_allCleared stmts]
  | .branch _ _ thenBranch none => by
      simp only [Stmt.cleared, Stmt.heads, Stmt.isInitialized_cleared thenBranch]
  | .branch _ _ thenBranch (some elseBranch) => by
      simp only [Stmt.cleared, Stmt.heads, List.map_append, Stmt.isInitialized_cleared thenBranch,
        Stmt.isInitialized_cleared elseBranch]
  | .forEach _ element _ none facts => by
      simp only [Stmt.cleared, Stmt.heads, List.map_cons, isInitialized_declared element facts]
  | .forEach _ element _ (some action) facts => by
      simp only [Stmt.cleared, Stmt.heads, List.map_cons, isInitialized_declared element facts,
        Stmt.isInitialized_cleared action]
  | .labeled _ _ body => by
      simp only [Stmt.cleared, Stmt.heads, Stmt.isInitialized_cleared body]

theorem Stmt.isInitialized_allCleared :
    ∀ stmts : List Stmt,
      (Stmt.allHeads (Stmt.allCleared stmts)).map isInitialized =
        (Stmt.allHeads stmts).map isInitialized
  | [] => rfl
  | stmt :: rest => by
      simp only [Stmt.allCleared, Stmt.allHeads, List.map_append, Stmt.isInitialized_cleared stmt,
        Stmt.isInitialized_allCleared rest]

end

/-- Whether the elements of loops have no initial values, by their heads. -/
theorem Method.elementsUninitialized_eq
    (method : Method) :
    method.elementsUninitialized =
      ((Stmt.allHeads method.body.stmts).map isInitialized).all (!·) := by
  simp only [elementsUninitialized, List.all_map, Function.comp_def, isInitialized,
    Option.not_isSome]

/-- Methods that differ only in what is recorded in them agree on whether the
elements of loops have no initial values. -/
theorem Method.elementsUninitialized_of_cleared
    {first second : Method}
    (sameTree : second.cleared = first.cleared) :
    second.elementsUninitialized = first.elementsUninitialized := by
  have sameStmts : Stmt.allCleared second.body.stmts = Stmt.allCleared first.body.stmts :=
    congrArg (fun method : Method => method.body.stmts) sameTree
  rw [elementsUninitialized_eq, elementsUninitialized_eq, ← Stmt.isInitialized_allCleared,
    sameStmts, Stmt.isInitialized_allCleared]

end Elements

section Expressions

variable
  (table : ClassTable)
  (scope : ScopeId)

/-- A name is bound whatever it was bound to before. -/
theorem bindName_unbound
    (span : Span)
    (ref : NameRef)
    (state : MethodState) :
    bindName scope span (.unbound ref.name) state = bindName scope span ref state :=
  rfl

mutual

/-- Resolution of an expression does not depend on what its names were bound to. -/
theorem checkExpr_cleared :
    ∀ (expr : Expr) (state : MethodState),
      checkExpr table scope expr.cleared state = checkExpr table scope expr state
  | .intLit .., _ | .boolLit .., _ | .stringLit .., _ | .null _, _ => by
      simp only [Expr.cleared]
  | .name _ ref, state => by
      simp only [Expr.cleared, checkExpr, bindName_unbound]
  | .newArray _ component elements, state => by
      simp only [Expr.cleared, checkExpr, checkElements_cleared elements]
  | .binary _ op left right, state => by
      simp only [Expr.cleared, checkExpr, checkExpr_cleared left, checkExpr_cleared right]
  | .assign _ target op value, state => by
      simp only [Expr.cleared, checkExpr, bindName_unbound, checkExpr_cleared value]
  | .call _ function args, state => by
      simp only [Expr.cleared, checkExpr, checkExprs_cleared args]
  | .methodCall _ receiver method args, state => by
      simp only [Expr.cleared, checkExpr, checkExpr_cleared receiver, checkExprs_cleared args]

theorem checkExprs_cleared :
    ∀ (exprs : List Expr) (state : MethodState),
      checkExprs table scope (Expr.allCleared exprs) state = checkExprs table scope exprs state
  | [], _ => rfl
  | expr :: rest, state => by
      simp only [Expr.allCleared, checkExprs, checkExpr_cleared expr, checkExprs_cleared rest]

theorem checkElements_cleared :
    ∀ (exprs : List Expr) {component : Ty} (state : MethodState),
      checkElements table scope component (Expr.allCleared exprs) state =
        checkElements table scope component exprs state
  | [], _, _ => rfl
  | expr :: rest, _, state => by
      simp only [Expr.allCleared, checkElements, checkExpr_cleared expr,
        checkElements_cleared rest]

end

mutual

/-- Resolution changes nothing but the bindings of an expression. -/
theorem cleared_checkExpr :
    ∀ (expr : Expr) (state : MethodState),
      (checkExpr table scope expr state).node.cleared = expr.cleared
  | .intLit .., _ | .boolLit .., _ | .stringLit .., _ | .null _, _ => by
      simp only [checkExpr]
  | .name _ ref, state => by
      simp only [checkExpr, Expr.cleared]
      rfl
  | .newArray _ component elements, state => by
      simp only [checkExpr, Expr.cleared, cleared_checkElements elements]
  | .binary _ op left right, state => by
      simp only [checkExpr]
      split <;> simp only [Expr.cleared, cleared_checkExpr left, cleared_checkExpr right]
  | .assign _ target op value, state => by
      simp only [checkExpr]
      split <;> simp only [Expr.cleared, cleared_checkExpr value] <;> rfl
  | .call _ function args, state => by
      simp only [checkExpr]
      split <;> simp only [Expr.cleared, cleared_checkExprs args]
  | .methodCall _ receiver method args, state => by
      simp only [checkExpr]
      split
      · simp only [Expr.cleared, cleared_checkExpr receiver, cleared_checkExprs args]
      · split <;> simp only [Expr.cleared, cleared_checkExpr receiver, cleared_checkExprs args]

theorem cleared_checkExprs :
    ∀ (exprs : List Expr) (state : MethodState),
      Expr.allCleared (checkExprs table scope exprs state).nodes = Expr.allCleared exprs
  | [], _ => rfl
  | expr :: rest, state => by
      simp only [checkExprs, Expr.allCleared, cleared_checkExpr expr, cleared_checkExprs rest]

theorem cleared_checkElements :
    ∀ (exprs : List Expr) {component : Ty} (state : MethodState),
      Expr.allCleared (checkElements table scope component exprs state).nodes =
        Expr.allCleared exprs
  | [], _, _ => rfl
  | expr :: rest, _, state => by
      simp only [checkElements, Expr.allCleared, cleared_checkExpr expr,
        cleared_checkElements rest]

end

end Expressions

section Statements

variable
  (table : ClassTable)
  (options : CompilerOptions)

/-- The element of a loop is declared whatever it was bound to before. -/
theorem checkDeclaration_cleared
    {scope : ScopeId}
    {decl : LocalDecl}
    {state : MethodState}
    (uninitialized : decl.initial = none) :
    checkDeclaration table scope decl.cleared state = checkDeclaration table scope decl state := by
  obtain ⟨name, type, initial, isFinal, binding⟩ := decl
  cases uninitialized
  rfl

/-- The head of a loop is resolved whatever was found out about it before. -/
theorem checkLoopHead_cleared
    {outer : ScopeId}
    {element : LocalDecl}
    {collection : Expr}
    {state : MethodState}
    (uninitialized : element.initial = none) :
    checkLoopHead table options outer element.cleared collection.cleared state =
      checkLoopHead table options outer element collection state := by
  simp only [checkLoopHead, checkDeclaration_cleared table uninitialized, checkExpr_cleared]

mutual

/-- Resolution of a statement does not depend on what was recorded in it, and keeps
what flow analysis recorded. -/
theorem checkStmt_cleared :
    ∀ (stmt : Stmt) {scope : ScopeId} {state : MethodState},
      (∀ head ∈ stmt.heads, head.1.initial = none) →
      checkStmt table options scope stmt.cleared state =
        ⟨(checkStmt table options scope stmt state).node.unflowed,
          (checkStmt table options scope stmt state).state⟩
  | .localVar span ⟨name, type, none, isFinal, binding⟩, _, _, _ => rfl
  | .localVar span ⟨name, type, some value, isFinal, binding⟩, scope, state, _ => by
      simp only [Stmt.cleared, LocalDecl.cleared, checkStmt, Option.map_some, checkDeclaration,
        checkExpr_cleared, Stmt.unflowed]
  | .expr .., _, _, _ => by
      simp only [Stmt.cleared, checkStmt, checkExpr_cleared, Stmt.unflowed]
  | .block span stmts facts, _, _, uninitialized => by
      simp only [Stmt.heads] at uninitialized
      simp only [Stmt.cleared, checkStmt, checkStmts_cleared stmts uninitialized, Stmt.unflowed]
      rfl
  | .branch span condition thenBranch none, _, _, uninitialized => by
      simp only [Stmt.heads] at uninitialized
      simp only [Stmt.cleared, checkStmt, checkExpr_cleared,
        checkStmt_cleared thenBranch uninitialized, Stmt.unflowed]
  | .branch span condition thenBranch (some elseBranch), _, _, uninitialized => by
      simp only [Stmt.heads, List.forall_mem_append] at uninitialized
      simp only [Stmt.cleared, checkStmt, checkExpr_cleared,
        checkStmt_cleared thenBranch uninitialized.1, checkStmt_cleared elseBranch uninitialized.2,
        Stmt.unflowed]
  | .forEach span element collection none facts, _, _, uninitialized => by
      simp only [Stmt.heads, List.forall_mem_singleton] at uninitialized
      simp only [Stmt.cleared, checkStmt, checkLoopHead_cleared table options uninitialized,
        Stmt.unflowed]
      rfl
  | .forEach span element collection (some action) facts, _, _, uninitialized => by
      simp only [Stmt.heads, List.forall_mem_cons] at uninitialized
      simp only [Stmt.cleared, checkStmt, checkLoopHead_cleared table options uninitialized.1,
        checkStmt_cleared action uninitialized.2, Stmt.unflowed]
      rfl
  | .labeled span label body, _, _, uninitialized => by
      simp only [Stmt.heads] at uninitialized
      simp only [Stmt.cleared, checkStmt, checkStmt_cleared body uninitialized, Stmt.unflowed]
  | .returnWith span (some value), _, _, _ => by
      simp only [Stmt.cleared, checkStmt, Option.map_some, checkExpr_cleared, Stmt.unflowed,
        checkReturned]
  | .returnWith span none, _, _, _ | .breakTo .., _, _, _ | .continueTo .., _, _, _
  | .empty _, _, _, _ => by
      simp only [Stmt.cleared, checkStmt, Option.map_none, Stmt.unflowed]

theorem checkStmts_cleared :
    ∀ (stmts : List Stmt) {scope : ScopeId} {state : MethodState},
      (∀ head ∈ Stmt.allHeads stmts, head.1.initial = none) →
      checkStmts table options scope (Stmt.allCleared stmts) state =
        ⟨Stmt.allUnflowed (checkStmts table options scope stmts state).node,
          (checkStmts table options scope stmts state).state⟩
  | [], _, _, _ => rfl
  | stmt :: rest, _, _, uninitialized => by
      simp only [Stmt.allHeads, List.forall_mem_append] at uninitialized
      simp only [Stmt.allCleared, checkStmts, checkStmt_cleared stmt uninitialized.1,
        checkStmts_cleared rest uninitialized.2, Stmt.allUnflowed]

end

mutual

/-- Resolution changes nothing but what is recorded in a statement. -/
theorem cleared_checkStmt :
    ∀ (stmt : Stmt) (scope : ScopeId) (state : MethodState),
      (checkStmt table options scope stmt state).node.cleared = stmt.cleared
  | .localVar span ⟨name, type, none, isFinal, binding⟩, _, _ => rfl
  | .localVar span ⟨name, type, some value, isFinal, binding⟩, scope, state => by
      simp only [checkStmt, Stmt.cleared, LocalDecl.cleared, Option.map_some, checkDeclaration,
        cleared_checkExpr]
  | .expr .., _, _ => by
      simp only [checkStmt, Stmt.cleared, cleared_checkExpr]
  | .block span stmts facts, _, _ => by
      simp only [checkStmt, Stmt.cleared, cleared_checkStmts stmts]
  | .branch span condition thenBranch none, _, _ => by
      simp only [checkStmt, Stmt.cleared, cleared_checkExpr, cleared_checkStmt thenBranch]
  | .branch span condition thenBranch (some elseBranch), _, _ => by
      simp only [checkStmt, Stmt.cleared, cleared_checkExpr, cleared_checkStmt thenBranch,
        cleared_checkStmt elseBranch]
  | .forEach span element collection none facts, _, _ => by
      simp only [checkStmt, Stmt.cleared, checkLoopHead, cleared_checkExpr]
      rfl
  | .forEach span element collection (some action) facts, _, _ => by
      simp only [checkStmt, Stmt.cleared, checkLoopHead, cleared_checkExpr,
        cleared_checkStmt action]
      rfl
  | .labeled span label body, _, _ => by
      simp only [checkStmt, Stmt.cleared, cleared_checkStmt body]
  | .returnWith span (some value), _, _ => by
      simp only [checkStmt, Stmt.cleared, Option.map_some, cleared_checkExpr]
  | .returnWith span none, _, _ | .breakTo .., _, _ | .continueTo .., _, _ | .empty _, _, _ => by
      simp only [checkStmt]

theorem cleared_checkStmts :
    ∀ (stmts : List Stmt) (scope : ScopeId) (state : MethodState),
      Stmt.allCleared (checkStmts table options scope stmts state).node = Stmt.allCleared stmts
  | [], _, _ => rfl
  | stmt :: rest, _, _ => by
      simp only [checkStmts, Stmt.allCleared, cleared_checkStmt stmt, cleared_checkStmts rest]

end

mutual

/-- After resolution the loops of a statement have block scopes. -/
theorem scoped_checkStmt :
    ∀ (stmt : Stmt) (scope : ScopeId) (state : MethodState),
      Stmt.Scoped (checkStmt table options scope stmt state).node.heads
  | .localVar span decl, _, _ => by
      simp only [checkStmt]
      cases decl.initial <;> simp [Stmt.heads, Stmt.Scoped]
  | .expr .., _, _ | .breakTo .., _, _ | .continueTo .., _, _ | .returnWith _ none, _, _
  | .returnWith _ (some _), _, _ | .empty _, _, _ => by
      simp [checkStmt, Stmt.heads, Stmt.Scoped]
  | .block span stmts facts, _, _ => by
      simp only [checkStmt, Stmt.heads]
      exact scoped_checkStmts stmts _ _
  | .branch span condition thenBranch none, _, _ => by
      simp only [checkStmt, Stmt.heads]
      exact scoped_checkStmt thenBranch _ _
  | .branch span condition thenBranch (some elseBranch), _, _ => by
      simp only [checkStmt, Stmt.heads]
      exact List.forall_mem_append.mpr
        ⟨scoped_checkStmt thenBranch _ _, scoped_checkStmt elseBranch _ _⟩
  | .forEach span element collection none facts, _, _ => by
      simp only [checkStmt, Stmt.heads]
      exact List.forall_mem_singleton.mpr ⟨_, rfl⟩
  | .forEach span element collection (some action) facts, _, _ => by
      simp only [checkStmt, Stmt.heads]
      exact List.forall_mem_cons.mpr ⟨⟨_, rfl⟩, scoped_checkStmt action _ _⟩
  | .labeled span label body, _, _ => by
      simp only [checkStmt, Stmt.heads]
      exact scoped_checkStmt body _ _

theorem scoped_checkStmts :
    ∀ (stmts : List Stmt) (scope : ScopeId) (state : MethodState),
      Stmt.Scoped (Stmt.allHeads (checkStmts table options scope stmts state).node)
  | [], _, _ => by
      simp [checkStmts, Stmt.allHeads, Stmt.Scoped]
  | stmt :: rest, _, _ => by
      simp only [checkStmts, Stmt.allHeads]
      exact List.forall_mem_append.mpr ⟨scoped_checkStmt stmt _ _, scoped_checkStmts rest _ _⟩

end

end Statements

section Methods

variable
  (table : ClassTable)
  (options : CompilerOptions)

/-- Parameters are declared whatever they were bound to before. -/
theorem checkParams_cleared :
    ∀ (params : List Param) (state : MethodState),
      checkParams table (params.map Param.cleared) state = checkParams table params state
  | [], _ => rfl
  | param :: rest, state => by
      simp only [List.map_cons, checkParams, checkParams_cleared rest]
      rfl

/-- Declaring parameters changes nothing but their bindings. -/
theorem cleared_checkParams :
    ∀ (params : List Param) (state : MethodState),
      (checkParams table params state).node.map Param.cleared = params.map Param.cleared
  | [], _ => rfl
  | param :: rest, state => by
      simp only [checkParams, List.map_cons, cleared_checkParams rest]
      rfl

/-- Resolution of a method does not depend on what was recorded in it, and keeps
what flow analysis recorded. -/
theorem checkMethod_cleared
    {method : Method}
    (uninitialized : method.elementsUninitialized = true)
    (state : MethodState) :
    checkMethod table options method.cleared state =
      ⟨(checkMethod table options method state).node.unflowed,
        (checkMethod table options method state).state⟩ := by
  have bare : ∀ head ∈ Stmt.allHeads method.body.stmts, head.1.initial = none :=
    fun head member => Option.isNone_iff_eq_none.mp (List.all_eq_true.mp uninitialized head member)
  simp only [checkMethod, Method.cleared, checkParams_cleared,
    checkStmts_cleared table options method.body.stmts bare]
  rfl

/-- Resolution changes nothing but what is recorded in a method. -/
theorem cleared_checkMethod
    (method : Method)
    (state : MethodState) :
    (checkMethod table options method state).node.cleared = method.cleared := by
  simp only [checkMethod, Method.cleared, cleared_checkParams, cleared_checkStmts]

/-- After resolution the loops of a method have block scopes. -/
theorem scoped_checkMethod
    (method : Method)
    (state : MethodState) :
    Stmt.Scoped (Stmt.allHeads (checkMethod table options method state).node.body.stmts) :=
  scoped_checkStmts table options method.body.stmts _ _

end Methods

end LoopLowering
