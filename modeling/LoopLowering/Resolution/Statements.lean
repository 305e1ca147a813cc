import LoopLowering.Resolution.Loops

namespace LoopLowering

/-!
# Resolving methods

Statements are resolved in order, each in the block scope around it. A block
and a loop open scopes of their own; the branches of a conditional do not.
-/

/-- Statements or a statement after resolution, with the state that follows. -/
structure CheckedTree (α : Type) where
  node : α
  state : MethodState

/-- Check a returned value against the result type of the method. -/
def checkReturned
    (table : ClassTable)
    (value : Checked Expr) :
    MethodState :=
  let expected := value.state.returnType
  if expected = .void then
    value.state.report .valueReturnedFromVoid value.node.span
  else
    checkConverts table value.type expected value.node.span value.state

mutual

/-- Resolve a statement in a scope. -/
def checkStmt
    (table : ClassTable)
    (options : CompilerOptions)
    (scope : ScopeId) :
    Stmt → MethodState → CheckedTree Stmt
  | .localVar span decl, state =>
      let declared := checkDeclaration table scope decl state
      match decl.initial with
      | none => ⟨.localVar span declared.node, declared.state⟩
      | some value =>
          let value := checkExpr table scope value declared.state
          ⟨.localVar span { declared.node with initial := some value.node },
            checkConverts table value.type declared.type value.node.span value.state⟩
  | .expr span value, state =>
      let value := checkExpr table scope value state
      ⟨.expr span value.node, value.state⟩
  | .block span stmts facts, state =>
      let inner := state.scope.nextBlock
      let checked := checkStmts table options inner stmts (state.mapScope (.openBlock scope))
      ⟨.block span checked.node { facts with scope := some inner }, checked.state⟩
  | .branch span condition thenBranch none, state =>
      let condition := checkExpr table scope condition state
      let thenBranch :=
        checkStmt table options scope thenBranch
          (checkConverts table condition.type .boolean condition.node.span condition.state)
      ⟨.branch span condition.node thenBranch.node none, thenBranch.state⟩
  | .branch span condition thenBranch (some elseBranch), state =>
      let condition := checkExpr table scope condition state
      let thenBranch :=
        checkStmt table options scope thenBranch
          (checkConverts table condition.type .boolean condition.node.span condition.state)
      let elseBranch := checkStmt table options scope elseBranch thenBranch.state
      ⟨.branch span condition.node thenBranch.node (some elseBranch.node), elseBranch.state⟩
  | .forEach span element collection none facts, state =>
      let head := checkLoopHead table options scope element collection state
      ⟨.forEach span head.element head.collection none
        { facts with scope := some head.scope, classification := head.classification },
        head.state⟩
  | .forEach span element collection (some action) facts, state =>
      let head := checkLoopHead table options scope element collection state
      let action := checkStmt table options head.scope action head.state
      ⟨.forEach span head.element head.collection (some action.node)
        { facts with scope := some head.scope, classification := head.classification },
        action.state⟩
  | .labeled span label body, state =>
      let body := checkStmt table options scope body state
      ⟨.labeled span label body.node, body.state⟩
  | .breakTo span label, state => ⟨.breakTo span label, state⟩
  | .continueTo span label, state => ⟨.continueTo span label, state⟩
  | .returnWith span none, state =>
      ⟨.returnWith span none,
        state.reportIf (state.returnType != .void) (.resultRequired state.returnType) span⟩
  | .returnWith span (some value), state =>
      let value := checkExpr table scope value state
      ⟨.returnWith span (some value.node), checkReturned table value⟩
  | .empty span, state => ⟨.empty span, state⟩

/-- Resolve statements in order. -/
def checkStmts
    (table : ClassTable)
    (options : CompilerOptions)
    (scope : ScopeId) :
    List Stmt → MethodState → CheckedTree (List Stmt)
  | [], state => ⟨[], state⟩
  | stmt :: rest, state =>
      let head := checkStmt table options scope stmt state
      let tail := checkStmts table options scope rest head.state
      ⟨head.node :: tail.node, tail.state⟩

end

/-- Bring type parameters into scope; a bound may refer to those before it. -/
def checkTypeParams
    (table : ClassTable) :
    List TypeParam → MethodState → MethodState
  | [], state => state
  | param :: rest, state =>
      let (bound, state) :=
        match param.bound with
        | some bound => resolveType table bound state
        | none => (.object, state)
      checkTypeParams table rest
        { state with typeVars := state.typeVars.insert param.name bound }

/-- Resolve the result type of a method, which is void when none is written. -/
def checkReturnType
    (table : ClassTable)
    (returnType : Option TypeExpr)
    (state : MethodState) :
    MethodState :=
  match returnType with
  | some type =>
      let (ty, state) := resolveType table type state
      { state with returnType := ty }
  | none => { state with returnType := .void }

/-- Declare the parameters of a method in order. -/
def checkParams
    (table : ClassTable) :
    List Param → MethodState → CheckedTree (List Param)
  | [], state => ⟨[], state⟩
  | param :: rest, state =>
      let (type, resolved) := resolveType table param.type state
      let (id, declared) :=
        declareLocal MethodScope.root
          { LocalVariable.declared param.name.node type param.name.span with
            isParam := true, isFinal := param.isFinal }
          resolved
      let tail := checkParams table rest declared
      ⟨{ param with binding := some id } :: tail.node, tail.state⟩

/-- Bind the names, resolve the types and classify the loops of a method. -/
def checkMethod
    (table : ClassTable)
    (options : CompilerOptions)
    (method : Method)
    (state : MethodState) :
    CheckedTree Method :=
  let declared :=
    checkReturnType table method.returnType (checkTypeParams table method.typeParams state)
  let params := checkParams table method.params declared
  let body := checkStmts table options MethodScope.root method.body.stmts params.state
  ⟨{ method with
      params := params.node
      body := { method.body with
        stmts := body.node
        facts := { method.body.facts with scope := some MethodScope.root } } },
    body.state⟩

end LoopLowering
