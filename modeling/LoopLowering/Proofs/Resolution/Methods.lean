import LoopLowering.Lowering
import LoopLowering.Proofs.Flow.Marks
import LoopLowering.Proofs.Resolution.SoundStates

namespace LoopLowering

/-!
# The expressions that resolution meets

Every expression of a method with what resolution makes of it: the expression
with its names bound, its type, and the state that follows.
-/

mutual

/-- What resolution makes of an expression and of each of its parts. -/
def Expr.resolutions
    (table : ClassTable)
    (block : ScopeId) :
    Expr → MethodState → List (Checked Expr)
  | .intLit span value, state => [checkExpr table block (.intLit span value) state]
  | .boolLit span value, state => [checkExpr table block (.boolLit span value) state]
  | .stringLit span value, state => [checkExpr table block (.stringLit span value) state]
  | .null span, state => [checkExpr table block (.null span) state]
  | .name span ref, state => [checkExpr table block (.name span ref) state]
  | .newArray span component elements, state =>
      let resolved := resolveType table component state
      checkExpr table block (.newArray span component elements) state ::
        Expr.elementResolutions table block resolved.1 elements resolved.2
  | .binary span op left right, state =>
      checkExpr table block (.binary span op left right) state ::
        (left.resolutions table block state ++
          right.resolutions table block (checkExpr table block left state).state)
  | .assign span target op value, state =>
      let bound := bindName block target.span target.node state
      let used := if op.isSome then markUse bound.1.binding bound.2 else bound.2
      checkExpr table block (.assign span target op value) state ::
        value.resolutions table block used
  | .call span function args, state =>
      checkExpr table block (.call span function args) state ::
        Expr.allResolutions table block args state
  | .methodCall span receiver method args, state =>
      checkExpr table block (.methodCall span receiver method args) state ::
        (receiver.resolutions table block state ++
          Expr.allResolutions table block args (checkExpr table block receiver state).state)

/-- What resolution makes of expressions and of their parts. -/
def Expr.allResolutions
    (table : ClassTable)
    (block : ScopeId) :
    List Expr → MethodState → List (Checked Expr)
  | [], _ => []
  | expr :: rest, state =>
      expr.resolutions table block state ++
        Expr.allResolutions table block rest (checkExpr table block expr state).state

/-- What resolution makes of the elements of an array and of their parts. -/
def Expr.elementResolutions
    (table : ClassTable)
    (block : ScopeId)
    (component : Ty) :
    List Expr → MethodState → List (Checked Expr)
  | [], _ => []
  | expr :: rest, state =>
      let head := checkExpr table block expr state
      expr.resolutions table block state ++
        Expr.elementResolutions table block component rest
          (checkConverts table head.type component head.node.span head.state)

end

mutual

/-- What resolution makes of the expressions in a statement. -/
def Stmt.resolutions
    (table : ClassTable)
    (options : CompilerOptions) :
    Stmt → ScopeId → MethodState → List (Checked Expr)
  | .localVar _ decl, scope, state =>
      match decl.initial with
      | none => []
      | some value =>
          value.resolutions table scope (checkDeclaration table scope decl state).state
  | .expr _ value, scope, state => value.resolutions table scope state
  | .block _ stmts _, scope, state =>
      Stmt.allResolutions table options stmts state.scope.nextBlock
        (state.mapScope (.openBlock scope))
  | .branch _ condition thenBranch none, scope, state =>
      let tested := checkExpr table scope condition state
      condition.resolutions table scope state ++
        thenBranch.resolutions table options scope
          (checkConverts table tested.type .boolean tested.node.span tested.state)
  | .branch _ condition thenBranch (some elseBranch), scope, state =>
      let tested := checkExpr table scope condition state
      let entered := checkConverts table tested.type .boolean tested.node.span tested.state
      condition.resolutions table scope state ++
        thenBranch.resolutions table options scope entered ++
        elseBranch.resolutions table options scope
          (checkStmt table options scope thenBranch entered).state
  | .forEach _ element collection none _, scope, state =>
      collection.resolutions table state.scope.nextBlock
        (checkDeclaration table state.scope.nextBlock element
          (state.mapScope (.openBlock scope))).state
  | .forEach _ element collection (some action) _, scope, state =>
      let head := checkLoopHead table options scope element collection state
      collection.resolutions table state.scope.nextBlock
          (checkDeclaration table state.scope.nextBlock element
            (state.mapScope (.openBlock scope))).state ++
        action.resolutions table options head.scope head.state
  | .labeled _ _ body, scope, state => body.resolutions table options scope state
  | .breakTo .., _, _ | .continueTo .., _, _ | .returnWith _ none, _, _ | .empty _, _, _ => []
  | .returnWith _ (some value), scope, state => value.resolutions table scope state

/-- What resolution makes of the expressions in statements. -/
def Stmt.allResolutions
    (table : ClassTable)
    (options : CompilerOptions) :
    List Stmt → ScopeId → MethodState → List (Checked Expr)
  | [], _, _ => []
  | stmt :: rest, scope, state =>
      stmt.resolutions table options scope state ++
        Stmt.allResolutions table options rest scope (checkStmt table options scope stmt state).state

end

/-- The state in which the parameters of a method are declared. -/
def Method.signatureState
    (table : ClassTable)
    (method : Method) :
    MethodState :=
  checkReturnType table method.returnType (checkTypeParams table method.typeParams .initial)

/-- The state in which the body of a method is resolved. -/
def Method.bodyState
    (table : ClassTable)
    (method : Method) :
    MethodState :=
  (checkParams table method.params (method.signatureState table)).state

/-- What resolution makes of the expressions in a method. -/
def Method.resolutions
    (table : ClassTable)
    (options : CompilerOptions)
    (method : Method) :
    List (Checked Expr) :=
  Stmt.allResolutions table options method.body.stmts MethodScope.root (method.bodyState table)

namespace CodeContext

/-- An expression that resolution meets: it is resolved at a place, and what is
known then is settled. -/
inductive Meets
    (context : CodeContext)
    (strict : Bool) :
    (checked : Checked Expr) → Prop where
  | intro
      {place : Place}
      {expr : Expr}
      {state : MethodState}
      (allowed : expr.isAllowed strict = true)
      (isAt : place.At state)
      (settles : context.Settles (checkExpr context.table place.block expr state).state) :
      Meets context strict (checkExpr context.table place.block expr state)

/-- What resolution makes of an expression has the type it is given. -/
def Types
    (context : CodeContext)
    (strict : Bool)
    (checked : Checked Expr) :
    Prop :=
  ∃ place : Place, place.count ≤ context.scope.locals.size ∧
    context.HasType strict place checked.node checked.type

variable
  {strict : Bool}
  {context : CodeContext}
  {place : Place}

/-- An expression that resolution meets has its type at its place. -/
theorem Meets.types
    (sound : context.Sound strict)
    {checked : Checked Expr}
    (meets : context.Meets strict checked) :
    context.Types strict checked := by
  cases meets with
  | intro allowed isAt settles =>
      exact ⟨_, isAt.count_le (settles.earlier (marks_checkExpr _ _ _ _).toLeads),
        hasType_checkExpr sound allowed isAt settles⟩

mutual

/-- Resolution meets the parts of an expression. -/
theorem meets_resolutions :
    ∀ {expr : Expr} {state : MethodState},
      expr.isAllowed strict = true →
      place.At state →
      context.Settles (checkExpr context.table place.block expr state).state →
      ∀ checked ∈ expr.resolutions context.table place.block state, context.Meets strict checked
  | .intLit .., state, allowed, isAt, settles, checked, member
  | .boolLit .., state, allowed, isAt, settles, checked, member
  | .stringLit .., state, allowed, isAt, settles, checked, member
  | .null _, state, allowed, isAt, settles, checked, member
  | .name .., state, allowed, isAt, settles, checked, member => by
      rw [Expr.resolutions, List.mem_singleton] at member
      subst member
      exact .intro allowed isAt settles
  | .newArray span component elements, state, allowed, isAt, settles, checked, member => by
      have whole := Meets.intro allowed isAt settles
      simp only [Expr.isAllowed, Bool.and_eq_true] at allowed
      simp only [checkExpr] at settles
      simp only [Expr.resolutions, List.mem_cons] at member
      rcases member with rfl | inElements
      · exact whole
      · exact meets_elementResolutions allowed.2 (isAt.marks (marks_resolveType _ _ _))
          settles checked inElements
  | .binary span op left right, state, allowed, isAt, settles, checked, member => by
      have whole := Meets.intro allowed isAt settles
      have leftMarks := marks_checkExpr context.table place.block left state
      have rightMarks := marks_checkExpr context.table place.block right
        (checkExpr context.table place.block left state).state
      have rightSettles : context.Settles (checkExpr context.table place.block right
          (checkExpr context.table place.block left state).state).state := by
        simp only [checkExpr] at settles
        split at settles
        · exact settles
        · exact settles.earlier (MethodState.marks_report _ _ _).toLeads
      simp only [Expr.isAllowed, Bool.and_eq_true] at allowed
      simp only [Expr.resolutions, List.mem_cons, List.mem_append] at member
      rcases member with rfl | inLeft | inRight
      · exact whole
      · exact meets_resolutions allowed.1 isAt (rightSettles.earlier rightMarks.toLeads)
          checked inLeft
      · exact meets_resolutions allowed.2 (isAt.marks leftMarks) rightSettles checked inRight
  | .assign span target op value, state, allowed, isAt, settles, checked, member => by
      have whole := Meets.intro allowed isAt settles
      have used : state.Marks
          (if op.isSome then
            markUse (bindName place.block target.span target.node state).1.binding
              (bindName place.block target.span target.node state).2
          else (bindName place.block target.span target.node state).2) := by
        split
        · exact (marks_bindName _ _ _ _).trans (marks_markUse _ _)
        · exact marks_bindName _ _ _ _
      have valueSettles : context.Settles (checkExpr context.table place.block value
          (if op.isSome then
            markUse (bindName place.block target.span target.node state).1.binding
              (bindName place.block target.span target.node state).2
          else (bindName place.block target.span target.node state).2)).state := by
        simp only [checkExpr] at settles
        split at settles
        · exact settles
        · dsimp only at settles
          exact settles.earlier (marks_checkAssignedValue _ _ _ _ _ _ _).toLeads
      simp only [Expr.isAllowed] at allowed
      simp only [Expr.resolutions, List.mem_cons] at member
      rcases member with rfl | inValue
      · exact whole
      · exact meets_resolutions allowed (isAt.marks used) valueSettles checked inValue
  | .call span function args, state, allowed, isAt, settles, checked, member => by
      have whole := Meets.intro allowed isAt settles
      have argsSettle : context.Settles (checkExprs context.table place.block args state).state := by
        simp only [checkExpr] at settles
        split at settles
        · exact settles.earlier (MethodState.marks_report _ _ _).toLeads
        · exact settles.earlier (marks_checkArguments _ _ _ _ _ _ _).toLeads
      simp only [Expr.isAllowed] at allowed
      simp only [Expr.resolutions, List.mem_cons] at member
      rcases member with rfl | inArgs
      · exact whole
      · exact meets_allResolutions allowed isAt argsSettle checked inArgs
  | .methodCall span receiver method args, state, allowed, isAt, settles, checked, member => by
      have whole := Meets.intro allowed isAt settles
      have receiverMarks := marks_checkExpr context.table place.block receiver state
      have argsMarks := marks_checkExprs context.table place.block args
        (checkExpr context.table place.block receiver state).state
      have argsSettle : context.Settles (checkExprs context.table place.block args
          (checkExpr context.table place.block receiver state).state).state := by
        simp only [checkExpr] at settles
        split at settles
        · exact settles
        · split at settles
          · exact settles.earlier (MethodState.marks_report _ _ _).toLeads
          · exact settles.earlier (marks_checkArguments _ _ _ _ _ _ _).toLeads
      simp only [Expr.isAllowed, Bool.and_eq_true] at allowed
      simp only [Expr.resolutions, List.mem_cons, List.mem_append] at member
      rcases member with rfl | inReceiver | inArgs
      · exact whole
      · exact meets_resolutions allowed.1 isAt (argsSettle.earlier argsMarks.toLeads)
          checked inReceiver
      · exact meets_allResolutions allowed.2 (isAt.marks receiverMarks) argsSettle checked
          inArgs

theorem meets_allResolutions :
    ∀ {exprs : List Expr} {state : MethodState},
      Expr.areAllowed strict exprs = true →
      place.At state →
      context.Settles (checkExprs context.table place.block exprs state).state →
      ∀ checked ∈ Expr.allResolutions context.table place.block exprs state,
        context.Meets strict checked
  | [], state, allowed, isAt, settles, checked, member => by
      simp [Expr.allResolutions] at member
  | expr :: rest, state, allowed, isAt, settles, checked, member => by
      simp only [Expr.areAllowed, Bool.and_eq_true] at allowed
      simp only [checkExprs] at settles
      have exprMarks := marks_checkExpr context.table place.block expr state
      have restMarks := marks_checkExprs context.table place.block rest
        (checkExpr context.table place.block expr state).state
      simp only [Expr.allResolutions, List.mem_append] at member
      rcases member with inExpr | inRest
      · exact meets_resolutions allowed.1 isAt (settles.earlier restMarks.toLeads) checked
          inExpr
      · exact meets_allResolutions allowed.2 (isAt.marks exprMarks) settles checked inRest

theorem meets_elementResolutions
    {component : Ty} :
    ∀ {exprs : List Expr} {state : MethodState},
      Expr.areAllowed strict exprs = true →
      place.At state →
      context.Settles (checkElements context.table place.block component exprs state).state →
      ∀ checked ∈ Expr.elementResolutions context.table place.block component exprs state,
        context.Meets strict checked
  | [], state, allowed, isAt, settles, checked, member => by
      simp [Expr.elementResolutions] at member
  | expr :: rest, state, allowed, isAt, settles, checked, member => by
      simp only [Expr.areAllowed, Bool.and_eq_true] at allowed
      simp only [checkElements] at settles
      have exprMarks := marks_checkGiven context.table place.block expr component state
      simp only [Expr.elementResolutions, List.mem_append] at member
      rcases member with inExpr | inRest
      · exact meets_resolutions allowed.1 isAt
          ((settles.earlier (marks_checkElements context.table place.block component rest
            _).toLeads).earlier (marks_checkConverts _ _ _ _ _).toLeads)
          checked inExpr
      · exact meets_elementResolutions allowed.2 (isAt.marks exprMarks) settles checked inRest

end

end CodeContext

/-!
## Resolution of methods is sound

What code generation knows about a method without errors mentions types of
values only, and every expression of the method has the type that resolution
gave it.
-/

namespace CodeContext

variable
  {strict : Bool}
  {context : CodeContext}
  {options : CompilerOptions}

/-- Resolution meets the parts of an expression in a well-formed state. -/
theorem meets_in_state
    {expr : Expr}
    {block : Nat}
    {state : MethodState}
    (wellFormed : state.scope.WellFormed)
    (known : block < state.scope.blocks.size)
    (allowed : expr.isAllowed strict = true)
    (settles : context.Settles (checkExpr context.table block expr state).state)
    {checked : Checked Expr}
    (member : checked ∈ expr.resolutions context.table block state) :
    context.Meets strict checked := by
  have isAt : (⟨block, state.scope.locals.size⟩ : Place).At state :=
    ⟨rfl, known, wellFormed⟩
  exact meets_resolutions allowed isAt settles checked member

/-- Resolution meets the parts of the collection of a loop. -/
theorem meets_loopHead
    {element : LocalDecl}
    {collection : Expr}
    {outer : Nat}
    {state : MethodState}
    (wellFormed : state.scope.WellFormed)
    (known : outer < state.scope.blocks.size)
    (allowed : collection.isAllowed strict = true)
    (settles : context.Settles
      (checkLoopHead context.table options outer element collection state).state)
    {checked : Checked Expr}
    (member : checked ∈ collection.resolutions context.table state.scope.nextBlock
      (checkDeclaration context.table state.scope.nextBlock element
        (state.mapScope (.openBlock outer))).state) :
    context.Meets strict checked := by
  have opened := MethodState.known_openBlock outer state
  have declared := leads_checkDeclaration context.table state.scope.nextBlock element
    (state.mapScope (.openBlock outer))
  have collectionSettles := settles.earlier
    (leads_resolveLoop context.table options state.scope.nextBlock _ _ _ _)
  exact meets_in_state (wellFormed_checkDeclaration (wellFormed.openBlock known) opened element)
    (declared.known opened) allowed collectionSettles member

mutual

/-- Resolution meets the expressions of a statement. -/
theorem meets_stmt :
    ∀ {stmt : Stmt} {block : Nat} {state : MethodState},
      state.scope.WellFormed →
      block < state.scope.blocks.size →
      stmt.isAllowed strict = true →
      context.Settles (checkStmt context.table options block stmt state).state →
      ∀ checked ∈ stmt.resolutions context.table options block state,
        context.Meets strict checked
  | .localVar span decl, block, state, wellFormed, known, allowed, settles, checked, member => by
      simp only [Stmt.isAllowed, LocalDecl.isAllowed, Bool.and_eq_true] at allowed
      cases initial : decl.initial with
      | none =>
          simp [Stmt.resolutions, initial] at member
      | some value =>
          simp only [Stmt.resolutions, initial] at member
          simp only [checkStmt, initial] at settles
          have valueSettles := settles.earlier (marks_checkConverts _ _ _ _ _).toLeads
          exact meets_in_state (wellFormed_checkDeclaration wellFormed known decl)
            ((leads_checkDeclaration context.table block decl state).known known)
            (by simpa [initial] using allowed.2) valueSettles member
  | .expr span value, block, state, wellFormed, known, allowed, settles, checked, member => by
      simp only [Stmt.isAllowed] at allowed
      simp only [Stmt.resolutions] at member
      simp only [checkStmt] at settles
      exact meets_in_state wellFormed known allowed settles member
  | .block span stmts facts, block, state, wellFormed, known, allowed, settles, checked,
      member => by
      simp only [Stmt.isAllowed] at allowed
      simp only [Stmt.resolutions] at member
      simp only [checkStmt] at settles
      exact meets_stmts (wellFormed.openBlock known) (MethodState.known_openBlock block state)
        allowed settles checked member
  | .branch span condition thenBranch none, block, state, wellFormed, known, allowed, settles,
      checked, member => by
      simp only [Stmt.isAllowed, Bool.and_eq_true] at allowed
      simp only [Stmt.resolutions, List.mem_append] at member
      simp only [checkStmt] at settles
      have enteredSettles := settles.earlier (leads_checkStmt context.table options thenBranch _ _)
      have marks := marks_checkGiven context.table block condition .boolean state
      rcases member with inCondition | inThen
      · exact meets_in_state wellFormed known allowed.1
          (enteredSettles.earlier (marks_checkConverts _ _ _ _ _).toLeads) inCondition
      · exact meets_stmt (marks.wellFormed wellFormed) (marks.known known) allowed.2 settles
          checked inThen
  | .branch span condition thenBranch (some elseBranch), block, state, wellFormed, known, allowed,
      settles, checked, member => by
      simp only [Stmt.isAllowed, Bool.and_eq_true] at allowed
      simp only [Stmt.resolutions, List.mem_append] at member
      simp only [checkStmt] at settles
      have marks := marks_checkGiven context.table block condition .boolean state
      have thenSettles := settles.earlier (leads_checkStmt context.table options elseBranch _ _)
      have enteredSettles := thenSettles.earlier
        (leads_checkStmt context.table options thenBranch block _)
      have enteredWellFormed := marks.wellFormed wellFormed
      rcases member with (inCondition | inThen) | inElse
      · exact meets_in_state wellFormed known allowed.1.1
          (enteredSettles.earlier (marks_checkConverts _ _ _ _ _).toLeads) inCondition
      · exact meets_stmt enteredWellFormed (marks.known known) allowed.1.2 thenSettles checked
          inThen
      · exact meets_stmt
          (wellFormed_checkStmt enteredWellFormed (marks.known known))
          ((leads_checkStmt context.table options thenBranch block _).known (marks.known known))
          allowed.2 settles checked inElse
  | .forEach span element collection none facts, block, state, wellFormed, known, allowed, settles,
      checked, member => by
      simp only [Stmt.isAllowed, Bool.and_eq_true] at allowed
      simp only [Stmt.resolutions] at member
      simp only [checkStmt] at settles
      exact meets_loopHead wellFormed known allowed.2 settles member
  | .forEach span element collection (some action) facts, block, state, wellFormed, known, allowed,
      settles, checked, member => by
      simp only [Stmt.isAllowed, Bool.and_eq_true] at allowed
      simp only [Stmt.resolutions, List.mem_append] at member
      simp only [checkStmt] at settles
      have headSettles := settles.earlier (leads_checkStmt context.table options action _ _)
      rcases member with inCollection | inAction
      · exact meets_loopHead wellFormed known allowed.1.2 headSettles inCollection
      · exact meets_stmt
          (wellFormed_checkLoopHead wellFormed known element collection)
          (MethodState.known_checkLoopHead context.table options block element collection state)
          allowed.2 settles checked inAction
  | .labeled span label body, block, state, wellFormed, known, allowed, settles, checked,
      member => by
      simp only [Stmt.isAllowed] at allowed
      simp only [Stmt.resolutions] at member
      simp only [checkStmt] at settles
      exact meets_stmt wellFormed known allowed settles checked member
  | .breakTo .., block, state, wellFormed, known, allowed, settles, checked, member
  | .continueTo .., block, state, wellFormed, known, allowed, settles, checked, member
  | .empty _, block, state, wellFormed, known, allowed, settles, checked, member
  | .returnWith span none, block, state, wellFormed, known, allowed, settles, checked, member => by
      simp [Stmt.resolutions] at member
  | .returnWith span (some value), block, state, wellFormed, known, allowed, settles, checked,
      member => by
      simp only [Stmt.isAllowed] at allowed
      simp only [Stmt.resolutions] at member
      simp only [checkStmt] at settles
      exact meets_in_state wellFormed known allowed
        (settles.earlier (marks_checkReturned _ _).toLeads) member

theorem meets_stmts :
    ∀ {stmts : List Stmt} {block : Nat} {state : MethodState},
      state.scope.WellFormed →
      block < state.scope.blocks.size →
      Stmt.areAllowed strict stmts = true →
      context.Settles (checkStmts context.table options block stmts state).state →
      ∀ checked ∈ Stmt.allResolutions context.table options stmts block state,
        context.Meets strict checked
  | [], block, state, wellFormed, known, allowed, settles, checked, member => by
      simp [Stmt.allResolutions] at member
  | stmt :: rest, block, state, wellFormed, known, allowed, settles, checked, member => by
      simp only [Stmt.areAllowed, Bool.and_eq_true] at allowed
      simp only [Stmt.allResolutions, List.mem_append] at member
      simp only [checkStmts] at settles
      have headSettles := settles.earlier (leads_checkStmts context.table options rest _ _)
      rcases member with inHead | inRest
      · exact meets_stmt wellFormed known allowed.1 headSettles checked inHead
      · exact meets_stmts (wellFormed_checkStmt wellFormed known)
          ((leads_checkStmt context.table options stmt block state).known known) allowed.2 settles
          checked inRest

end

end CodeContext

namespace MethodState

variable
  {strict : Bool}
  {table : ClassTable}

/-- The first state is sound. -/
theorem sound_initial
    (tableSound : table.Sound strict) :
    initial.Sound strict table where
  table := tableSound
  typeVars := .nil strict
  locals := by
    intro id known
    exact absurd known (Nat.not_lt_zero id)
  wellFormed := MethodScope.wellFormed_initial

/-- Type parameters are no locals, and their errors stay. -/
theorem leads_checkTypeParams :
    ∀ (params : List TypeParam) (state : MethodState),
      (checkTypeParams table params state).scope = state.scope ∧
        ((checkTypeParams table params state).Clean → state.Clean)
  | [], state => ⟨rfl, id⟩
  | param :: rest, state => by
      simp only [checkTypeParams]
      cases written : param.bound with
      | none =>
          exact leads_checkTypeParams rest
            { state with typeVars := state.typeVars.insert param.name .object }
      | some type =>
          have restLeads := leads_checkTypeParams rest
            { (resolveType table type state).2 with
              typeVars := (resolveType table type state).2.typeVars.insert param.name
                (resolveType table type state).1 }
          have sameScope : (resolveType table type state).2.scope = state.scope := by
            unfold resolveType
            split <;> rfl
          exact ⟨restLeads.1.trans sameScope,
            fun clean => (marks_resolveType table type state).isClean (restLeads.2 clean)⟩

/-- A state stays sound when type parameters come into scope. -/
theorem Sound.afterTypeParams :
    ∀ {params : List TypeParam} {state : MethodState},
      state.Sound strict table →
      params.all (TypeParam.isAllowed strict) = true →
      (checkTypeParams table params state).Clean →
      (checkTypeParams table params state).Sound strict table
  | [], state, sound, _, _ => sound
  | param :: rest, state, sound, allowed, clean => by
      simp only [List.all_cons, Bool.and_eq_true] at allowed
      obtain ⟨paramAllowed, restAllowed⟩ := allowed
      unfold TypeParam.isAllowed at paramAllowed
      simp only [checkTypeParams] at clean ⊢
      cases written : param.bound with
      | none =>
          have boundSound : (Ty.typeVar param.name Ty.object).isValue strict = true := by
            simp [Ty.isValue, Ty.object, Ty.areArguments, Ty.isPrimitive]
          simp only [written] at clean ⊢
          have later : MethodState.Sound strict table
              { state with typeVars := state.typeVars.insert param.name .object } :=
            ⟨sound.table, sound.typeVars.insert boundSound, sound.locals, sound.wellFormed⟩
          exact afterTypeParams later restAllowed clean
      | some type =>
          simp only [written, Bool.and_eq_true] at paramAllowed clean ⊢
          cases found : table.resolve state.typeVars type with
          | ok bound =>
              obtain ⟨value, keyword⟩ :=
                ClassTable.resolve_isValue sound.typeVars paramAllowed.1 found
              have boundSound : (Ty.typeVar param.name bound).isValue strict = true := by
                simp only [Ty.isValue, value, Bool.true_and]
                cases primitive : bound.isPrimitive with
                | false =>
                    simp
                | true =>
                    simpa [keyword primitive] using paramAllowed.2
              simp only [resolveType, found] at clean ⊢
              have later : MethodState.Sound strict table
                  { state with typeVars := state.typeVars.insert param.name bound } :=
                ⟨sound.table, sound.typeVars.insert boundSound, sound.locals, sound.wellFormed⟩
              exact afterTypeParams later restAllowed clean
          | error cause =>
              simp only [resolveType, found] at clean
              have restClean := (leads_checkTypeParams rest _).2 clean
              have reported : (state.report (.unknownType cause) type.span).Clean := restClean
              simp [Issue.severity] at reported

/-- The result type of a method leaves everything else as it is, and is void or
a type of values. -/
theorem Sound.afterReturnType
    {state : MethodState}
    (sound : state.Sound strict table)
    {returnType : Option TypeExpr}
    (allowed : returnType.all (TypeExpr.isAllowed strict) = true)
    (clean : (checkReturnType table returnType state).Clean) :
    (checkReturnType table returnType state).Sound strict table ∧ state.Clean ∧
      ((checkReturnType table returnType state).returnType = .void ∨
        (checkReturnType table returnType state).returnType.isValue strict = true) := by
  cases returnType with
  | none =>
      exact ⟨⟨sound.table, sound.typeVars, sound.locals, sound.wellFormed⟩, clean, .inl rfl⟩
  | some type =>
      simp only [Option.all_some] at allowed
      have marks := marks_resolveType table type state
      have resolvedSound := sound.afterMarks marks
      exact ⟨⟨resolvedSound.table, resolvedSound.typeVars, resolvedSound.locals,
        resolvedSound.wellFormed⟩, marks.isClean clean,
        .inr (sound.isValue_resolveType allowed clean)⟩

/-- Declaring parameters lets the locals grow. -/
theorem leads_checkParams :
    ∀ (params : List Param) (state : MethodState),
      state.Leads (checkParams table params state).state
  | [], state => .refl state
  | param :: rest, state => by
      simp only [checkParams]
      exact ((marks_resolveType table param.type state).toLeads.trans
        (leads_declareLocal MethodScope.root _ _)).trans (leads_checkParams rest _)

/-- A state stays sound when parameters are declared without an error. -/
theorem Sound.afterParams :
    ∀ {params : List Param} {state : MethodState},
      state.Sound strict table →
      params.all (fun param => param.type.isAllowed strict) = true →
      (checkParams table params state).state.Clean →
      (checkParams table params state).state.Sound strict table
  | [], state, sound, _, _ => sound
  | param :: rest, state, sound, allowed, clean => by
      simp only [List.all_cons, Bool.and_eq_true] at allowed
      simp only [checkParams] at clean ⊢
      have declaredClean := (leads_checkParams rest _).isClean clean
      have marks := marks_resolveType table param.type state
      have value := sound.isValue_resolveType allowed.1
        ((leads_declareLocal MethodScope.root _ _).isClean declaredClean)
      have resolvedSound := sound.afterMarks marks
      exact (resolvedSound.afterDeclare resolvedSound.wellFormed.root value).afterParams allowed.2
        clean

end MethodState

section Methods

variable
  {strict : Bool}
  {table : ClassTable}
  {options : CompilerOptions}
  {method : Method}

/-- What is known before the body of a method is resolved is sound, and so is
the type of its result. -/
theorem Method.sound_bodyState
    (tableSound : table.Sound strict)
    (allowed : method.isAllowed strict = true)
    (clean : (method.bodyState table).Clean) :
    (method.bodyState table).Sound strict table ∧
      ((method.bodyState table).returnType = .void ∨
        (method.bodyState table).returnType.isValue strict = true) := by
  simp only [Method.isAllowed, Bool.and_eq_true] at allowed
  obtain ⟨⟨⟨typeParamsAllowed, paramsAllowed⟩, returnTypeAllowed⟩, -⟩ := allowed
  have paramsLead : (method.signatureState table).Leads (method.bodyState table) :=
    MethodState.leads_checkParams method.params _
  have signatureClean := paramsLead.isClean clean
  have typeParamsClean : (checkTypeParams table method.typeParams .initial).Clean := by
    unfold Method.signatureState checkReturnType at signatureClean
    split at signatureClean
    · next type _ =>
        exact (marks_resolveType table type _).isClean signatureClean
    · exact signatureClean
  have typeParamsSound := (MethodState.sound_initial tableSound).afterTypeParams typeParamsAllowed
    typeParamsClean
  obtain ⟨signatureSound, -, returnType⟩ :=
    typeParamsSound.afterReturnType returnTypeAllowed signatureClean
  rw [paramsLead.returnType]
  exact ⟨signatureSound.afterParams paramsAllowed clean, returnType⟩

/-- The scopes are well formed where the body of a method starts. -/
theorem Method.wellFormed_bodyState
    (table : ClassTable)
    (method : Method) :
    (method.bodyState table).scope.WellFormed := by
  have typeParams : (checkTypeParams table method.typeParams .initial).scope = .initial :=
    (MethodState.leads_checkTypeParams method.typeParams .initial).1
  have signature : (method.signatureState table).scope = .initial := by
    unfold Method.signatureState checkReturnType
    split
    · next type _ =>
        unfold resolveType
        dsimp only
        split <;> exact typeParams
    · exact typeParams
  exact wellFormed_checkParams (signature ▸ MethodScope.wellFormed_initial)

/-- What code generation knows about a method. -/
def loweringContext
    (table : ClassTable)
    (options : CompilerOptions)
    (method : Method) :
    CodeContext :=
  ⟨table, (analyzedMethod table options method).state.mapScope
    (.assignSlots options.keepUnusedLocals)⟩

/-- Assigning slots marks nothing. -/
theorem marks_assignSlots
    (keepUnused : Bool)
    (state : MethodState) :
    state.Marks (state.mapScope (.assignSlots keepUnused)) :=
  ⟨.mapScope (MethodScope.grows_assignSlots keepUnused state.scope), rfl,
    by simp [MethodState.mapScope, MethodScope.assignSlots]⟩

/-- Between the resolution of a method and its code, locals are marked at
most. -/
theorem marks_loweringContext
    (table : ClassTable)
    (options : CompilerOptions)
    (method : Method) :
    (checkMethod table options method .initial).state.Marks
      (loweringContext table options method).state :=
  (marks_analyzeMethod options _ _).trans (marks_assignSlots _ _)

/-- What code generation knows about a method settles the resolution of its
body, if there is no error. -/
theorem settles_loweringContext
    (clean : (analyzedMethod table options method).state.Clean) :
    (loweringContext table options method).Settles
      (checkStmts table options MethodScope.root method.body.stmts (method.bodyState table)).state :=
  ⟨(marks_loweringContext table options method).toLeads, clean⟩

/-- What is known about a method without errors when it is analyzed is sound. -/
theorem sound_analyzedMethod
    (tableSound : table.Sound strict)
    (allowed : method.isAllowed strict = true)
    (clean : (analyzedMethod table options method).state.Clean) :
    (analyzedMethod table options method).state.Sound strict table := by
  have bodyLeads := leads_checkStmts table options method.body.stmts MethodScope.root
    (method.bodyState table)
  have bodyClean := (settles_loweringContext clean).isClean
  obtain ⟨bodySound, -⟩ := Method.sound_bodyState tableSound allowed (bodyLeads.isClean bodyClean)
  simp only [Method.isAllowed, Bool.and_eq_true] at allowed
  have checkedSound : (checkStmts table options MethodScope.root method.body.stmts
      (method.bodyState table)).state.Sound strict table :=
    bodySound.afterStmts bodySound.wellFormed.root allowed.2 bodyClean
  exact checkedSound.afterMarks (marks_analyzeMethod options _ _)

/-- What code generation knows about a method without errors is sound. -/
theorem sound_loweringContext
    (tableSound : table.Sound strict)
    (allowed : method.isAllowed strict = true)
    (clean : (analyzedMethod table options method).state.Clean) :
    (loweringContext table options method).Sound strict :=
  (sound_analyzedMethod tableSound allowed clean).afterMarks (marks_assignSlots _ _)

/-- Every expression of a method without errors has the type that resolution
gave it. -/
theorem types_loweringContext
    (tableSound : table.Sound strict)
    (allowed : method.isAllowed strict = true)
    (clean : (analyzedMethod table options method).state.Clean)
    {checked : Checked Expr}
    (member : checked ∈ method.resolutions table options) :
    (loweringContext table options method).Types strict checked := by
  have sound := sound_loweringContext tableSound allowed clean
  simp only [Method.isAllowed, Bool.and_eq_true] at allowed
  have wellFormed := Method.wellFormed_bodyState table method
  exact (CodeContext.meets_stmts wellFormed wellFormed.root allowed.2
    (settles_loweringContext clean) checked member).types sound

end Methods

end LoopLowering
