import LoopLowering.Proofs.Resolution.Methods
import LoopLowering.Proofs.Resolution.ResolvedStatements
import LoopLowering.Syntax.Traversal

namespace LoopLowering

/-!
# Nothing fails to resolve silently

What fails to resolve gets the unknown type, which converts to and from every
other one so that a failure is reported once. While no error is reported there is
no such failure: no type of an expression or of a local mentions the unknown
type, and every loop is resolved.
-/

namespace Ty

mutual

/-- Whether a type is unknown or is built from an unknown type. -/
def mentionsUnknown :
    Ty → Bool
  | .unknown => true
  | .classType _ args => anyMentionsUnknown args
  | .typeVar _ bound | .wildcardExtends bound => bound.mentionsUnknown
  | .array component => component.mentionsUnknown
  | .primitive _ | .wildcard | .null | .void => false

/-- Whether one of some types mentions an unknown type. -/
def anyMentionsUnknown :
    List Ty → Bool
  | [] => false
  | ty :: rest => ty.mentionsUnknown || anyMentionsUnknown rest

end

mutual

/-- A type of values mentions no unknown type. -/
theorem mentionsUnknown_of_isValue
    {strict : Bool} :
    ∀ {ty : Ty},
      ty.isValue strict = true →
      ty.mentionsUnknown = false
  | .primitive _, _ | .wildcard, _ => by
      simp [mentionsUnknown]
  | .classType _ args, value => by
      simp only [isValue] at value
      simpa only [mentionsUnknown] using anyMentionsUnknown_of_areArguments value
  | .typeVar _ bound, value | .wildcardExtends bound, value => by
      simp only [isValue, Bool.and_eq_true] at value
      simpa only [mentionsUnknown] using mentionsUnknown_of_isValue value.1
  | .array component, value => by
      simp only [isValue] at value
      simpa only [mentionsUnknown] using mentionsUnknown_of_isValue value
  | .null, value | .void, value | .unknown, value => by
      simp [isValue] at value

theorem anyMentionsUnknown_of_areArguments
    {strict : Bool} :
    ∀ {types : List Ty},
      areArguments strict types = true →
      anyMentionsUnknown types = false
  | [], _ => by
      simp [anyMentionsUnknown]
  | ty :: rest, arguments => by
      simp only [areArguments, Bool.and_eq_true] at arguments
      simp [anyMentionsUnknown, mentionsUnknown_of_isValue arguments.1.1,
        anyMentionsUnknown_of_areArguments arguments.2]

end

/-- The type of an expression that is resolved mentions no unknown type. -/
theorem IsResult.mentionsUnknown
    {strict : Bool}
    {ty : Ty}
    (result : ty.IsResult strict) :
    ty.mentionsUnknown = false := by
  rcases result with rfl | rfl | value
  · simp [Ty.mentionsUnknown]
  · simp [Ty.mentionsUnknown]
  · exact mentionsUnknown_of_isValue value

end Ty

/-- The expression that a node is. -/
def VisitedNode.expr? :
    VisitedNode → Option Expr
  | .expr found => some found
  | _ => none

/-- An expression and its parts in the order of the source. -/
def Expr.parts
    (expr : Expr) :
    List Expr :=
  (expr.visits fun _ => true).filterMap VisitedNode.expr?

/-- Expressions and their parts in the order of the source. -/
def Expr.allParts
    (exprs : List Expr) :
    List Expr :=
  (Expr.visitsAll (fun _ => true) exprs).filterMap VisitedNode.expr?

/-- An expression comes before its parts. -/
theorem Expr.filterMap_visitNode
    (expr : Expr)
    (nodes : List VisitedNode) :
    (visitNode (fun _ => true) (.expr expr) nodes).filterMap VisitedNode.expr? =
      expr :: nodes.filterMap VisitedNode.expr? := by
  simp [visitNode, VisitedNode.expr?]

@[simp] theorem Expr.allParts_nil :
    Expr.allParts [] = [] :=
  rfl

@[simp] theorem Expr.allParts_cons
    (expr : Expr)
    (rest : List Expr) :
    Expr.allParts (expr :: rest) = expr.parts ++ Expr.allParts rest := by
  simp [Expr.allParts, Expr.parts, Expr.visitsAll]

mutual

/-- The expressions of a statement in the order of the source, except for the
initial values of loop variables. -/
def Stmt.exprs :
    Stmt → List Expr
  | .localVar _ decl =>
      match decl.initial with
      | none => []
      | some value => value.parts
  | .expr _ value => value.parts
  | .block _ stmts _ => Stmt.allExprs stmts
  | .branch _ condition thenBranch none => condition.parts ++ thenBranch.exprs
  | .branch _ condition thenBranch (some elseBranch) =>
      condition.parts ++ thenBranch.exprs ++ elseBranch.exprs
  | .forEach _ _ collection none _ => collection.parts
  | .forEach _ _ collection (some action) _ => collection.parts ++ action.exprs
  | .labeled _ _ body => body.exprs
  | .breakTo .. | .continueTo .. | .returnWith _ none | .empty _ => []
  | .returnWith _ (some value) => value.parts

/-- The expressions of statements in the order of the source, except for the
initial values of loop variables. -/
def Stmt.allExprs :
    List Stmt → List Expr
  | [] => []
  | stmt :: rest => stmt.exprs ++ Stmt.allExprs rest

end

section Coverage

variable
  {table : ClassTable}
  {block : ScopeId}

mutual

/-- Resolution meets an expression and its parts in the order of the source. -/
theorem Expr.map_node_resolutions :
    ∀ (expr : Expr) (state : MethodState),
      (expr.resolutions table block state).map Checked.node =
        (checkExpr table block expr state).node.parts
  | .intLit .., state | .boolLit .., state | .stringLit .., state | .null _, state
  | .name .., state => by
      simp [Expr.resolutions, checkExpr, Expr.parts, Expr.visits, Expr.filterMap_visitNode]
  | .newArray span component elements, state => by
      have elementNodes := Expr.map_node_elementResolutions
        (resolveType table component state).1 elements (resolveType table component state).2
      simp [Expr.resolutions, elementNodes, checkExpr, Expr.parts, Expr.allParts, Expr.visits,
        Expr.filterMap_visitNode]
  | .binary span op left right, state => by
      have leftNodes := Expr.map_node_resolutions left state
      have rightNodes := Expr.map_node_resolutions right (checkExpr table block left state).state
      simp only [Expr.resolutions, List.map_cons, List.map_append, leftNodes, rightNodes, checkExpr]
      split <;>
        simp [Expr.parts, Expr.visits, Expr.filterMap_visitNode]
  | .assign span target op value, state => by
      have valueNodes := Expr.map_node_resolutions value
        (if op.isSome then
          markUse (bindName block target.span target.node state).1.binding
            (bindName block target.span target.node state).2
        else (bindName block target.span target.node state).2)
      simp only [Expr.resolutions, List.map_cons, valueNodes, checkExpr]
      split <;>
        simp [Expr.parts, Expr.visits, Expr.filterMap_visitNode]
  | .call span function args, state => by
      have argNodes := Expr.map_node_allResolutions args state
      simp only [Expr.resolutions, List.map_cons, argNodes, checkExpr]
      split <;>
        simp [Expr.parts, Expr.allParts, Expr.visits, Expr.filterMap_visitNode]
  | .methodCall span receiver method args, state => by
      have receiverNodes := Expr.map_node_resolutions receiver state
      have argNodes := Expr.map_node_allResolutions args
        (checkExpr table block receiver state).state
      simp only [Expr.resolutions, List.map_cons, List.map_append, receiverNodes, argNodes,
        checkExpr]
      split
      · simp [Expr.parts, Expr.allParts, Expr.visits, Expr.filterMap_visitNode]
      · split <;>
          simp [Expr.parts, Expr.allParts, Expr.visits, Expr.filterMap_visitNode]

theorem Expr.map_node_allResolutions :
    ∀ (exprs : List Expr) (state : MethodState),
      (Expr.allResolutions table block exprs state).map Checked.node =
        Expr.allParts (checkExprs table block exprs state).nodes
  | [], state => by
      simp [Expr.allResolutions, checkExprs]
  | expr :: rest, state => by
      have headNodes := Expr.map_node_resolutions expr state
      have restNodes := Expr.map_node_allResolutions rest (checkExpr table block expr state).state
      simp [Expr.allResolutions, headNodes, restNodes, checkExprs]

theorem Expr.map_node_elementResolutions
    (component : Ty) :
    ∀ (exprs : List Expr) (state : MethodState),
      (Expr.elementResolutions table block component exprs state).map Checked.node =
        Expr.allParts (checkElements table block component exprs state).nodes
  | [], state => by
      simp [Expr.elementResolutions, checkElements]
  | expr :: rest, state => by
      have headNodes := Expr.map_node_resolutions expr state
      have restNodes := Expr.map_node_elementResolutions component rest
        (checkConverts table (checkExpr table block expr state).type component
          (checkExpr table block expr state).node.span (checkExpr table block expr state).state)
      simp [Expr.elementResolutions, headNodes, restNodes, checkElements]

end

variable
  {options : CompilerOptions}

mutual

/-- Resolution meets the expressions of a statement in the order of the source. -/
theorem Stmt.map_node_resolutions :
    ∀ (stmt : Stmt) (scope : ScopeId) (state : MethodState),
      (stmt.resolutions table options scope state).map Checked.node =
        (checkStmt table options scope stmt state).node.exprs
  | .localVar span decl, scope, state => by
      cases initial : decl.initial with
      | none =>
          simp [Stmt.resolutions, checkStmt, Stmt.exprs, initial, checkDeclaration]
      | some value =>
          simp [Stmt.resolutions, checkStmt, Stmt.exprs, initial, Expr.map_node_resolutions]
  | .expr span value, scope, state | .returnWith span (some value), scope, state => by
      simp [Stmt.resolutions, checkStmt, Stmt.exprs, Expr.map_node_resolutions]
  | .block span stmts facts, scope, state => by
      simp [Stmt.resolutions, checkStmt, Stmt.exprs, Stmt.map_node_allResolutions stmts]
  | .branch span condition thenBranch none, scope, state => by
      simp [Stmt.resolutions, checkStmt, Stmt.exprs, Expr.map_node_resolutions,
        Stmt.map_node_resolutions thenBranch]
  | .branch span condition thenBranch (some elseBranch), scope, state => by
      simp [Stmt.resolutions, checkStmt, Stmt.exprs, Expr.map_node_resolutions,
        Stmt.map_node_resolutions thenBranch, Stmt.map_node_resolutions elseBranch]
  | .forEach span element collection none facts, scope, state => by
      simp [Stmt.resolutions, checkStmt, checkLoopHead, Stmt.exprs, Expr.map_node_resolutions]
  | .forEach span element collection (some action) facts, scope, state => by
      simp [Stmt.resolutions, checkStmt, checkLoopHead, Stmt.exprs, Expr.map_node_resolutions,
        Stmt.map_node_resolutions action]
  | .labeled span label body, scope, state => by
      simp [Stmt.resolutions, checkStmt, Stmt.exprs, Stmt.map_node_resolutions body]
  | .breakTo .., scope, state | .continueTo .., scope, state | .returnWith _ none, scope, state
  | .empty _, scope, state => by
      simp [Stmt.resolutions, checkStmt, Stmt.exprs]

theorem Stmt.map_node_allResolutions :
    ∀ (stmts : List Stmt) (scope : ScopeId) (state : MethodState),
      (Stmt.allResolutions table options stmts scope state).map Checked.node =
        Stmt.allExprs (checkStmts table options scope stmts state).node
  | [], scope, state => by
      simp [Stmt.allResolutions, checkStmts, Stmt.allExprs]
  | stmt :: rest, scope, state => by
      simp [Stmt.allResolutions, checkStmts, Stmt.allExprs, Stmt.map_node_resolutions stmt,
        Stmt.map_node_allResolutions rest]

end

end Coverage

/-- The expressions of a method in the order of the source, except for the initial
values of loop variables. -/
def Method.exprs
    (method : Method) :
    List Expr :=
  Stmt.allExprs method.body.stmts

/-- Resolution meets the expressions of a method in the order of the source. -/
theorem Method.map_node_resolutions
    (table : ClassTable)
    (options : CompilerOptions)
    (method : Method) :
    (method.resolutions table options).map Checked.node =
      (checkMethod table options method .initial).node.exprs :=
  Stmt.map_node_allResolutions method.body.stmts MethodScope.root (method.bodyState table)

namespace CodeContext

variable
  {strict : Bool}
  {context : CodeContext}

/-- The type of an expression that resolution meets mentions no unknown type. -/
theorem Types.mentionsUnknown
    (sound : context.Sound strict)
    {checked : Checked Expr}
    (types : context.Types strict checked) :
    checked.type.mentionsUnknown = false := by
  obtain ⟨place, counted, typed⟩ := types
  exact (typed.isResult sound counted).mentionsUnknown

mutual

/-- The loops of a resolved statement are resolved. -/
theorem resolved_loopsAt :
    ∀ {stmt : Stmt} {block first : Nat},
      context.Resolved strict stmt block first →
      ∀ (depth : Nat), ∀ loop ∈ stmt.loopsAt depth,
        ∃ resolution, loop.facts.classification = .resolved resolution
  | .block span stmts facts, block, first, resolved, depth, loop, member => by
      simp only [Resolved] at resolved
      obtain ⟨inner, -, -, resolvedStmts⟩ := resolved
      exact resolved_loopsAtAll resolvedStmts depth loop member
  | .branch span condition thenBranch none, block, first, resolved, depth, loop, member => by
      simp only [Resolved] at resolved
      exact resolved_loopsAt resolved.2 depth loop member
  | .branch span condition thenBranch (some elseBranch), block, first, resolved, depth, loop,
      member => by
      simp only [Resolved] at resolved
      simp only [Stmt.loopsAt, List.mem_append] at member
      rcases member with inThen | inElse
      · exact resolved_loopsAt resolved.2.1 depth loop inThen
      · exact resolved_loopsAt resolved.2.2 depth loop inElse
  | .forEach span element collection none facts, block, first, resolved, depth, loop, member => by
      simp only [Resolved] at resolved
      obtain ⟨inner, resolution, head⟩ := resolved
      simp only [Stmt.loopsAt, List.mem_singleton] at member
      exact ⟨resolution, member ▸ head.classification⟩
  | .forEach span element collection (some action) facts, block, first, resolved, depth, loop,
      member => by
      simp only [Resolved] at resolved
      obtain ⟨inner, resolution, head, resolvedAction⟩ := resolved
      simp only [Stmt.loopsAt, List.mem_cons] at member
      rcases member with rfl | inAction
      · exact ⟨resolution, head.classification⟩
      · exact resolved_loopsAt resolvedAction (depth + 1) loop inAction
  | .labeled span label body, block, first, resolved, depth, loop, member => by
      simp only [Resolved] at resolved
      exact resolved_loopsAt resolved depth loop member
  | .localVar .., block, first, resolved, depth, loop, member
  | .expr .., block, first, resolved, depth, loop, member
  | .breakTo .., block, first, resolved, depth, loop, member
  | .continueTo .., block, first, resolved, depth, loop, member
  | .returnWith .., block, first, resolved, depth, loop, member
  | .empty _, block, first, resolved, depth, loop, member => by
      simp [Stmt.loopsAt] at member

theorem resolved_loopsAtAll :
    ∀ {stmts : List Stmt} {block first : Nat},
      context.AllResolved strict stmts block first →
      ∀ (depth : Nat), ∀ loop ∈ Stmt.loopsAtAll depth stmts,
        ∃ resolution, loop.facts.classification = .resolved resolution
  | [], block, first, resolved, depth, loop, member => by
      simp [Stmt.loopsAtAll] at member
  | stmt :: rest, block, first, resolved, depth, loop, member => by
      simp only [AllResolved] at resolved
      simp only [Stmt.loopsAtAll, List.mem_append] at member
      rcases member with inFirst | inRest
      · exact resolved_loopsAt resolved.1 depth loop inFirst
      · exact resolved_loopsAtAll resolved.2 depth loop inRest

end

end CodeContext

/-- Resolution meets every expression of a method but the initial values of loop
variables. While it reports no error, no type of an expression or of a local mentions
an unknown type, and every loop is resolved, wherever it stands. -/
theorem Method.resolved_of_clean
    {unit : CompilationUnit}
    {table : ClassTable}
    (accepted : ClassTable.ofUnit unit = .ok table)
    {options : CompilerOptions}
    {method : Method}
    (clean : (checkMethod table options method .initial).state.Clean) :
    (method.resolutions table options).map Checked.node =
        (checkMethod table options method .initial).node.exprs ∧
      (∀ checked ∈ method.resolutions table options, checked.type.mentionsUnknown = false) ∧
      (∀ id < (checkMethod table options method .initial).state.scope.locals.size,
        ((checkMethod table options method .initial).state.localAt id).type.mentionsUnknown =
          false) ∧
      (∀ loop ∈ (checkMethod table options method .initial).node.loops,
        ∃ resolution, loop.facts.classification = .resolved resolution) := by
  have tableSound : table.Sound false :=
    ClassTable.ofUnit_sound (CompilationUnit.isAllowed_lenient unit) accepted
  have bodyLeads := leads_checkStmts table options method.body.stmts MethodScope.root
    (method.bodyState table)
  obtain ⟨bodySound, -⟩ := Method.sound_bodyState tableSound method.isAllowed_lenient
    (bodyLeads.isClean clean)
  have allowed := Stmt.areAllowed_lenient method.body.stmts
  have wellFormed := Method.wellFormed_bodyState table method
  let context : CodeContext := ⟨table, (checkMethod table options method .initial).state⟩
  have sound : context.Sound false :=
    bodySound.afterStmts wellFormed.root allowed clean
  have settles : context.Settles
      (checkStmts table options MethodScope.root method.body.stmts
        (method.bodyState table)).state :=
    ⟨.refl _, clean⟩
  obtain ⟨resolved, -⟩ := CodeContext.resolved_checkStmts sound bodySound
    wellFormed.root allowed settles
  refine ⟨method.map_node_resolutions table options, fun checked member => ?_,
    fun id known => ?_, fun loop member => ?_⟩
  · have meets := CodeContext.meets_stmts wellFormed wellFormed.root allowed settles checked member
    exact (meets.types sound).mentionsUnknown sound
  · exact Ty.mentionsUnknown_of_isValue (sound.locals id known)
  · exact CodeContext.resolved_loopsAtAll resolved 0 loop member

/-- A method that returns before a loop over the elements of its parameter. -/
def Method.returnsBeforeLoop :
    Method where
  name := ⟨"m", .absent⟩
  typeParams := [⟨"T", none⟩]
  params := [⟨⟨"xs", .absent⟩, .generic .absent "List" [.named .absent "T"], false, none⟩]
  returnType := none
  body := {
    span := .absent
    stmts := [
      .returnWith .absent none,
      .forEach .absent ⟨⟨"x", .absent⟩, .named .absent "T", none, false, none⟩
        (.name .absent (.unbound "xs")) (some (.expr .absent (.name .absent (.unbound "x"))))
        .initial]
    facts := .initial
  }

/-- The types and the loop of a method that never reaches its loop are resolved. -/
theorem returnsBeforeLoop_resolved :
    ClassTable.ofUnit ⟨"Main", none, [], [], []⟩ = .ok .builtin ∧
      (checkMethod .builtin .standard .returnsBeforeLoop .initial).state.Clean ∧
      (Method.returnsBeforeLoop.resolutions .builtin .standard).length = 2 ∧
      (∀ checked ∈ Method.returnsBeforeLoop.resolutions .builtin .standard,
        checked.type.mentionsUnknown = false) ∧
      (checkMethod .builtin .standard .returnsBeforeLoop .initial).node.loops.length = 1 ∧
      ∀ loop ∈ (checkMethod .builtin .standard .returnsBeforeLoop .initial).node.loops,
        ∃ resolution, loop.facts.classification = .resolved resolution := by
  have accepted : ClassTable.ofUnit ⟨"Main", none, [], [], []⟩ = .ok .builtin := rfl
  have clean : (checkMethod .builtin .standard .returnsBeforeLoop .initial).state.Clean := by
    decide +kernel
  obtain ⟨-, types, -, loops⟩ := Method.resolved_of_clean accepted clean
  exact ⟨accepted, clean, by decide +kernel, types, by decide +kernel, loops⟩

end LoopLowering
