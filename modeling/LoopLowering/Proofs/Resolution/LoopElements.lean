import LoopLowering.Proofs.Flow.Behaviour
import LoopLowering.Proofs.Flow.Resolved

namespace LoopLowering

/-!
# Elements are read in their loops

The element of a loop is declared in the scope of the loop, which no statement
after the loop is in. So resolution binds no name after the loop to it.
-/

/-- The elements of the loops of a statement. -/
def Stmt.elements
    (stmt : Stmt) :
    List LocalId :=
  stmt.heads.filterMap fun head => head.1.binding

/-- The elements of the loops of statements. -/
def Stmt.allElements
    (stmts : List Stmt) :
    List LocalId :=
  (Stmt.allHeads stmts).filterMap fun head => head.1.binding

/-- The only element of a loop without a body. -/
theorem Stmt.elements_forEach_none
    (span : Span)
    (element : LocalDecl)
    (collection : Expr)
    (facts : LoopFacts) :
    (forEach span element collection none facts).elements = element.binding.toList := by
  simp only [elements, heads, List.filterMap_cons, List.filterMap_nil]
  cases element.binding <;> rfl

/-- The element of a loop comes before those of its body. -/
theorem Stmt.elements_forEach_some
    (span : Span)
    (element : LocalDecl)
    (collection : Expr)
    (action : Stmt)
    (facts : LoopFacts) :
    (forEach span element collection (some action) facts).elements =
      element.binding.toList ++ action.elements := by
  simp only [elements, heads, List.filterMap_cons]
  cases element.binding <;> rfl

mutual

/-- The loops of a statement have scopes, and no statement reads the element of a
loop before it. -/
def Stmt.ConfinesElements :
    Stmt → Prop
  | .block _ stmts _ => Stmt.AllConfineElements stmts
  | .branch _ _ thenBranch none => thenBranch.ConfinesElements
  | .branch _ _ thenBranch (some elseBranch) =>
      thenBranch.ConfinesElements ∧ elseBranch.ConfinesElements
  | .forEach _ _ _ none facts => facts.scope.isSome = true
  | .forEach _ _ _ (some action) facts => facts.scope.isSome = true ∧ action.ConfinesElements
  | .labeled _ _ body => body.ConfinesElements
  | .localVar .. | .expr .. | .breakTo .. | .continueTo .. | .returnWith .. | .empty _ => True

/-- The loops of statements have scopes, and no statement reads the element of a
loop before it. -/
def Stmt.AllConfineElements :
    List Stmt → Prop
  | [] => True
  | stmt :: rest =>
      stmt.ConfinesElements ∧ Stmt.AllConfineElements rest ∧
        ∀ id ∈ stmt.elements, ∀ trace outcome, Stmt.allBehaviour rest trace outcome →
          ∀ span, .read span id ∉ trace

end

/-- A trace reads those of the locals known at a point that a block scope
sees. -/
def MethodScope.SeesReads
    (scope : MethodScope)
    (block : Nat)
    (trace : LocalTrace) :
    Prop :=
  ∀ span id, .read span id ∈ trace → id < scope.locals.size →
    (scope.localAt id).scope ∈ scope.enclosing block

namespace MethodScope.SeesReads

variable
  {scope after : MethodScope}
  {block : Nat}
  {first second trace : LocalTrace}

theorem nil
    (scope : MethodScope)
    (block : Nat) :
    scope.SeesReads block [] := by
  intro span id member
  cases member

theorem append
    (one : scope.SeesReads block first)
    (other : scope.SeesReads block second) :
    scope.SeesReads block (first ++ second) := by
  intro span id member
  rcases List.mem_append.mp member with inFirst | inSecond
  · exact one span id inFirst
  · exact other span id inSecond

/-- An assignment reads nothing. -/
theorem assign
    (scope : MethodScope)
    (block : Nat)
    (binding : Option LocalId) :
    scope.SeesReads block (LocalTrace.ofBinding .assign binding) := by
  intro span id member
  cases binding <;> simp [LocalTrace.ofBinding] at member

/-- A name is bound to a local that the scope sees. -/
theorem lookup
    (wellFormed : scope.WellFormed)
    (block : Nat)
    (span : Span)
    (name : String) :
    scope.SeesReads block (LocalTrace.ofBinding (.read span) (scope.lookup block name)) := by
  intro position id member _
  cases found : scope.lookup block name with
  | none =>
      simp [found, LocalTrace.ofBinding] at member
  | some bound =>
      simp only [found, LocalTrace.ofBinding, Option.map_some, Option.toList_some,
        List.mem_singleton, LocalStep.read.injEq] at member
      obtain ⟨-, rfl⟩ := member
      exact (wellFormed.sees_lookup found).2

/-- What is seen later is seen already, as far as it is known. -/
theorem earlier
    (reads : after.SeesReads block trace)
    (grows : scope.Grows after)
    (wellFormed : scope.WellFormed)
    (wellFormedAfter : after.WellFormed)
    (known : block < scope.blocks.size) :
    scope.SeesReads block trace := by
  intro span id member inLocals
  have seen := reads span id member (Nat.lt_of_lt_of_le inLocals grows.localCount)
  rwa [grows.enclosing wellFormed wellFormedAfter block known,
    (grows.persists id inLocals).scope] at seen

/-- What a scope sees that was opened is seen by the scope around it, as far as it
was known before. -/
theorem opened
    (wellFormed : scope.WellFormed)
    (known : block < scope.blocks.size)
    (reads : (scope.openBlock block).SeesReads scope.blocks.size trace) :
    scope.SeesReads block trace := by
  intro span id member inLocals
  have wellFormedAfter := wellFormed.openBlock known
  have seen := reads span id member inLocals
  have isParent : ((scope.openBlock block).block scope.blocks.size).parent = some block := by
    rw [(block_openBlock known scope.blocks.size).1, if_pos rfl]
  rw [wellFormedAfter.enclosing_eq scope.blocks.size, isParent] at seen
  simp only at seen
  rw [(grows_openBlock block scope).enclosing wellFormed wellFormedAfter block known] at seen
  have home : (scope.localAt id).scope < scope.blocks.size := wellFormed.home id inLocals
  rcases List.mem_cons.mp seen with isInner | around
  · exact absurd isInner (Nat.ne_of_lt home)
  · exact around

end MethodScope.SeesReads

section Expressions

variable
  {table : ClassTable}
  {block : Nat}

mutual

/-- Resolution binds the names of an expression to locals that the scope sees. -/
theorem seesReads_checkExpr :
    ∀ (expr : Expr) (state : MethodState),
      state.scope.WellFormed →
      block < state.scope.blocks.size →
      state.scope.SeesReads block (checkExpr table block expr state).node.steps
  | .intLit .., state, _, _ | .boolLit .., state, _, _ | .stringLit .., state, _, _
  | .null _, state, _, _ => by
      simp only [checkExpr, Expr.steps]
      exact .nil _ _
  | .name span ref, state, wellFormed, _ => by
      simp only [checkExpr, Expr.steps]
      exact .lookup wellFormed block span ref.name
  | .newArray _ component elements, state, wellFormed, known => by
      have marks := marks_resolveType table component state
      simp only [checkExpr, Expr.steps]
      exact (seesReads_checkElements elements _ (marks.wellFormed wellFormed)
        (marks.sameBlocks ▸ known)).earlier marks.scope wellFormed (marks.wellFormed wellFormed)
          known
  | .binary span op left right, state, wellFormed, known => by
      have marks := marks_checkExpr table block left state
      have operands := (seesReads_checkExpr left state wellFormed known).append
        ((seesReads_checkExpr right (checkExpr table block left state).state
          (marks.wellFormed wellFormed) (marks.sameBlocks ▸ known)).earlier marks.scope wellFormed
            (marks.wellFormed wellFormed) known)
      simp only [checkExpr]
      split <;> exact operands
  | .assign span target op value, state, wellFormed, known => by
      have bound := marks_bindName block target.span target.node state
      have used : state.Marks
          (if op.isSome then
            markUse (bindName block target.span target.node state).1.binding
              (bindName block target.span target.node state).2
          else (bindName block target.span target.node state).2) := by
        split
        · exact bound.trans (marks_markUse _ _)
        · exact bound
      have evaluated := (seesReads_checkExpr value _ (used.wellFormed wellFormed)
        (used.sameBlocks ▸ known)).earlier used.scope wellFormed (used.wellFormed wellFormed) known
      have read : state.scope.SeesReads block (if op.isSome then
          LocalTrace.ofBinding (.read target.span)
            (bindName block target.span target.node state).1.binding else []) := by
        split
        · exact .lookup wellFormed block target.span target.node.name
        · exact .nil _ _
      have whole := read.append (evaluated.append (.assign state.scope block
        (bindName block target.span target.node state).1.binding))
      simp only [checkExpr]
      split <;> exact whole
  | .call span function args, state, wellFormed, known => by
      have evaluated := seesReads_checkExprs args state wellFormed known
      simp only [checkExpr]
      split <;> exact evaluated
  | .methodCall span receiver method args, state, wellFormed, known => by
      have marks := marks_checkExpr table block receiver state
      have evaluated := (seesReads_checkExpr receiver state wellFormed known).append
        ((seesReads_checkExprs args (checkExpr table block receiver state).state
          (marks.wellFormed wellFormed) (marks.sameBlocks ▸ known)).earlier marks.scope wellFormed
            (marks.wellFormed wellFormed) known)
      simp only [checkExpr]
      split
      · exact evaluated
      · split <;> exact evaluated

theorem seesReads_checkExprs :
    ∀ (exprs : List Expr) (state : MethodState),
      state.scope.WellFormed →
      block < state.scope.blocks.size →
      state.scope.SeesReads block (Expr.allSteps (checkExprs table block exprs state).nodes)
  | [], state, _, _ => by
      simp only [checkExprs, Expr.allSteps]
      exact .nil _ _
  | expr :: rest, state, wellFormed, known => by
      have marks := marks_checkExpr table block expr state
      simp only [checkExprs, Expr.allSteps]
      exact (seesReads_checkExpr expr state wellFormed known).append
        ((seesReads_checkExprs rest _ (marks.wellFormed wellFormed)
          (marks.sameBlocks ▸ known)).earlier marks.scope wellFormed
            (marks.wellFormed wellFormed) known)

theorem seesReads_checkElements
    {component : Ty} :
    ∀ (exprs : List Expr) (state : MethodState),
      state.scope.WellFormed →
      block < state.scope.blocks.size →
      state.scope.SeesReads block
        (Expr.allSteps (checkElements table block component exprs state).nodes)
  | [], state, _, _ => by
      simp only [checkElements, Expr.allSteps]
      exact .nil _ _
  | expr :: rest, state, wellFormed, known => by
      have marks := (marks_checkExpr table block expr state).trans
        (marks_checkConverts table (checkExpr table block expr state).type component
          (checkExpr table block expr state).node.span (checkExpr table block expr state).state)
      simp only [checkElements, Expr.allSteps]
      exact (seesReads_checkExpr expr state wellFormed known).append
        ((seesReads_checkElements rest _ (marks.wellFormed wellFormed)
          (marks.sameBlocks ▸ known)).earlier marks.scope wellFormed
            (marks.wellFormed wellFormed) known)

end

end Expressions

/-- The variable of a declaration is the next local. -/
theorem localAt_checkDeclaration
    (table : ClassTable)
    (block : Nat)
    (decl : LocalDecl)
    (state : MethodState) :
    (checkDeclaration table block decl state).state.localAt state.scope.locals.size =
      { decl.entry (resolveType table decl.type state).1 with scope := block } := by
  have marks := (marks_resolveType table decl.type state).trans
    (MethodState.marks_reportIf ((resolveType table decl.type state).2.scope.lookup block
      decl.name.node).isSome (.duplicateLocal decl.name.node) decl.name.span
      (resolveType table decl.type state).2)
  have declared := MethodScope.localAt_declare block
    (decl.entry (resolveType table decl.type state).1)
    ((resolveType table decl.type state).2.reportIf
      ((resolveType table decl.type state).2.scope.lookup block decl.name.node).isSome
      (.duplicateLocal decl.name.node) decl.name.span).scope state.scope.locals.size
  rwa [if_pos marks.sameCount.symm] at declared

/-- The variable of a declaration is at home in the scope of the declaration. -/
theorem home_checkDeclaration
    (table : ClassTable)
    (block : Nat)
    (decl : LocalDecl)
    (state : MethodState) :
    ((checkDeclaration table block decl state).state.localAt state.scope.locals.size).scope =
      block := by
  rw [localAt_checkDeclaration]

/-- Between two states code has been resolved in a block scope: the elements of its
loops are declared in new scopes, and of the locals known before it reads those
that the scope sees. -/
structure MethodState.Confines
    (block : Nat)
    (before after : MethodState)
    (elements : List LocalId)
    (leaves : LocalTrace → Prop) :
    Prop where
  grows : before.scope.Grows after.scope
  wellFormed : after.scope.WellFormed
  elements : ∀ id ∈ elements, id < after.scope.locals.size ∧
    before.scope.blocks.size ≤ (after.localAt id).scope
  reads : ∀ trace, leaves trace → before.scope.SeesReads block trace

namespace MethodState.Confines

variable
  {block : Nat}
  {before middle after : MethodState}
  {elements others : List LocalId}
  {first second leaves : LocalTrace → Prop}

/-- Code without loops. -/
theorem ofSteps
    (grows : before.scope.Grows after.scope)
    (wellFormed : after.scope.WellFormed)
    {steps : LocalTrace}
    (reads : before.scope.SeesReads block steps)
    (isSteps : ∀ trace, leaves trace → trace = steps) :
    Confines block before after [] leaves where
  grows := grows
  wellFormed := wellFormed
  elements := by
    intro id member
    cases member
  reads := fun trace isTrace => isSteps trace isTrace ▸ reads

theorem append
    (wellFormed : before.scope.WellFormed)
    (known : block < before.scope.blocks.size)
    (earlier : Confines block before middle elements first)
    (later : Confines block middle after others second)
    (isAppended : ∀ trace, leaves trace →
      first trace ∨ ∃ one two, trace = one ++ two ∧ first one ∧ second two) :
    Confines block before after (elements ++ others) leaves where
  grows := earlier.grows.trans later.grows
  wellFormed := later.wellFormed
  elements := by
    intro id member
    rcases List.mem_append.mp member with inFirst | inSecond
    · obtain ⟨inLocals, home⟩ := earlier.elements id inFirst
      refine ⟨Nat.lt_of_lt_of_le inLocals later.grows.localCount, ?_⟩
      exact Nat.le_trans home (Nat.le_of_eq (later.grows.persists id inLocals).scope.symm)
    · obtain ⟨inLocals, home⟩ := later.elements id inSecond
      exact ⟨inLocals, Nat.le_trans earlier.grows.blockCount home⟩
  reads := by
    have back : ∀ trace, second trace → before.scope.SeesReads block trace := fun trace isTrace =>
      (later.reads trace isTrace).earlier earlier.grows wellFormed earlier.wellFormed known
    intro trace isTrace
    rcases isAppended trace isTrace with isFirst | ⟨one, two, rfl, isOne, isTwo⟩
    · exact earlier.reads trace isFirst
    · exact (earlier.reads one isOne).append (back two isTwo)

/-- Code after code without loops. -/
theorem prepend
    (wellFormed : before.scope.WellFormed)
    (known : block < before.scope.blocks.size)
    (earlier : Confines block before middle [] first)
    (later : Confines block middle after elements second)
    (isAppended : ∀ trace, leaves trace →
      first trace ∨ ∃ one two, trace = one ++ two ∧ first one ∧ second two) :
    Confines block before after elements leaves :=
  earlier.append wellFormed known later isAppended

/-- One of two pieces of code. -/
theorem either
    (wellFormed : before.scope.WellFormed)
    (known : block < before.scope.blocks.size)
    (earlier : Confines block before middle elements first)
    (later : Confines block middle after others second) :
    Confines block before after (elements ++ others)
      (fun trace => first trace ∨ second trace) where
  grows := earlier.grows.trans later.grows
  wellFormed := later.wellFormed
  elements := (earlier.append wellFormed known later fun _ isFirst => .inl isFirst).elements
  reads := by
    rintro trace (isFirst | isSecond)
    · exact earlier.reads trace isFirst
    · exact (later.reads trace isSecond).earlier earlier.grows wellFormed earlier.wellFormed known

/-- Code in a block scope that is opened for it. -/
theorem opened
    (wellFormed : before.scope.WellFormed)
    (known : block < before.scope.blocks.size)
    (inner : Confines before.scope.blocks.size (before.mapScope (.openBlock block)) after elements
      leaves) :
    Confines block before after elements leaves where
  grows := (MethodScope.grows_openBlock block before.scope).trans inner.grows
  wellFormed := inner.wellFormed
  elements := by
    intro id member
    obtain ⟨inLocals, home⟩ := inner.elements id member
    exact ⟨inLocals, Nat.le_trans
      (MethodScope.grows_openBlock block before.scope).blockCount home⟩
  reads := fun trace isTrace => .opened wellFormed known (inner.reads trace isTrace)

/-- The elements of code are not read by code after it. -/
theorem confined
    (known : block < before.scope.blocks.size)
    (earlier : Confines block before middle elements first)
    (later : Confines block middle after others second) :
    ∀ id ∈ elements, ∀ trace, second trace → ∀ span, .read span id ∉ trace := by
  intro id member trace isTrace span isRead
  obtain ⟨inLocals, home⟩ := earlier.elements id member
  have seen := later.reads trace isTrace span id isRead inLocals
  have older := earlier.wellFormed.le_of_mem_enclosing seen
  exact absurd (Nat.lt_of_lt_of_le known (Nat.le_trans home older)) (Nat.lt_irrefl _)

end MethodState.Confines

/-- The traces that the executions of a statement leave. -/
def Stmt.Leaves
    (stmt : Stmt)
    (trace : LocalTrace) :
    Prop :=
  ∃ labels outcome, stmt.behaviour labels trace outcome

/-- A statement that has only one execution leaves its trace. -/
theorem Stmt.Leaves.eq_of_only
    {stmt : Stmt}
    {steps : LocalTrace}
    {outcome : TraceEnd}
    (isOnly : ∀ labels, stmt.behaviour labels = .only steps outcome) :
    ∀ trace, stmt.Leaves trace → trace = steps := by
  rintro trace ⟨labels, ending, isTrace⟩
  rw [isOnly labels] at isTrace
  exact isTrace.1

/-- The traces that the executions of statements leave. -/
def Stmt.AllLeave
    (stmts : List Stmt)
    (trace : LocalTrace) :
    Prop :=
  ∃ outcome, Stmt.allBehaviour stmts trace outcome

section Statements

variable
  {table : ClassTable}
  {options : CompilerOptions}

/-- Resolving an expression confines nothing. -/
theorem confines_checkExpr
    {block : Nat}
    {expr : Expr}
    {state after : MethodState}
    {leaves : LocalTrace → Prop}
    (wellFormed : state.scope.WellFormed)
    (known : block < state.scope.blocks.size)
    (marks : (checkExpr table block expr state).state.Marks after)
    (isSteps : ∀ trace, leaves trace → trace = (checkExpr table block expr state).node.steps) :
    state.Confines block after [] leaves := by
  have evaluated := (marks_checkExpr table block expr state).trans marks
  exact .ofSteps evaluated.scope (evaluated.wellFormed wellFormed)
    (seesReads_checkExpr expr state wellFormed known) isSteps

/-- Resolving a condition confines nothing. -/
theorem confines_condition
    {block : Nat}
    {condition : Expr}
    {state : MethodState}
    (wellFormed : state.scope.WellFormed)
    (known : block < state.scope.blocks.size) :
    state.Confines block
      (checkConverts table (checkExpr table block condition state).type .boolean
        (checkExpr table block condition state).node.span
        (checkExpr table block condition state).state)
      [] (fun trace => trace = (checkExpr table block condition state).node.steps) :=
  confines_checkExpr wellFormed known (marks_checkConverts _ _ _ _ _) fun _ isSteps => isSteps

/-- The head of a loop opens a scope in which it declares the element. -/
theorem confines_checkLoopHead
    {block : Nat}
    {element : LocalDecl}
    {collection : Expr}
    {state : MethodState}
    (wellFormed : state.scope.WellFormed)
    (known : block < state.scope.blocks.size) :
    (state.mapScope (.openBlock block)).Confines state.scope.blocks.size
        (checkLoopHead table options block element collection state).state []
        (fun trace => trace =
          (checkLoopHead table options block element collection state).collection.steps) ∧
      ∃ id, (checkLoopHead table options block element collection state).element.binding =
          some id ∧
        id < (checkLoopHead table options block element collection state).state.scope.locals.size ∧
        ((checkLoopHead table options block element collection state).state.localAt id).scope =
          state.scope.blocks.size := by
  have openedWellFormed : (state.mapScope (.openBlock block)).scope.WellFormed :=
    wellFormed.openBlock known
  have innerKnown : state.scope.blocks.size <
      (state.mapScope (.openBlock block)).scope.blocks.size := by
    simp [MethodState.mapScope, MethodScope.openBlock]
  have declaredLeads := leads_checkDeclaration table state.scope.blocks.size element
    (state.mapScope (.openBlock block))
  have declared : (checkDeclaration table state.scope.blocks.size element
      (state.mapScope (.openBlock block))).state.scope.WellFormed :=
    wellFormed_checkDeclaration openedWellFormed innerKnown element
  have declaredKnown := Nat.lt_of_lt_of_le innerKnown declaredLeads.scope.blockCount
  have marks := marks_checkExpr table state.scope.blocks.size collection
    (checkDeclaration table state.scope.blocks.size element
      (state.mapScope (.openBlock block))).state
  have resolved := leads_resolveLoop table options state.scope.blocks.size
    (checkDeclaration table state.scope.blocks.size element
      (state.mapScope (.openBlock block))).type
    (checkExpr table state.scope.blocks.size collection (checkDeclaration table
      state.scope.blocks.size element (state.mapScope (.openBlock block))).state).type
    (checkExpr table state.scope.blocks.size collection (checkDeclaration table
      state.scope.blocks.size element (state.mapScope (.openBlock block))).state).node.span
    (checkExpr table state.scope.blocks.size collection (checkDeclaration table
      state.scope.blocks.size element (state.mapScope (.openBlock block))).state).state
  have after := marks.scope.trans resolved.scope
  constructor
  · refine .ofSteps (declaredLeads.scope.trans after) ?_ ?_ fun _ isSteps => isSteps
    · exact wellFormed_resolveLoop (marks.wellFormed declared) (marks.sameBlocks ▸ declaredKnown)
        _ _ _
    · exact (seesReads_checkExpr collection _ declared declaredKnown).earlier declaredLeads.scope
        openedWellFormed declared innerKnown
  · obtain ⟨isBound, size⟩ := CodeContext.binding_checkDeclaration table state.scope.blocks.size element
      (state.mapScope (.openBlock block))
    have inLocals : (state.mapScope (.openBlock block)).scope.locals.size <
        (checkDeclaration table state.scope.blocks.size element
          (state.mapScope (.openBlock block))).state.scope.locals.size := by
      rw [size]
      exact Nat.lt_succ_self _
    have home := home_checkDeclaration table state.scope.blocks.size element
      (state.mapScope (.openBlock block))
    exact ⟨_, isBound, Nat.lt_of_lt_of_le inLocals after.localCount,
      ((after.persists _ inLocals).scope).trans home⟩

/-- An action of a loop confines its elements in the scope of the loop. -/
theorem confines_forEach
    {block : Nat}
    {element : LocalDecl}
    {collection : Expr}
    {state after : MethodState}
    {elements others : List LocalId}
    {body : Behaviour}
    {leaves taken : LocalTrace → Prop}
    (wellFormed : state.scope.WellFormed)
    (known : block < state.scope.blocks.size)
    (isBody : ∀ trace outcome, body trace outcome → taken trace)
    (action : (checkLoopHead table options block element collection state).state.Confines
      state.scope.blocks.size after elements taken)
    (isElement : others =
      (checkLoopHead table options block element collection state).element.binding.toList ++ elements)
    (isLoop : ∀ trace, leaves trace → ∃ labels outcome, Behaviour.followedBy
      (.only (checkLoopHead table options block element collection state).collection.steps .completes)
      (.Iterated labels
        (checkLoopHead table options block element collection state).element.binding body)
      trace outcome) :
    state.Confines block after others leaves := by
  obtain ⟨head, id, isBound, inLocals, home⟩ :=
    @confines_checkLoopHead table options block element collection state wellFormed known
  have openedWellFormed : (state.mapScope (.openBlock block)).scope.WellFormed :=
    wellFormed.openBlock known
  have innerKnown : state.scope.blocks.size <
      (state.mapScope (.openBlock block)).scope.blocks.size := by
    simp [MethodState.mapScope, MethodScope.openBlock]
  have opens := MethodScope.grows_openBlock block state.scope
  have bodyReads : ∀ trace outcome, body trace outcome →
      (state.mapScope (.openBlock block)).scope.SeesReads state.scope.blocks.size trace :=
    fun trace outcome isTrace => (action.reads trace (isBody trace outcome isTrace)).earlier
      head.grows openedWellFormed head.wellFormed innerKnown
  refine ⟨(opens.trans head.grows).trans action.grows, action.wellFormed, ?_, ?_⟩
  · intro other member
    rw [isElement, isBound] at member
    rcases List.mem_cons.mp member with rfl | inBody
    · refine ⟨Nat.lt_of_lt_of_le inLocals action.grows.localCount, ?_⟩
      exact Nat.le_of_eq (((action.grows.persists other inLocals).scope.trans home).symm)
    · obtain ⟨inBodyLocals, bodyHome⟩ := action.elements other inBody
      exact ⟨inBodyLocals, Nat.le_trans opens.blockCount
        (Nat.le_trans head.grows.blockCount bodyHome)⟩
  · intro trace isTrace
    refine .opened wellFormed known fun span read isRead => ?_
    obtain ⟨labels, outcome, ⟨one, two, rfl, ⟨rfl, -⟩, iterated⟩ | ⟨⟨-, completes⟩, notComplete⟩⟩ :=
      isLoop trace isTrace
    · rcases List.mem_append.mp isRead with inCollection | inBody
      · exact head.reads _ rfl span read inCollection
      · obtain ⟨taken, ending, isTaken, inTaken⟩ := iterated.mem_read inBody
        exact bodyReads taken ending isTaken span read inTaken
    · exact absurd completes notComplete

mutual

/-- Resolving a statement confines the elements of its loops. -/
theorem confines_checkStmt :
    ∀ (stmt : Stmt) (block : Nat) (state : MethodState),
      state.scope.WellFormed →
      block < state.scope.blocks.size →
      state.Confines block (checkStmt table options block stmt state).state
          (checkStmt table options block stmt state).node.elements
          (checkStmt table options block stmt state).node.Leaves ∧
        (checkStmt table options block stmt state).node.ConfinesElements
  | .localVar span decl, block, state, wellFormed, known => by
      have leads := leads_checkDeclaration table block decl state
      have declared : (checkDeclaration table block decl state).state.scope.WellFormed :=
        wellFormed_checkDeclaration wellFormed known decl
      simp only [checkStmt]
      cases initial : decl.initial with
      | none =>
          have isOnly : ∀ labels, (Stmt.localVar span
              (checkDeclaration table block decl state).node).behaviour labels =
                .only [] .completes := by
            intro labels
            simp only [Stmt.behaviour, checkDeclaration, LocalDecl.steps, initial]
          exact ⟨.ofSteps leads.scope declared (.nil _ _) (Stmt.Leaves.eq_of_only isOnly), trivial⟩
      | some value =>
          have declaredKnown := Nat.lt_of_lt_of_le known leads.scope.blockCount
          have marks := (marks_checkExpr table block value
            (checkDeclaration table block decl state).state).trans
              (marks_checkConverts table
                (checkExpr table block value (checkDeclaration table block decl state).state).type
                (checkDeclaration table block decl state).type
                (checkExpr table block value
                  (checkDeclaration table block decl state).state).node.span _)
          have evaluated : (checkDeclaration table block decl state).state.scope.SeesReads block
              (checkExpr table block value
                (checkDeclaration table block decl state).state).node.steps :=
            seesReads_checkExpr value _ declared declaredKnown
          have reads := (evaluated.earlier leads.scope wellFormed declared known).append
            (.assign state.scope block (checkDeclaration table block decl state).node.binding)
          exact ⟨.ofSteps (leads.scope.trans marks.scope) (marks.wellFormed declared) reads
            (Stmt.Leaves.eq_of_only fun labels => by rw [Stmt.behaviour]; rfl), trivial⟩
  | .expr span value, block, state, wellFormed, known => by
      simp only [checkStmt, Stmt.ConfinesElements, and_true]
      exact confines_checkExpr wellFormed known (.refl _)
        (Stmt.Leaves.eq_of_only fun labels => by rw [Stmt.behaviour])
  | .block span stmts facts, block, state, wellFormed, known => by
      have opened : (state.mapScope (.openBlock block)).scope.WellFormed :=
        wellFormed.openBlock known
      have innerKnown : state.scope.blocks.size <
          (state.mapScope (.openBlock block)).scope.blocks.size := by
        simp [MethodState.mapScope, MethodScope.openBlock]
      obtain ⟨inner, confined⟩ := confines_checkStmts stmts state.scope.blocks.size
        (state.mapScope (.openBlock block)) opened innerKnown
      have confines := inner.opened wellFormed known
      simp only [checkStmt, Stmt.ConfinesElements]
      refine ⟨⟨confines.grows, confines.wellFormed, ?_, ?_⟩, confined⟩
      · simp only [Stmt.elements, Stmt.heads]
        exact confines.elements
      · rintro trace ⟨labels, outcome, isTrace⟩
        simp only [Stmt.behaviour] at isTrace
        exact confines.reads trace ⟨outcome, isTrace⟩
  | .branch span condition thenBranch none, block, state, wellFormed, known => by
      have tested := @confines_condition table block condition state wellFormed known
      obtain ⟨branch, confined⟩ := confines_checkStmt thenBranch block _ tested.wellFormed
        (Nat.lt_of_lt_of_le known tested.grows.blockCount)
      simp only [checkStmt, Stmt.elements, Stmt.heads, Stmt.ConfinesElements]
      refine ⟨tested.prepend wellFormed known branch ?_, confined⟩
      rintro trace ⟨labels, outcome, isTrace⟩
      simp only [Stmt.behaviour] at isTrace
      rcases isTrace with ⟨one, two, rfl, ⟨rfl, -⟩, isThen | ⟨rfl, -⟩⟩ |
        ⟨⟨-, completes⟩, notComplete⟩
      · exact .inr ⟨_, two, rfl, rfl, _, _, isThen⟩
      · exact .inl (List.append_nil _)
      · exact absurd completes notComplete
  | .branch span condition thenBranch (some elseBranch), block, state, wellFormed, known => by
      have tested := @confines_condition table block condition state wellFormed known
      have testedKnown := Nat.lt_of_lt_of_le known tested.grows.blockCount
      obtain ⟨first, firstConfined⟩ := confines_checkStmt thenBranch block _ tested.wellFormed
        testedKnown
      obtain ⟨other, otherConfined⟩ := confines_checkStmt elseBranch block _ first.wellFormed
        (Nat.lt_of_lt_of_le testedKnown first.grows.blockCount)
      have branches := first.either tested.wellFormed testedKnown other
      simp only [checkStmt, Stmt.elements, Stmt.heads, Stmt.ConfinesElements,
        List.filterMap_append]
      refine ⟨tested.prepend wellFormed known branches ?_, firstConfined, otherConfined⟩
      rintro trace ⟨labels, outcome, isTrace⟩
      simp only [Stmt.behaviour] at isTrace
      rcases isTrace with ⟨one, two, rfl, ⟨rfl, -⟩, isThen | isElse⟩ |
        ⟨⟨-, completes⟩, notComplete⟩
      · exact .inr ⟨_, two, rfl, rfl, .inl ⟨_, _, isThen⟩⟩
      · exact .inr ⟨_, two, rfl, rfl, .inr ⟨_, _, isElse⟩⟩
      · exact absurd completes notComplete
  | .forEach span element collection none facts, block, state, wellFormed, known => by
      obtain ⟨head, -⟩ :=
        @confines_checkLoopHead table options block element collection state wellFormed known
      have nothing : (checkLoopHead table options block element collection state).state.Confines
          state.scope.blocks.size
          (checkLoopHead table options block element collection state).state []
          (fun trace => trace = []) :=
        .ofSteps (.refl _) head.wellFormed (.nil _ _) fun _ isEmpty => isEmpty
      have isNothing : ∀ trace outcome, Behaviour.only [] .completes trace outcome → trace = [] :=
        fun _ _ isBody => isBody.1
      simp only [checkStmt, Stmt.ConfinesElements, Option.isSome_some, and_true]
      refine confines_forEach wellFormed known isNothing nothing ?_ ?_
      · rw [Stmt.elements_forEach_none, List.append_nil]
      · rintro trace ⟨labels, outcome, isTrace⟩
        simp only [Stmt.behaviour] at isTrace
        exact ⟨labels, outcome, isTrace⟩
  | .forEach span element collection (some action) facts, block, state, wellFormed, known => by
      obtain ⟨head, id, -, inLocals, home⟩ :=
        @confines_checkLoopHead table options block element collection state wellFormed known
      have innerKnown : state.scope.blocks.size <
          (checkLoopHead table options block element collection state).state.scope.blocks.size := by
        rw [← home]
        exact head.wellFormed.home id inLocals
      obtain ⟨body, confined⟩ := confines_checkStmt action state.scope.blocks.size
        (checkLoopHead table options block element collection state).state head.wellFormed
        innerKnown
      have isAction : ∀ trace outcome,
          (checkStmt table options state.scope.blocks.size action
            (checkLoopHead table options block element collection state).state).node.behaviour []
              trace outcome →
          (checkStmt table options state.scope.blocks.size action
            (checkLoopHead table options block element collection state).state).node.Leaves trace :=
        fun _ outcome isBody => ⟨[], outcome, isBody⟩
      simp only [checkStmt, Stmt.ConfinesElements, Option.isSome_some, true_and]
      refine ⟨confines_forEach wellFormed known isAction body ?_ ?_, confined⟩
      · rw [Stmt.elements_forEach_some]
        rfl
      · rintro trace ⟨labels, outcome, isTrace⟩
        simp only [Stmt.behaviour] at isTrace
        exact ⟨labels, outcome, isTrace⟩
  | .labeled span label body, block, state, wellFormed, known => by
      obtain ⟨confines, confined⟩ := confines_checkStmt body block state wellFormed known
      simp only [checkStmt, Stmt.elements, Stmt.heads, Stmt.ConfinesElements]
      refine ⟨⟨confines.grows, confines.wellFormed, confines.elements, ?_⟩, confined⟩
      rintro trace ⟨labels, outcome, isTrace⟩
      simp only [Stmt.behaviour] at isTrace
      obtain ⟨ending, isBody, -⟩ := isTrace
      exact confines.reads trace ⟨_, ending, isBody⟩
  | .breakTo .., block, state, wellFormed, known | .continueTo .., block, state, wellFormed, known
  | .empty _, block, state, wellFormed, known => by
      simp only [checkStmt, Stmt.ConfinesElements, and_true]
      exact .ofSteps (.refl _) wellFormed (.nil _ _)
        (Stmt.Leaves.eq_of_only fun labels => by rw [Stmt.behaviour])
  | .returnWith span none, block, state, wellFormed, known => by
      have marks := MethodState.marks_reportIf (state.returnType != .void)
        (.resultRequired state.returnType) span state
      simp only [checkStmt, Stmt.ConfinesElements, and_true]
      exact .ofSteps marks.scope (marks.wellFormed wellFormed) (.nil _ _)
        (Stmt.Leaves.eq_of_only fun labels => by rw [Stmt.behaviour])
  | .returnWith span (some value), block, state, wellFormed, known => by
      simp only [checkStmt, Stmt.ConfinesElements, and_true]
      exact confines_checkExpr wellFormed known (marks_checkReturned _ _)
        (Stmt.Leaves.eq_of_only fun labels => by rw [Stmt.behaviour])

theorem confines_checkStmts :
    ∀ (stmts : List Stmt) (block : Nat) (state : MethodState),
      state.scope.WellFormed →
      block < state.scope.blocks.size →
      state.Confines block (checkStmts table options block stmts state).state
          (Stmt.allElements (checkStmts table options block stmts state).node)
          (Stmt.AllLeave (checkStmts table options block stmts state).node) ∧
        Stmt.AllConfineElements (checkStmts table options block stmts state).node
  | [], block, state, wellFormed, known => by
      simp only [checkStmts, Stmt.AllConfineElements, and_true]
      refine .ofSteps (.refl _) wellFormed (.nil _ _) ?_
      rintro trace ⟨outcome, isTrace⟩
      simp only [Stmt.allBehaviour] at isTrace
      exact isTrace.1
  | stmt :: rest, block, state, wellFormed, known => by
      obtain ⟨first, firstConfined⟩ := confines_checkStmt stmt block state wellFormed known
      obtain ⟨later, laterConfined⟩ := confines_checkStmts rest block
        (checkStmt table options block stmt state).state first.wellFormed
        (Nat.lt_of_lt_of_le known first.grows.blockCount)
      simp only [checkStmts, Stmt.AllConfineElements]
      refine ⟨?_, firstConfined, laterConfined, ?_⟩
      · simp only [Stmt.allElements, Stmt.allHeads, List.filterMap_append]
        refine .append wellFormed known first later ?_
        rintro trace ⟨outcome, isTrace⟩
        simp only [Stmt.allBehaviour] at isTrace
        rcases isTrace with ⟨one, two, rfl, isOne, isTwo⟩ | ⟨isFirst, -⟩
        · exact .inr ⟨one, two, rfl, ⟨_, _, isOne⟩, _, isTwo⟩
        · exact .inl ⟨_, _, isFirst⟩
      · exact fun id member trace outcome isTrace =>
          first.confined known later id member trace ⟨outcome, isTrace⟩

end

end Statements

end LoopLowering
