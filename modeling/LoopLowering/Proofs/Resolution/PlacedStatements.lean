import LoopLowering.Proofs.Resolution.LoopElements

namespace LoopLowering

/-!
# Statements in their place

Resolution numbers the locals of a method in the order of their declarations, and
the block scopes in the order in which they are opened. So the locals that a
statement declares form an interval, and of the older locals it assigns only those
that the scope around it sees, whatever errors are reported.
-/

/-- A trace assigns locals that a block scope sees below a limit. -/
def MethodScope.SeesAssigned
    (scope : MethodScope)
    (block limit : Nat)
    (trace : LocalTrace) :
    Prop :=
  ∀ id, .assign id ∈ trace → scope.Sees block limit id

namespace MethodScope.SeesAssigned

variable
  {scope after : MethodScope}
  {block limit : Nat}
  {first second : LocalTrace}

theorem nil
    (scope : MethodScope)
    (block limit : Nat) :
    scope.SeesAssigned block limit [] := by
  intro id member
  cases member

theorem append
    (one : scope.SeesAssigned block limit first)
    (other : scope.SeesAssigned block limit second) :
    scope.SeesAssigned block limit (first ++ second) := by
  intro id member
  rcases List.mem_append.mp member with inFirst | inSecond
  · exact one id inFirst
  · exact other id inSecond

/-- A read assigns nothing. -/
theorem read
    (scope : MethodScope)
    (block limit : Nat)
    (span : Span)
    (binding : Option LocalId) :
    scope.SeesAssigned block limit (LocalTrace.ofBinding (.read span) binding) := by
  intro id member
  cases binding <;> simp [LocalTrace.ofBinding] at member

/-- A name is bound to a local that the scope sees. -/
theorem lookup
    (wellFormed : scope.WellFormed)
    (block : Nat)
    (name : String) :
    scope.SeesAssigned block scope.locals.size
      (LocalTrace.ofBinding .assign (scope.lookup block name)) := by
  intro id member
  cases found : scope.lookup block name with
  | none =>
      simp [found, LocalTrace.ofBinding] at member
  | some bound =>
      simp only [found, LocalTrace.ofBinding, Option.map_some, Option.toList_some,
        List.mem_singleton, LocalStep.assign.injEq] at member
      exact member ▸ wellFormed.sees_lookup found

/-- What a scope sees it still sees later. -/
theorem later
    {trace : LocalTrace}
    (sees : scope.SeesAssigned block scope.locals.size trace)
    (grows : scope.Grows after)
    (wellFormed : scope.WellFormed)
    (wellFormedAfter : after.WellFormed)
    (known : block < scope.blocks.size) :
    after.SeesAssigned block scope.locals.size trace :=
  fun id member => (sees id member).later grows wellFormed wellFormedAfter known

end MethodScope.SeesAssigned

section Expressions

variable
  {table : ClassTable}
  {block : Nat}
  {scopes : MethodScope}

mutual

/-- Resolution binds the targets of assignments in an expression to locals that the
scope sees. -/
theorem seesAssigned_checkExpr
    (wellFormedLater : scopes.WellFormed) :
    ∀ (expr : Expr) (state : MethodState),
      state.scope.WellFormed →
      block < state.scope.blocks.size →
      (checkExpr table block expr state).state.scope.Grows scopes →
      scopes.SeesAssigned block state.scope.locals.size
        (checkExpr table block expr state).node.steps
  | .intLit .., state, _, _, _ | .boolLit .., state, _, _, _ | .stringLit .., state, _, _, _
  | .null _, state, _, _, _ => by
      simp only [checkExpr, Expr.steps]
      exact .nil _ _ _
  | .name span ref, state, _, _, _ => by
      simp only [checkExpr, Expr.steps]
      exact .read _ _ _ _ _
  | .newArray _ component elements, state, wellFormed, known, grows => by
      have marks := marks_resolveType table component state
      simp only [checkExpr, Expr.steps]
      rw [← marks.sameCount]
      exact seesAssigned_checkElements wellFormedLater elements _ (marks.wellFormed wellFormed)
        (marks.sameBlocks ▸ known) grows
  | .binary span op left right, state, wellFormed, known, grows => by
      have marks := marks_checkExpr table block left state
      have rightMarks := marks_checkExpr table block right (checkExpr table block left state).state
      have rightGrows : (checkExpr table block right
          (checkExpr table block left state).state).state.scope.Grows scopes := by
        simp only [checkExpr] at grows
        split at grows <;> exact grows
      have one := seesAssigned_checkExpr wellFormedLater left state wellFormed known
        (rightMarks.scope.trans rightGrows)
      have other := seesAssigned_checkExpr wellFormedLater right _ (marks.wellFormed wellFormed)
        (marks.sameBlocks ▸ known) rightGrows
      rw [marks.sameCount] at other
      simp only [checkExpr]
      split <;> exact one.append other
  | .assign span target op value, state, wellFormed, known, grows => by
      have bound := marks_bindName block target.span target.node state
      have used : state.Marks
          (if op.isSome then
            markUse (bindName block target.span target.node state).1.binding
              (bindName block target.span target.node state).2
          else (bindName block target.span target.node state).2) := by
        split
        · exact bound.trans (marks_markUse _ _)
        · exact bound
      have valueGrows : (checkExpr table block value
          (if op.isSome then
            markUse (bindName block target.span target.node state).1.binding
              (bindName block target.span target.node state).2
          else (bindName block target.span target.node state).2)).state.scope.Grows scopes := by
        simp only [checkExpr] at grows
        split at grows
        · exact grows
        · exact (marks_checkAssignedValue _ _ _ _ _ _ _).scope.trans grows
      have evaluated := seesAssigned_checkExpr wellFormedLater value _ (used.wellFormed wellFormed)
        (used.sameBlocks ▸ known) valueGrows
      rw [used.sameCount] at evaluated
      have read : scopes.SeesAssigned block state.scope.locals.size (if op.isSome then
          LocalTrace.ofBinding (.read target.span)
            (bindName block target.span target.node state).1.binding else []) := by
        split
        · exact .read _ _ _ _ _
        · exact .nil _ _ _
      have assigned := (MethodScope.SeesAssigned.lookup wellFormed block target.node.name).later
        ((used.scope.trans (marks_checkExpr table block value _).scope).trans valueGrows)
        wellFormed wellFormedLater known
      have whole := read.append (evaluated.append assigned)
      simp only [checkExpr]
      split <;> exact whole
  | .call span function args, state, wellFormed, known, grows => by
      have argsGrows : (checkExprs table block args state).state.scope.Grows scopes := by
        simp only [checkExpr] at grows
        split at grows
        · exact grows
        · exact (marks_checkArguments _ _ _ _ _ _ _).scope.trans grows
      have evaluated := seesAssigned_checkExprs wellFormedLater args state wellFormed known
        argsGrows
      simp only [checkExpr]
      split <;> exact evaluated
  | .methodCall span receiver method args, state, wellFormed, known, grows => by
      have marks := marks_checkExpr table block receiver state
      have argsMarks := marks_checkExprs table block args
        (checkExpr table block receiver state).state
      have argsGrows : (checkExprs table block args
          (checkExpr table block receiver state).state).state.scope.Grows scopes := by
        simp only [checkExpr] at grows
        split at grows
        · exact grows
        · split at grows
          · exact grows
          · exact (marks_checkArguments _ _ _ _ _ _ _).scope.trans grows
      have one := seesAssigned_checkExpr wellFormedLater receiver state wellFormed known
        (argsMarks.scope.trans argsGrows)
      have other := seesAssigned_checkExprs wellFormedLater args _ (marks.wellFormed wellFormed)
        (marks.sameBlocks ▸ known) argsGrows
      rw [marks.sameCount] at other
      simp only [checkExpr]
      split
      · exact one.append other
      · split <;> exact one.append other

theorem seesAssigned_checkExprs
    (wellFormedLater : scopes.WellFormed) :
    ∀ (exprs : List Expr) (state : MethodState),
      state.scope.WellFormed →
      block < state.scope.blocks.size →
      (checkExprs table block exprs state).state.scope.Grows scopes →
      scopes.SeesAssigned block state.scope.locals.size
        (Expr.allSteps (checkExprs table block exprs state).nodes)
  | [], state, _, _, _ => by
      simp only [checkExprs, Expr.allSteps]
      exact .nil _ _ _
  | expr :: rest, state, wellFormed, known, grows => by
      have marks := marks_checkExpr table block expr state
      have restMarks := marks_checkExprs table block rest (checkExpr table block expr state).state
      simp only [checkExprs] at grows
      have one := seesAssigned_checkExpr wellFormedLater expr state wellFormed known
        (restMarks.scope.trans grows)
      have other := seesAssigned_checkExprs wellFormedLater rest _ (marks.wellFormed wellFormed)
        (marks.sameBlocks ▸ known) grows
      rw [marks.sameCount] at other
      simp only [checkExprs, Expr.allSteps]
      exact one.append other

theorem seesAssigned_checkElements
    (wellFormedLater : scopes.WellFormed)
    {component : Ty} :
    ∀ (exprs : List Expr) (state : MethodState),
      state.scope.WellFormed →
      block < state.scope.blocks.size →
      (checkElements table block component exprs state).state.scope.Grows scopes →
      scopes.SeesAssigned block state.scope.locals.size
        (Expr.allSteps (checkElements table block component exprs state).nodes)
  | [], state, _, _, _ => by
      simp only [checkElements, Expr.allSteps]
      exact .nil _ _ _
  | expr :: rest, state, wellFormed, known, grows => by
      have converted := marks_checkConverts table (checkExpr table block expr state).type component
        (checkExpr table block expr state).node.span (checkExpr table block expr state).state
      have marks := (marks_checkExpr table block expr state).trans converted
      have restMarks := marks_checkElements table block component rest
        (checkConverts table (checkExpr table block expr state).type component
          (checkExpr table block expr state).node.span (checkExpr table block expr state).state)
      simp only [checkElements] at grows
      have one := seesAssigned_checkExpr wellFormedLater expr state wellFormed known
        (converted.scope.trans (restMarks.scope.trans grows))
      have other := seesAssigned_checkElements wellFormedLater rest _ (marks.wellFormed wellFormed)
        (marks.sameBlocks ▸ known) grows
      rw [marks.sameCount] at other
      simp only [checkElements, Expr.allSteps]
      exact one.append other

end

end Expressions

namespace MethodScope

/-- A block scope is opened inside another after the locals below a number have been
declared elsewhere. -/
structure Opens
    (scopes : MethodScope)
    (outer first inner : Nat) :
    Prop where
  parent : (scopes.block inner).parent = some outer
  fresh : ∀ id < first, (scopes.localAt id).scope < inner

/-- The head of a loop declares an interval of locals, of which the element is the
first and at home in the scope of the loop, and no other one is final. -/
structure PlacesLoop
    (scopes : MethodScope)
    (element : LocalDecl)
    (collection : Expr)
    (facts : LoopFacts)
    (outer first inner last : Nat) :
    Prop where
  scope : facts.scope = some inner
  opens : scopes.Opens outer first inner
  binding : element.binding = some first
  declares : first < last
  elementHome : (scopes.localAt first).scope = inner
  others : ∀ id, first < id → id < last → (scopes.localAt id).isFinal = false
  collection : scopes.SeesAssigned inner (first + 1) collection.steps

mutual

/-- A statement in a block scope declares the locals of an interval. -/
def Places
    (scopes : MethodScope) :
    Stmt → (block first last : Nat) → Prop
  | .localVar _ decl, block, first, last =>
      decl.binding = some first ∧ (scopes.localAt first).scope = block ∧
        (scopes.localAt first).isFinal = decl.isFinal ∧ last = first + 1 ∧
        ∀ value, decl.initial = some value → scopes.SeesAssigned block last value.steps
  | .expr _ value, block, first, last =>
      last = first ∧ scopes.SeesAssigned block first value.steps
  | .block _ stmts _, block, first, last =>
      ∃ inner, scopes.Opens block first inner ∧ scopes.PlacesAll stmts inner first last
  | .branch _ condition thenBranch none, block, first, last =>
      scopes.SeesAssigned block first condition.steps ∧ scopes.Places thenBranch block first last
  | .branch _ condition thenBranch (some elseBranch), block, first, last =>
      scopes.SeesAssigned block first condition.steps ∧ ∃ middle,
        scopes.Places thenBranch block first middle ∧ scopes.Places elseBranch block middle last
  | .forEach _ element collection none facts, block, first, last =>
      ∃ inner, scopes.PlacesLoop element collection facts block first inner last
  | .forEach _ element collection (some action) facts, block, first, last =>
      ∃ inner middle, scopes.PlacesLoop element collection facts block first inner middle ∧
        scopes.Places action inner middle last
  | .labeled _ _ body, block, first, last => scopes.Places body block first last
  | .returnWith _ (some value), block, first, last =>
      last = first ∧ scopes.SeesAssigned block first value.steps
  | .breakTo .., _, first, last | .continueTo .., _, first, last
  | .returnWith _ none, _, first, last | .empty _, _, first, last => last = first

/-- Statements in a block scope declare the locals of an interval, one after the
other. -/
def PlacesAll
    (scopes : MethodScope) :
    List Stmt → (block first last : Nat) → Prop
  | [], _, first, last => last = first
  | stmt :: rest, block, first, last =>
      ∃ middle, scopes.Places stmt block first middle ∧ scopes.PlacesAll rest block middle last

end

/-- What is known of a block scope that has been opened stays known. -/
theorem opens_openBlock
    {scopes : MethodScope}
    {outer : Nat}
    {state : MethodState}
    (wellFormed : state.scope.WellFormed)
    (known : outer < state.scope.blocks.size)
    (grows : (state.mapScope (.openBlock outer)).scope.Grows scopes) :
    scopes.Opens outer state.scope.locals.size state.scope.blocks.size where
  parent := by
    have isParent := grows.parent state.scope.blocks.size (MethodState.known_openBlock outer state)
    exact isParent.trans (((block_openBlock known state.scope.blocks.size).1).trans (if_pos rfl))
  fresh := by
    intro id older
    have isHome : (scopes.localAt id).scope = (state.scope.localAt id).scope :=
      (grows.persists id older).scope
    exact isHome ▸ wellFormed.home id older

end MethodScope

section Statements

variable
  {table : ClassTable}
  {options : CompilerOptions}
  {scopes : MethodScope}

/-- Locals that the compiler introduces are at home where it declares them, and not
final. -/
theorem introduced_declareAll
    {block : Nat}
    {span : Span} :
    ∀ {entries : List (String × Ty)} {scope : MethodScope},
      (entries.foldl (fun scope entry =>
        scope.declare block (.synthetic entry.1 entry.2 span)) scope).Grows scopes →
      ∀ id, scope.locals.size ≤ id →
        id < (entries.foldl (fun scope entry =>
          scope.declare block (.synthetic entry.1 entry.2 span)) scope).locals.size →
        (scopes.localAt id).scope = block ∧ (scopes.localAt id).isFinal = false
  | [], scope, _, id, after, before => absurd before (Nat.not_lt.mpr after)
  | entry :: rest, scope, grows, id, after, before => by
      have size : (scope.declare block (.synthetic entry.1 entry.2 span)).locals.size =
          scope.locals.size + 1 := by
        simp [MethodScope.declare]
      rcases Nat.eq_or_lt_of_le after with rfl | later
      · have persists := ((CodeContext.grows_declareAll block span rest _).trans grows).persists
          scope.locals.size (Nat.lt_of_lt_of_le (Nat.lt_succ_self _) (Nat.le_of_eq size.symm))
        rw [persists.scope, persists.isFinal, MethodScope.localAt_declare, if_pos rfl]
        exact ⟨rfl, rfl⟩
      · exact @introduced_declareAll block span rest
          (scope.declare block (.synthetic entry.1 entry.2 span)) grows id (size ▸ later) before

/-- The locals that a loop introduces are at home in its scope, and not final. -/
theorem introduced_resolveLoop
    {block : Nat}
    {declared collection : Ty}
    {span : Span}
    {state : MethodState}
    (grows :
      (resolveLoop table options block declared collection span state).2.scope.Grows scopes) :
    ∀ id, state.scope.locals.size ≤ id →
      id < (resolveLoop table options block declared collection span state).2.scope.locals.size →
      (scopes.localAt id).scope = block ∧ (scopes.localAt id).isFinal = false := by
  intro id after before
  unfold resolveLoop at grows before
  split at grows
  · next invalid =>
      rw [if_pos invalid] at before
      exact absurd before (Nat.not_lt.mpr after)
  · next valid =>
      rw [if_neg valid] at before
      split at grows
      · next cause isError =>
          rw [isError] at before
          exact absurd before (Nat.not_lt.mpr after)
      · next classified isClassified =>
          rw [isClassified] at before
          have marks := marks_reportFindings options span classified.findings state
          exact introduced_declareAll grows id (marks.sameCount ▸ after) before

/-- The head of a loop declares the locals of the loop. -/
theorem placesLoop_checkLoopHead
    (wellFormedLater : scopes.WellFormed)
    {block : Nat}
    {element : LocalDecl}
    {collection : Expr}
    {state : MethodState}
    (wellFormed : state.scope.WellFormed)
    (known : block < state.scope.blocks.size)
    (grows : (checkLoopHead table options block element collection state).state.scope.Grows scopes)
    {facts : LoopFacts}
    (isScope : facts.scope = some state.scope.blocks.size) :
    scopes.PlacesLoop (checkLoopHead table options block element collection state).element
      (checkLoopHead table options block element collection state).collection facts block
      state.scope.locals.size state.scope.blocks.size
      (checkLoopHead table options block element collection state).state.scope.locals.size := by
  let opened := state.mapScope (.openBlock block)
  let declared := checkDeclaration table state.scope.blocks.size element opened
  let evaluated := checkExpr table state.scope.blocks.size collection declared.state
  have innerKnown : state.scope.blocks.size < opened.scope.blocks.size :=
    MethodState.known_openBlock block state
  have declaredLeads : opened.Leads declared.state :=
    leads_checkDeclaration table state.scope.blocks.size element opened
  have declaredWellFormed : declared.state.scope.WellFormed :=
    wellFormed_checkDeclaration (wellFormed.openBlock known) innerKnown element
  have marks : declared.state.Marks evaluated.state :=
    marks_checkExpr table state.scope.blocks.size collection declared.state
  have resolved := leads_resolveLoop table options state.scope.blocks.size declared.type
    evaluated.type evaluated.node.span evaluated.state
  have evaluatedGrows : evaluated.state.scope.Grows scopes := resolved.scope.trans grows
  have declaredGrows : declared.state.scope.Grows scopes := marks.scope.trans evaluatedGrows
  obtain ⟨binding, size⟩ :=
    CodeContext.binding_checkDeclaration table state.scope.blocks.size element opened
  have elementHome : (scopes.localAt state.scope.locals.size).scope = state.scope.blocks.size := by
    have persists := declaredGrows.persists state.scope.locals.size
      (Nat.lt_of_lt_of_le (Nat.lt_succ_self _) (Nat.le_of_eq size.symm))
    exact persists.scope.trans (home_checkDeclaration table state.scope.blocks.size element opened)
  have evaluatedSize : evaluated.state.scope.locals.size = state.scope.locals.size + 1 :=
    marks.sameCount.trans size
  refine ⟨isScope, MethodScope.opens_openBlock wellFormed known
    (declaredLeads.scope.trans declaredGrows), binding, ?_, elementHome, ?_, ?_⟩
  · have grown := resolved.scope.localCount
    rw [evaluatedSize] at grown
    exact grown
  · intro id after before
    exact (introduced_resolveLoop grows id (Nat.le_trans (Nat.le_of_eq evaluatedSize) after)
      before).2
  · have sees := seesAssigned_checkExpr wellFormedLater collection declared.state declaredWellFormed
      (declaredLeads.known innerKnown) evaluatedGrows
    rw [size] at sees
    exact sees

mutual

/-- Resolution puts a statement in its place. -/
theorem places_checkStmt
    (wellFormedLater : scopes.WellFormed) :
    ∀ (stmt : Stmt) (block : Nat) (state : MethodState),
      state.scope.WellFormed →
      block < state.scope.blocks.size →
      (checkStmt table options block stmt state).state.scope.Grows scopes →
      scopes.Places (checkStmt table options block stmt state).node block state.scope.locals.size
        (checkStmt table options block stmt state).state.scope.locals.size
  | .localVar span decl, block, state, wellFormed, known, grows => by
      obtain ⟨binding, size⟩ := CodeContext.binding_checkDeclaration table block decl state
      have declared : (checkDeclaration table block decl state).state.scope.WellFormed :=
        wellFormed_checkDeclaration wellFormed known decl
      have entry := localAt_checkDeclaration table block decl state
      have isNext : state.scope.locals.size <
          (checkDeclaration table block decl state).state.scope.locals.size := by
        rw [size]
        exact Nat.lt_succ_self _
      cases initial : decl.initial with
      | none =>
          simp only [checkStmt, initial] at grows
          simp only [checkStmt, initial, MethodScope.Places]
          have persists := grows.persists state.scope.locals.size isNext
          refine ⟨binding, persists.scope.trans (congrArg LocalVariable.scope entry),
            persists.isFinal.trans (congrArg LocalVariable.isFinal entry), size, ?_⟩
          intro value isInitial
          rw [show (checkDeclaration table block decl state).node.initial = none from initial]
            at isInitial
          cases isInitial
      | some value =>
          have marks := marks_checkExpr table block value
            (checkDeclaration table block decl state).state
          have converted := marks_checkConverts table
            (checkExpr table block value (checkDeclaration table block decl state).state).type
            (checkDeclaration table block decl state).type
            (checkExpr table block value (checkDeclaration table block decl state).state).node.span
            (checkExpr table block value (checkDeclaration table block decl state).state).state
          simp only [checkStmt, initial] at grows
          simp only [checkStmt, initial, MethodScope.Places]
          have valueGrows := converted.scope.trans grows
          have persists := (marks.scope.trans valueGrows).persists state.scope.locals.size isNext
          have sameSize := (marks.trans converted).sameCount
          refine ⟨binding, persists.scope.trans (congrArg LocalVariable.scope entry),
            persists.isFinal.trans (congrArg LocalVariable.isFinal entry), sameSize.trans size, ?_⟩
          rintro _ ⟨⟩
          rw [sameSize]
          exact seesAssigned_checkExpr wellFormedLater value _ declared
            ((leads_checkDeclaration table block decl state).known known) valueGrows
  | .expr span value, block, state, wellFormed, known, grows => by
      have marks := marks_checkExpr table block value state
      simp only [checkStmt] at grows
      simp only [checkStmt, MethodScope.Places]
      exact ⟨marks.sameCount, seesAssigned_checkExpr wellFormedLater value state wellFormed known
        grows⟩
  | .block span stmts facts, block, state, wellFormed, known, grows => by
      simp only [checkStmt] at grows
      simp only [checkStmt, MethodScope.Places]
      have leads := leads_checkStmts table options stmts state.scope.nextBlock
        (state.mapScope (.openBlock block))
      exact ⟨state.scope.blocks.size,
        MethodScope.opens_openBlock wellFormed known (leads.scope.trans grows),
        places_checkStmts wellFormedLater stmts state.scope.nextBlock _ (wellFormed.openBlock known)
          (MethodState.known_openBlock block state) grows⟩
  | .branch span condition thenBranch none, block, state, wellFormed, known, grows => by
      have both := marks_checkGiven table block condition .boolean state
      simp only [checkStmt] at grows
      have placed := places_checkStmt wellFormedLater thenBranch block _
        (both.wellFormed wellFormed) (both.sameBlocks ▸ known) grows
      rw [both.sameCount] at placed
      simp only [checkStmt, MethodScope.Places]
      exact ⟨seesAssigned_checkExpr wellFormedLater condition state wellFormed known
        ((marks_checkConverts _ _ _ _ _).scope.trans
          ((leads_checkStmt table options thenBranch block _).scope.trans grows)), placed⟩
  | .branch span condition thenBranch (some elseBranch), block, state, wellFormed, known,
      grows => by
      have both := marks_checkGiven table block condition .boolean state
      simp only [checkStmt] at grows
      have testedKnown := both.known known
      have thenGrows := (leads_checkStmt table options elseBranch block _).scope.trans grows
      have testedGrows := (leads_checkStmt table options thenBranch block _).scope.trans thenGrows
      have placed := places_checkStmt wellFormedLater thenBranch block _
        (both.wellFormed wellFormed) testedKnown thenGrows
      have other := places_checkStmt wellFormedLater elseBranch block _
        (wellFormed_checkStmt (both.wellFormed wellFormed) testedKnown)
        ((leads_checkStmt table options thenBranch block _).known testedKnown) grows
      rw [both.sameCount] at placed
      simp only [checkStmt, MethodScope.Places]
      exact ⟨seesAssigned_checkExpr wellFormedLater condition state wellFormed known
        ((marks_checkConverts _ _ _ _ _).scope.trans testedGrows), _, placed, other⟩
  | .forEach span element collection none facts, block, state, wellFormed, known, grows => by
      simp only [checkStmt] at grows
      simp only [checkStmt, MethodScope.Places]
      exact ⟨_, placesLoop_checkLoopHead wellFormedLater wellFormed known grows rfl⟩
  | .forEach span element collection (some action) facts, block, state, wellFormed, known,
      grows => by
      have leads := leads_checkStmt table options action state.scope.blocks.size
        (checkLoopHead table options block element collection state).state
      simp only [checkStmt] at grows
      simp only [checkStmt, MethodScope.Places]
      exact ⟨_, _, placesLoop_checkLoopHead wellFormedLater wellFormed known
          (leads.scope.trans grows) rfl,
        places_checkStmt wellFormedLater action _ _
          (wellFormed_checkLoopHead wellFormed known element collection)
          (MethodState.known_checkLoopHead table options block element collection state) grows⟩
  | .labeled span label body, block, state, wellFormed, known, grows => by
      simp only [checkStmt] at grows
      simp only [checkStmt, MethodScope.Places]
      exact places_checkStmt wellFormedLater body block state wellFormed known grows
  | .breakTo .., block, state, _, _, _ | .continueTo .., block, state, _, _, _
  | .empty _, block, state, _, _, _ => by
      simp only [checkStmt, MethodScope.Places]
  | .returnWith span none, block, state, _, _, _ => by
      simp only [checkStmt, MethodScope.Places]
      exact (MethodState.marks_reportIf _ _ _ _).sameCount
  | .returnWith span (some value), block, state, wellFormed, known, grows => by
      have returned := marks_checkReturned table (checkExpr table block value state)
      simp only [checkStmt] at grows
      simp only [checkStmt, MethodScope.Places]
      exact ⟨((marks_checkExpr table block value state).trans returned).sameCount,
        seesAssigned_checkExpr wellFormedLater value state wellFormed known
          (returned.scope.trans grows)⟩

theorem places_checkStmts
    (wellFormedLater : scopes.WellFormed) :
    ∀ (stmts : List Stmt) (block : Nat) (state : MethodState),
      state.scope.WellFormed →
      block < state.scope.blocks.size →
      (checkStmts table options block stmts state).state.scope.Grows scopes →
      scopes.PlacesAll (checkStmts table options block stmts state).node block
        state.scope.locals.size
        (checkStmts table options block stmts state).state.scope.locals.size
  | [], block, state, _, _, _ => by
      simp only [checkStmts, MethodScope.PlacesAll]
  | stmt :: rest, block, state, wellFormed, known, grows => by
      have leads := leads_checkStmt table options stmt block state
      have restLeads := leads_checkStmts table options rest block
        (checkStmt table options block stmt state).state
      simp only [checkStmts] at grows
      simp only [checkStmts, MethodScope.PlacesAll]
      exact ⟨_, places_checkStmt wellFormedLater stmt block state wellFormed known
          (restLeads.scope.trans grows),
        places_checkStmts wellFormedLater rest block _ (wellFormed_checkStmt wellFormed known)
          (leads.known known) grows⟩

end

end Statements

end LoopLowering
