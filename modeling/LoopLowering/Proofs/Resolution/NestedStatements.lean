import LoopLowering.Proofs.Resolution.PlacedStatements

namespace LoopLowering

/-!
# Statements nest their scopes

Each block and each loop opens a scope inside the one around it. What stands in a
scope stores to locals that are visible there, whatever errors are reported, and
flow analysis leaves it so.
-/

namespace MethodScope

/-- The locals of a loop are at home in its scope or visible there, and that scope
lies in the one around the loop. -/
structure NestsLoop
    (scopes : MethodScope)
    (element : LocalDecl)
    (collection : Expr)
    (facts : LoopFacts)
    (outer inner : Nat) :
    Prop where
  scope : facts.scope = some inner
  parent : (scopes.block inner).parent = some outer
  element : ∀ id, element.binding = some id → scopes.Sees inner scopes.locals.size id
  collection : scopes.SeesAssigned inner scopes.locals.size collection.steps
  synthetics : ∀ resolution, facts.classification = .resolved resolution →
    ∀ id ∈ resolution.strategy.synthetics, scopes.Sees inner scopes.locals.size id

mutual

/-- A statement in a block scope stores to locals that are visible where it does,
and opens its scopes inside that one. -/
def Nests
    (scopes : MethodScope) :
    Stmt → (block : Nat) → Prop
  | .localVar _ decl, block =>
      (∀ id, decl.binding = some id → scopes.Sees block scopes.locals.size id) ∧
        ∀ value, decl.initial = some value →
          scopes.SeesAssigned block scopes.locals.size value.steps
  | .expr _ value, block => scopes.SeesAssigned block scopes.locals.size value.steps
  | .block _ stmts facts, block =>
      ∃ inner, facts.scope = some inner ∧ (scopes.block inner).parent = some block ∧
        scopes.NestsAll stmts inner
  | .branch _ condition thenBranch none, block =>
      scopes.SeesAssigned block scopes.locals.size condition.steps ∧
        scopes.Nests thenBranch block
  | .branch _ condition thenBranch (some elseBranch), block =>
      scopes.SeesAssigned block scopes.locals.size condition.steps ∧
        scopes.Nests thenBranch block ∧ scopes.Nests elseBranch block
  | .forEach _ element collection none facts, block =>
      ∃ inner, scopes.NestsLoop element collection facts block inner
  | .forEach _ element collection (some action) facts, block =>
      ∃ inner, scopes.NestsLoop element collection facts block inner ∧ scopes.Nests action inner
  | .labeled _ _ body, block => scopes.Nests body block
  | .returnWith _ (some value), block =>
      scopes.SeesAssigned block scopes.locals.size value.steps
  | .breakTo .., _ | .continueTo .., _ | .returnWith _ none, _ | .empty _, _ => True

/-- Statements in a block scope store to locals that are visible where they do, and
open their scopes inside that one. -/
def NestsAll
    (scopes : MethodScope) :
    List Stmt → (block : Nat) → Prop
  | [], _ => True
  | stmt :: rest, block => scopes.Nests stmt block ∧ scopes.NestsAll rest block

end

variable
  {scopes : MethodScope}

/-- What a scope sees of fewer locals it sees of more. -/
theorem SeesAssigned.count
    {block limit larger : Nat}
    {trace : LocalTrace}
    (sees : scopes.SeesAssigned block limit trace)
    (isLarger : limit ≤ larger) :
    scopes.SeesAssigned block larger trace :=
  fun id member => ⟨Nat.lt_of_lt_of_le (sees id member).1 isLarger, (sees id member).2⟩

/-- A local is visible in the scope that declares it. -/
theorem sees_declareLocal
    (wellFormed : scopes.WellFormed)
    {block : Nat}
    {entry : LocalVariable}
    {state : MethodState}
    (grows : (declareLocal block entry state).2.scope.Grows scopes) :
    scopes.Sees block scopes.locals.size (declareLocal block entry state).1 := by
  obtain ⟨isNext, size⟩ := CodeContext.size_declareLocal block entry state
  have known : (declareLocal block entry state).1 <
      (declareLocal block entry state).2.scope.locals.size := by
    rw [isNext, size]
    exact Nat.lt_succ_self _
  refine ⟨Nat.lt_of_lt_of_le known grows.localCount, ?_⟩
  have home : ((declareLocal block entry state).2.scope.localAt
      (declareLocal block entry state).1).scope = block := by
    simp only [declareLocal, MethodState.mapScope, localAt_declare, nextLocal, if_true]
  rw [(grows.persists _ known).scope, home]
  exact wellFormed.mem_enclosing_self block

/-- The local of a declaration is visible in the scope around it. -/
theorem sees_checkDeclaration
    (wellFormed : scopes.WellFormed)
    {table : ClassTable}
    {block : Nat}
    {decl : LocalDecl}
    {state : MethodState}
    (grows : (checkDeclaration table block decl state).state.scope.Grows scopes) :
    ∀ id, (checkDeclaration table block decl state).node.binding = some id →
      scopes.Sees block scopes.locals.size id := by
  rintro _ ⟨⟩
  exact sees_declareLocal wellFormed grows

/-- The locals that a strategy introduces are numbered from its first one. -/
theorem mem_synthetics
    {shape : LoopShape}
    {first id : Nat}
    (member : id ∈ (shape.strategyFrom first).synthetics)
    (collection : Ty) :
    first ≤ id ∧ id < first + (shape.synthetics collection).length := by
  cases shape with
  | array =>
      simp only [LoopShape.strategyFrom, LoopStrategy.synthetics, List.mem_cons,
        List.not_mem_nil, or_false] at member
      simp only [LoopShape.synthetics, List.length_cons, List.length_nil]
      rcases member with rfl | rfl | rfl <;> exact ⟨by omega, by omega⟩
  | rawIterable receiver | genericIterable receiver =>
      simp only [LoopShape.strategyFrom, LoopStrategy.synthetics, List.mem_singleton] at member
      simp only [LoopShape.synthetics, List.length_cons, List.length_nil]
      subst member
      exact ⟨by omega, by omega⟩

/-- The locals that a loop introduces are visible in its scope. -/
theorem sees_resolveLoop
    (wellFormed : scopes.WellFormed)
    {table : ClassTable}
    {options : CompilerOptions}
    {block : Nat}
    {declared collection : Ty}
    {span : Span}
    {state : MethodState}
    (grows :
      (resolveLoop table options block declared collection span state).2.scope.Grows scopes)
    {resolution : LoopResolution}
    (isResolved : (resolveLoop table options block declared collection span state).1 =
      .resolved resolution) :
    ∀ id ∈ resolution.strategy.synthetics, scopes.Sees block scopes.locals.size id := by
  intro id member
  obtain ⟨after, before⟩ : state.scope.locals.size ≤ id ∧
      id < (resolveLoop table options block declared collection span
        state).2.scope.locals.size := by
    unfold resolveLoop at isResolved ⊢
    split at isResolved
    · cases isResolved
    · next valid =>
        rw [if_neg valid]
        split at isResolved
        · cases isResolved
        · next classified isClassified =>
            obtain rfl := LoopClassification.resolved.inj isResolved
            have marks := marks_reportFindings options span classified.findings state
            have numbered := mem_synthetics member collection
            have counts := CodeContext.size_declareAll block span
              (classified.shape.synthetics collection)
              (classified.findings.foldl
                (fun state finding => state.report (finding.issue options) span) state).scope
            rw [← marks.sameCount]
            exact ⟨numbered.1, Nat.lt_of_lt_of_le numbered.2 (Nat.le_of_eq counts.symm)⟩
  have home := (introduced_resolveLoop grows id after before).1
  refine ⟨Nat.lt_of_lt_of_le before grows.localCount, ?_⟩
  rw [home]
  exact wellFormed.mem_enclosing_self block

section Resolution

variable
  {table : ClassTable}
  {options : CompilerOptions}

/-- The head of a loop nests. -/
theorem nestsLoop_checkLoopHead
    (wellFormedLater : scopes.WellFormed)
    {block : Nat}
    {element : LocalDecl}
    {collection : Expr}
    {state : MethodState}
    (wellFormed : state.scope.WellFormed)
    (known : block < state.scope.blocks.size)
    (grows : (checkLoopHead table options block element collection state).state.scope.Grows scopes)
    (facts : LoopFacts) :
    scopes.NestsLoop (checkLoopHead table options block element collection state).element
      (checkLoopHead table options block element collection state).collection
      { facts with
        scope := some (checkLoopHead table options block element collection state).scope
        classification :=
          (checkLoopHead table options block element collection state).classification }
      block (checkLoopHead table options block element collection state).scope := by
  have placed := @placesLoop_checkLoopHead _ _ _ wellFormedLater _ _ _ _ wellFormed known grows
    { facts with scope := some state.scope.blocks.size } rfl
  refine ⟨rfl, placed.opens.parent, ?_, ?_, ?_⟩
  · intro id binding
    obtain rfl := Option.some.inj (placed.binding.symm.trans binding)
    refine ⟨Nat.lt_of_lt_of_le placed.declares grows.localCount, ?_⟩
    rw [placed.elementHome]
    exact wellFormedLater.mem_enclosing_self _
  · exact placed.collection.count (Nat.le_trans placed.declares grows.localCount)
  · intro resolution isResolved
    exact sees_resolveLoop wellFormedLater grows isResolved

mutual

/-- Resolution nests a statement. -/
theorem nests_checkStmt
    (wellFormedLater : scopes.WellFormed) :
    ∀ (stmt : Stmt) (block : Nat) (state : MethodState),
      state.scope.WellFormed →
      block < state.scope.blocks.size →
      (checkStmt table options block stmt state).state.scope.Grows scopes →
      scopes.Nests (checkStmt table options block stmt state).node block
  | .localVar span decl, block, state, wellFormed, known, grows => by
      have declared : (checkDeclaration table block decl state).state.scope.WellFormed :=
        wellFormed_checkDeclaration wellFormed known decl
      cases initial : decl.initial with
      | none =>
          simp only [checkStmt, initial] at grows
          simp only [checkStmt, initial, Nests]
          refine ⟨sees_checkDeclaration wellFormedLater grows, ?_⟩
          intro value isInitial
          rw [show (checkDeclaration table block decl state).node.initial = none from initial]
            at isInitial
          cases isInitial
      | some value =>
          have marks := marks_checkExpr table block value
            (checkDeclaration table block decl state).state
          have converted := marks_checkConverts table
            (checkExpr table block value (checkDeclaration table block decl state).state).type
            (checkDeclaration table block decl state).type
            (checkExpr table block value (checkDeclaration table block decl state).state).node.span
            (checkExpr table block value (checkDeclaration table block decl state).state).state
          simp only [checkStmt, initial] at grows
          simp only [checkStmt, initial, Nests]
          have valueGrows := converted.scope.trans grows
          have declaredGrows := marks.scope.trans valueGrows
          refine ⟨sees_checkDeclaration wellFormedLater declaredGrows, ?_⟩
          rintro _ ⟨⟩
          exact (seesAssigned_checkExpr wellFormedLater value _ declared
            ((leads_checkDeclaration table block decl state).known known) valueGrows).count
            declaredGrows.localCount
  | .expr span value, block, state, wellFormed, known, grows => by
      simp only [checkStmt] at grows
      simp only [checkStmt, Nests]
      exact (seesAssigned_checkExpr wellFormedLater value state wellFormed known grows).count
        ((marks_checkExpr table block value state).scope.trans grows).localCount
  | .block span stmts facts, block, state, wellFormed, known, grows => by
      simp only [checkStmt] at grows
      simp only [checkStmt, Nests]
      have leads := leads_checkStmts table options stmts state.scope.nextBlock
        (state.mapScope (.openBlock block))
      exact ⟨state.scope.blocks.size, rfl,
        (opens_openBlock wellFormed known (leads.scope.trans grows)).parent,
        nests_checkStmts wellFormedLater stmts state.scope.nextBlock _ (wellFormed.openBlock known)
          (MethodState.known_openBlock block state) grows⟩
  | .branch span condition thenBranch none, block, state, wellFormed, known, grows => by
      have both := marks_checkGiven table block condition .boolean state
      simp only [checkStmt] at grows
      simp only [checkStmt, Nests]
      have testedGrows := (leads_checkStmt table options thenBranch block _).scope.trans grows
      exact ⟨(seesAssigned_checkExpr wellFormedLater condition state wellFormed known
          ((marks_checkConverts _ _ _ _ _).scope.trans testedGrows)).count
            (both.scope.trans testedGrows).localCount,
        nests_checkStmt wellFormedLater thenBranch block _ (both.wellFormed wellFormed)
          (both.known known) grows⟩
  | .branch span condition thenBranch (some elseBranch), block, state, wellFormed, known,
      grows => by
      have both := marks_checkGiven table block condition .boolean state
      simp only [checkStmt] at grows
      simp only [checkStmt, Nests]
      have testedKnown := both.known known
      have thenGrows := (leads_checkStmt table options elseBranch block _).scope.trans grows
      have testedGrows := (leads_checkStmt table options thenBranch block _).scope.trans thenGrows
      exact ⟨(seesAssigned_checkExpr wellFormedLater condition state wellFormed known
          ((marks_checkConverts _ _ _ _ _).scope.trans testedGrows)).count
            (both.scope.trans testedGrows).localCount,
        nests_checkStmt wellFormedLater thenBranch block _ (both.wellFormed wellFormed) testedKnown
          thenGrows,
        nests_checkStmt wellFormedLater elseBranch block _
          (wellFormed_checkStmt (both.wellFormed wellFormed) testedKnown)
          ((leads_checkStmt table options thenBranch block _).known testedKnown) grows⟩
  | .forEach span element collection none facts, block, state, wellFormed, known, grows => by
      simp only [checkStmt] at grows
      simp only [checkStmt, Nests]
      exact ⟨_, nestsLoop_checkLoopHead wellFormedLater wellFormed known grows facts⟩
  | .forEach span element collection (some action) facts, block, state, wellFormed, known,
      grows => by
      have leads := leads_checkStmt table options action state.scope.blocks.size
        (checkLoopHead table options block element collection state).state
      simp only [checkStmt] at grows
      simp only [checkStmt, Nests]
      exact ⟨_, nestsLoop_checkLoopHead wellFormedLater wellFormed known (leads.scope.trans grows)
          facts,
        nests_checkStmt wellFormedLater action _ _
          (wellFormed_checkLoopHead wellFormed known element collection)
          (MethodState.known_checkLoopHead table options block element collection state) grows⟩
  | .labeled span label body, block, state, wellFormed, known, grows => by
      simp only [checkStmt] at grows
      simp only [checkStmt, Nests]
      exact nests_checkStmt wellFormedLater body block state wellFormed known grows
  | .breakTo .., block, state, _, _, _ | .continueTo .., block, state, _, _, _
  | .returnWith _ none, block, state, _, _, _ | .empty _, block, state, _, _, _ => by
      simp only [checkStmt, Nests]
  | .returnWith span (some value), block, state, wellFormed, known, grows => by
      have returned := marks_checkReturned table (checkExpr table block value state)
      simp only [checkStmt] at grows
      simp only [checkStmt, Nests]
      have valueGrows := returned.scope.trans grows
      exact (seesAssigned_checkExpr wellFormedLater value state wellFormed known valueGrows).count
        ((marks_checkExpr table block value state).scope.trans valueGrows).localCount

theorem nests_checkStmts
    (wellFormedLater : scopes.WellFormed) :
    ∀ (stmts : List Stmt) (block : Nat) (state : MethodState),
      state.scope.WellFormed →
      block < state.scope.blocks.size →
      (checkStmts table options block stmts state).state.scope.Grows scopes →
      scopes.NestsAll (checkStmts table options block stmts state).node block
  | [], block, state, _, _, _ => by
      simp only [checkStmts, NestsAll]
  | stmt :: rest, block, state, wellFormed, known, grows => by
      have leads := leads_checkStmt table options stmt block state
      have restLeads := leads_checkStmts table options rest block
        (checkStmt table options block stmt state).state
      simp only [checkStmts] at grows
      simp only [checkStmts, NestsAll]
      exact ⟨nests_checkStmt wellFormedLater stmt block state wellFormed known
          (restLeads.scope.trans grows),
        nests_checkStmts wellFormedLater rest block _ (wellFormed_checkStmt wellFormed known)
          (leads.known known) grows⟩

end

end Resolution

/-- Leaving a loop keeps its scope and how it is to be lowered. -/
theorem NestsLoop.leaveLoop
    {element : LocalDecl}
    {collection : Expr}
    {facts : LoopFacts}
    {outer inner : Nat}
    (nests : scopes.NestsLoop element collection facts outer inner)
    (options : CompilerOptions)
    (reachable : Bool)
    (entry : LoopEntry)
    (body : LoopBody) :
    scopes.NestsLoop element collection
      (LoopLowering.leaveLoop options element (facts.met reachable) entry body).facts outer
      inner := by
  simp only [LoopLowering.leaveLoop]
  split
  · exact ⟨nests.scope, nests.parent, nests.element, nests.collection, nests.synthetics⟩
  · exact ⟨nests.scope, nests.parent, nests.element, nests.collection, nests.synthetics⟩

mutual

/-- Flow analysis leaves a statement nested. -/
theorem Nests.analyzeStmt
    (options : CompilerOptions) :
    ∀ {stmt : Stmt} {block : Nat} (point : FlowPoint),
      scopes.Nests stmt block →
      scopes.Nests (LoopLowering.analyzeStmt options stmt point).node block
  | .localVar .., block, point, nests | .expr .., block, point, nests
  | .breakTo .., block, point, nests | .continueTo .., block, point, nests
  | .returnWith _ none, block, point, nests | .returnWith _ (some _), block, point, nests
  | .empty _, block, point, nests => by
      simpa only [LoopLowering.analyzeStmt] using nests
  | .block span stmts facts, block, point, nests => by
      rw [Nests] at nests
      obtain ⟨inner, isScope, isParent, inside⟩ := nests
      simp only [LoopLowering.analyzeStmt, Nests]
      exact ⟨inner, isScope, isParent, NestsAll.analyzeStmts options point inside⟩
  | .branch span condition thenBranch none, block, point, nests => by
      rw [Nests] at nests
      simp only [LoopLowering.analyzeStmt, Nests]
      exact ⟨nests.1, Nests.analyzeStmt options _ nests.2⟩
  | .branch span condition thenBranch (some elseBranch), block, point, nests => by
      rw [Nests] at nests
      simp only [LoopLowering.analyzeStmt, Nests]
      exact ⟨nests.1, Nests.analyzeStmt options _ nests.2.1, Nests.analyzeStmt options _ nests.2.2⟩
  | .forEach span element collection none facts, block, point, nests => by
      rw [Nests] at nests
      obtain ⟨inner, loop⟩ := nests
      simp only [LoopLowering.analyzeStmt, loop.scope, Nests]
      exact ⟨inner, loop.leaveLoop options _ _ _⟩
  | .forEach span element collection (some action) facts, block, point, nests => by
      rw [Nests] at nests
      obtain ⟨inner, loop, inside⟩ := nests
      obtain ⟨isNode, -⟩ := CodeContext.analyzeStmt_forEach options span element collection action
        point loop.scope
      obtain ⟨analyzed, isAction, insideAnalyzed⟩ : ∃ analyzed,
          ((enterLoop options inner element collection point).analyzeBody options action).action =
            some analyzed ∧ scopes.Nests analyzed inner := by
        unfold LoopEntry.analyzeBody
        split
        · exact ⟨action, rfl, inside⟩
        · split
          · exact ⟨_, rfl, Nests.analyzeStmt options _ inside⟩
          · exact ⟨action, rfl, inside⟩
      rw [isNode, isAction, Nests]
      exact ⟨inner, loop.leaveLoop options _ _ _, insideAnalyzed⟩
  | .labeled span label body, block, point, nests => by
      rw [Nests] at nests
      simp only [LoopLowering.analyzeStmt, Nests]
      exact Nests.analyzeStmt options _ nests

theorem NestsAll.analyzeStmts
    (options : CompilerOptions) :
    ∀ {stmts : List Stmt} {block : Nat} (point : FlowPoint),
      scopes.NestsAll stmts block →
      scopes.NestsAll (LoopLowering.analyzeStmts options stmts point).nodes block
  | [], block, point, _ => by
      simp only [LoopLowering.analyzeStmts, NestsAll]
  | stmt :: rest, block, point, nests => by
      rw [NestsAll] at nests
      simp only [LoopLowering.analyzeStmts]
      split
      · rw [NestsAll]
        exact ⟨Nests.analyzeStmt options point nests.1, NestsAll.analyzeStmts options _ nests.2⟩
      · rw [NestsAll]
        exact nests

end

end MethodScope

end LoopLowering
