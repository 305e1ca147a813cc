import LoopLowering.Proofs.Resolution.Expressions
import LoopLowering.Proofs.Resolution.Growth
import LoopLowering.Proofs.Types.SoundTables

namespace LoopLowering

/-!
# Resolution keeps scopes well formed

Resolution opens block scopes inside known ones and declares locals in known
ones. So the scopes of a method are well formed at every point, whatever errors
are reported.
-/

namespace MethodState

/-- The block scopes of a method stay. -/
theorem Leads.known
    {before after : MethodState}
    (leads : before.Leads after)
    {block : Nat}
    (known : block < before.scope.blocks.size) :
    block < after.scope.blocks.size :=
  Nat.lt_of_lt_of_le known leads.scope.blockCount

/-- A block scope that is opened exists from then on. -/
theorem known_openBlock
    (parent : ScopeId)
    (state : MethodState) :
    state.scope.nextBlock < (state.mapScope (.openBlock parent)).scope.blocks.size := by
  simp [mapScope, MethodScope.openBlock, MethodScope.nextBlock]

/-- The block scope of a loop exists once its head is resolved. -/
theorem known_checkLoopHead
    (table : ClassTable)
    (options : CompilerOptions)
    (outer : ScopeId)
    (element : LocalDecl)
    (collection : Expr)
    (state : MethodState) :
    (checkLoopHead table options outer element collection state).scope <
      (checkLoopHead table options outer element collection state).state.scope.blocks.size :=
  (leads_openedLoopHead table options outer element collection state).known
    (known_openBlock outer state)

end MethodState

section Steps

variable
  {table : ClassTable}
  {options : CompilerOptions}
  {block : Nat}
  {state : MethodState}

/-- Declaring a local keeps the scopes well formed. -/
theorem wellFormed_declareLocal
    (wellFormed : state.scope.WellFormed)
    (known : block < state.scope.blocks.size)
    (entry : LocalVariable) :
    (declareLocal block entry state).2.scope.WellFormed := by
  have marks := MethodState.marks_reportIf (state.scope.lookup block entry.name).isSome
    (.duplicateLocal entry.name) entry.span state
  exact (marks.wellFormed wellFormed).declare (marks.sameBlocks ▸ known) entry

/-- Declaring the variable of a declaration keeps the scopes well formed. -/
theorem wellFormed_checkDeclaration
    (wellFormed : state.scope.WellFormed)
    (known : block < state.scope.blocks.size)
    (decl : LocalDecl) :
    (checkDeclaration table block decl state).state.scope.WellFormed := by
  have marks := marks_resolveType table decl.type state
  exact wellFormed_declareLocal (marks.wellFormed wellFormed) (marks.sameBlocks ▸ known) _

/-- Declaring the locals of a loop keeps the scopes well formed. -/
theorem wellFormed_declareSynthetics
    {scope : MethodScope}
    (wellFormed : scope.WellFormed)
    (known : block < scope.blocks.size)
    (shape : LoopShape)
    (collection : Ty)
    (span : Span) :
    (scope.declareSynthetics block shape collection span).WellFormed := by
  have step : ∀ (entries : List (String × Ty)) (scope : MethodScope),
      scope.WellFormed → block < scope.blocks.size →
      (entries.foldl (fun scope entry => scope.declare block (.synthetic entry.1 entry.2 span))
        scope).WellFormed := by
    intro entries
    induction entries with
    | nil =>
        exact fun _ wellFormed _ => wellFormed
    | cons entry rest inductionHypothesis =>
        intro scope wellFormed known
        exact inductionHypothesis _ (wellFormed.declare known _)
          (Nat.lt_of_lt_of_le known (MethodScope.grows_declare _ _ scope).blockCount)
  exact step _ _ wellFormed known

/-- Resolving a loop keeps the scopes well formed. -/
theorem wellFormed_resolveLoop
    (wellFormed : state.scope.WellFormed)
    (known : block < state.scope.blocks.size)
    (declared collection : Ty)
    (span : Span) :
    (resolveLoop table options block declared collection span state).2.scope.WellFormed := by
  unfold resolveLoop
  split
  · exact wellFormed
  · split
    · exact wellFormed
    · next classified _ =>
        have marks := marks_reportFindings options span classified.findings state
        exact wellFormed_declareSynthetics (marks.wellFormed wellFormed)
          (marks.sameBlocks ▸ known) _ _ _


/-- Resolving the head of a loop keeps the scopes well formed. -/
theorem wellFormed_checkLoopHead
    (wellFormed : state.scope.WellFormed)
    (known : block < state.scope.blocks.size)
    (element : LocalDecl)
    (collection : Expr) :
    (checkLoopHead table options block element collection state).state.scope.WellFormed := by
  have opened := MethodState.known_openBlock block state
  have elementLeads := leads_checkDeclaration table state.scope.nextBlock element
    (state.mapScope (.openBlock block))
  have elementWellFormed : (checkDeclaration table state.scope.nextBlock element
      (state.mapScope (.openBlock block))).state.scope.WellFormed :=
    wellFormed_checkDeclaration (wellFormed.openBlock known) opened element
  have collectionMarks := marks_checkExpr table state.scope.nextBlock collection
    (checkDeclaration table state.scope.nextBlock element
      (state.mapScope (.openBlock block))).state
  exact wellFormed_resolveLoop (collectionMarks.wellFormed elementWellFormed)
    (collectionMarks.known (elementLeads.known opened)) _ _ _

end Steps

mutual

/-- Resolving a statement keeps the scopes well formed. -/
theorem wellFormed_checkStmt
    {table : ClassTable}
    {options : CompilerOptions} :
    ∀ {stmt : Stmt} {block : Nat} {state : MethodState},
      state.scope.WellFormed →
      block < state.scope.blocks.size →
      (checkStmt table options block stmt state).state.scope.WellFormed
  | .localVar span decl, block, state, wellFormed, known => by
      have declared : (checkDeclaration table block decl state).state.scope.WellFormed :=
        wellFormed_checkDeclaration wellFormed known decl
      simp only [checkStmt]
      split
      · exact declared
      · exact ((marks_checkExpr table block _ _).trans (marks_checkConverts _ _ _ _ _)).wellFormed
          declared
  | .expr span value, block, state, wellFormed, known => by
      simp only [checkStmt]
      exact (marks_checkExpr table block value state).wellFormed wellFormed
  | .block span stmts facts, block, state, wellFormed, known => by
      simp only [checkStmt]
      exact wellFormed_checkStmts (wellFormed.openBlock known)
        (MethodState.known_openBlock block state)
  | .branch span condition thenBranch none, block, state, wellFormed, known => by
      have marks := marks_checkGiven table block condition .boolean state
      simp only [checkStmt]
      exact wellFormed_checkStmt (marks.wellFormed wellFormed) (marks.known known)
  | .branch span condition thenBranch (some elseBranch), block, state, wellFormed, known => by
      have marks := marks_checkGiven table block condition .boolean state
      simp only [checkStmt]
      exact wellFormed_checkStmt
        (wellFormed_checkStmt (marks.wellFormed wellFormed) (marks.known known))
        ((leads_checkStmt table options thenBranch block _).known (marks.known known))
  | .forEach span element collection none facts, block, state, wellFormed, known => by
      simp only [checkStmt]
      exact wellFormed_checkLoopHead wellFormed known element collection
  | .forEach span element collection (some action) facts, block, state, wellFormed, known => by
      simp only [checkStmt]
      exact wellFormed_checkStmt (wellFormed_checkLoopHead wellFormed known element collection)
        (MethodState.known_checkLoopHead table options block element collection state)
  | .labeled span label body, block, state, wellFormed, known => by
      simp only [checkStmt]
      exact wellFormed_checkStmt wellFormed known
  | .breakTo .., block, state, wellFormed, known
  | .continueTo .., block, state, wellFormed, known
  | .empty _, block, state, wellFormed, known => by
      simpa only [checkStmt] using wellFormed
  | .returnWith span none, block, state, wellFormed, known => by
      simp only [checkStmt]
      exact (MethodState.marks_reportIf _ _ _ _).wellFormed wellFormed
  | .returnWith span (some value), block, state, wellFormed, known => by
      simp only [checkStmt]
      exact ((marks_checkExpr table block value state).trans (marks_checkReturned _ _)).wellFormed
        wellFormed

theorem wellFormed_checkStmts
    {table : ClassTable}
    {options : CompilerOptions} :
    ∀ {stmts : List Stmt} {block : Nat} {state : MethodState},
      state.scope.WellFormed →
      block < state.scope.blocks.size →
      (checkStmts table options block stmts state).state.scope.WellFormed
  | [], block, state, wellFormed, known => by
      simpa only [checkStmts] using wellFormed
  | stmt :: rest, block, state, wellFormed, known => by
      simp only [checkStmts]
      exact wellFormed_checkStmts (wellFormed_checkStmt wellFormed known)
        ((leads_checkStmt table options stmt block state).known known)

end

/-- Declaring the parameters of a method keeps the scopes well formed. -/
theorem wellFormed_checkParams
    {table : ClassTable} :
    ∀ {params : List Param} {state : MethodState},
      state.scope.WellFormed →
      (checkParams table params state).state.scope.WellFormed
  | [], state, wellFormed => wellFormed
  | param :: rest, state, wellFormed => by
      have resolved := (marks_resolveType table param.type state).wellFormed wellFormed
      simp only [checkParams]
      exact wellFormed_checkParams (wellFormed_declareLocal resolved resolved.root _)

/-!
## Resolution keeps states sound

While no error is reported, every local has a type of values and the scopes
stay well formed. So the final locals of a method are sound, and what is
resolved on the way can be judged by them.
-/

/-- Whether the written types of a local declaration are allowed. -/
def LocalDecl.isAllowed
    (strict : Bool)
    (decl : LocalDecl) :
    Bool :=
  decl.type.isAllowed strict && decl.initial.all (Expr.isAllowed strict)

mutual

/-- Whether the written types of a statement are allowed. The initial value of
a loop variable counts for nothing. -/
def Stmt.isAllowed
    (strict : Bool) :
    Stmt → Bool
  | .localVar _ decl => decl.isAllowed strict
  | .expr _ value => value.isAllowed strict
  | .block _ stmts _ => Stmt.areAllowed strict stmts
  | .branch _ condition thenBranch none =>
      condition.isAllowed strict && thenBranch.isAllowed strict
  | .branch _ condition thenBranch (some elseBranch) =>
      condition.isAllowed strict && thenBranch.isAllowed strict && elseBranch.isAllowed strict
  | .forEach _ element collection none _ =>
      element.type.isAllowed strict && collection.isAllowed strict
  | .forEach _ element collection (some action) _ =>
      element.type.isAllowed strict && collection.isAllowed strict && action.isAllowed strict
  | .labeled _ _ body => body.isAllowed strict
  | .breakTo .. | .continueTo .. | .returnWith _ none | .empty _ => true
  | .returnWith _ (some value) => value.isAllowed strict

/-- Whether the written types of statements are allowed. -/
def Stmt.areAllowed
    (strict : Bool) :
    List Stmt → Bool
  | [] => true
  | stmt :: rest => stmt.isAllowed strict && Stmt.areAllowed strict rest

end

/-- Whether the written types of a method are allowed. -/
def Method.isAllowed
    (strict : Bool)
    (method : Method) :
    Bool :=
  method.typeParams.all (TypeParam.isAllowed strict) &&
    method.params.all (fun param => param.type.isAllowed strict) &&
    method.returnType.all (TypeExpr.isAllowed strict) &&
    Stmt.areAllowed strict method.body.stmts

mutual

/-- Every statement is allowed leniently. -/
theorem Stmt.isAllowed_lenient :
    ∀ stmt : Stmt,
      stmt.isAllowed false = true
  | .localVar _ decl => by
      cases initial : decl.initial <;>
        simp [isAllowed, LocalDecl.isAllowed, decl.type.isAllowed_lenient, initial,
          Expr.isAllowed_lenient]
  | .expr _ value | .returnWith _ (some value) => by
      simp [isAllowed, value.isAllowed_lenient]
  | .block _ stmts _ => by
      simp [isAllowed, areAllowed_lenient stmts]
  | .branch _ condition thenBranch none => by
      simp [isAllowed, condition.isAllowed_lenient, isAllowed_lenient thenBranch]
  | .branch _ condition thenBranch (some elseBranch) => by
      simp [isAllowed, condition.isAllowed_lenient, isAllowed_lenient thenBranch,
        isAllowed_lenient elseBranch]
  | .forEach _ element collection none _ => by
      simp [isAllowed, element.type.isAllowed_lenient, collection.isAllowed_lenient]
  | .forEach _ element collection (some action) _ => by
      simp [isAllowed, element.type.isAllowed_lenient, collection.isAllowed_lenient,
        isAllowed_lenient action]
  | .labeled _ _ body => by
      simp [isAllowed, isAllowed_lenient body]
  | .breakTo .. | .continueTo .. | .returnWith _ none | .empty _ => by
      simp [isAllowed]

theorem Stmt.areAllowed_lenient :
    ∀ stmts : List Stmt,
      Stmt.areAllowed false stmts = true
  | [] => by
      simp [areAllowed]
  | stmt :: rest => by
      simp [areAllowed, isAllowed_lenient stmt, areAllowed_lenient rest]

end

/-- Every method is allowed leniently. -/
theorem Method.isAllowed_lenient
    (method : Method) :
    method.isAllowed false = true := by
  simp [isAllowed, TypeParam.isAllowed_lenient, TypeExpr.isAllowed_lenient,
    TypeExpr.all_isAllowed_lenient, Stmt.areAllowed_lenient]

namespace MethodState

/-- What is known about a method so far mentions types of values only. -/
def Sound
    (strict : Bool)
    (table : ClassTable)
    (state : MethodState) :
    Prop :=
  (CodeContext.mk table state).Sound strict

namespace Sound

variable
  {strict : Bool}
  {table : ClassTable}
  {state : MethodState}

/-- A state stays sound while locals are marked as used. -/
theorem afterMarks
    {after : MethodState}
    (sound : state.Sound strict table)
    (marks : state.Marks after) :
    after.Sound strict table where
  table := sound.table
  typeVars := by
    change SoundVars strict after.typeVars
    rw [marks.typeVars]
    exact sound.typeVars
  locals := by
    intro id known
    have before : id < state.scope.locals.size := by
      rw [← marks.sameCount]
      exact known
    change (after.scope.localAt id).type.isValue strict = true
    rw [(marks.scope.persists id before).type]
    exact sound.locals id before
  wellFormed := marks.wellFormed sound.wellFormed

/-- A state stays sound when a block scope is opened. -/
theorem afterOpen
    (sound : state.Sound strict table)
    {parent : Nat}
    (known : parent < state.scope.blocks.size) :
    (state.mapScope (.openBlock parent)).Sound strict table where
  table := sound.table
  typeVars := sound.typeVars
  locals := sound.locals
  wellFormed := sound.wellFormed.openBlock known

/-- A state stays sound when a local with a type of values is declared. -/
theorem afterEntry
    (sound : state.Sound strict table)
    {home : Nat}
    (known : home < state.scope.blocks.size)
    (entry : LocalVariable)
    (value : entry.type.isValue strict = true) :
    (state.mapScope (.declare home entry)).Sound strict table where
  table := sound.table
  typeVars := sound.typeVars
  locals := by
    intro id inLocals
    change ((state.scope.declare home entry).localAt id).type.isValue strict = true
    rw [MethodScope.localAt_declare]
    split
    · exact value
    · next older =>
        have before : id < state.scope.locals.size := by
          have : id < (state.scope.locals.push { entry with scope := home }).size := inLocals
          simp only [Array.size_push] at this
          omega
        exact sound.locals id before
  wellFormed := sound.wellFormed.declare known entry

/-- A written type resolves to a type of values. -/
theorem isValue_resolveType
    (sound : state.Sound strict table)
    {type : TypeExpr}
    (allowed : type.isAllowed strict = true)
    (clean : (resolveType table type state).2.Clean) :
    (resolveType table type state).1.isValue strict = true := by
  cases found : table.resolve state.typeVars type with
  | ok ty =>
      simp only [resolveType, found]
      exact (ClassTable.resolve_isValue sound.typeVars allowed found).1
  | error cause =>
      simp [resolveType, found, Issue.severity] at clean

/-- A state stays sound when a local is declared without an error. -/
theorem afterDeclare
    (sound : state.Sound strict table)
    {home : Nat}
    (known : home < state.scope.blocks.size)
    {entry : LocalVariable}
    (value : entry.type.isValue strict = true) :
    (declareLocal home entry state).2.Sound strict table :=
  (sound.afterMarks (marks_reportIf _ _ _ _)).afterEntry
    (by rwa [(marks_reportIf _ _ _ _).sameBlocks]) _ value

/-- A state stays sound when the variable of a declaration is declared. -/
theorem afterDeclaration
    (sound : state.Sound strict table)
    {home : Nat}
    (known : home < state.scope.blocks.size)
    {decl : LocalDecl}
    (allowed : decl.type.isAllowed strict = true)
    (clean : (checkDeclaration table home decl state).state.Clean) :
    (checkDeclaration table home decl state).state.Sound strict table := by
  have marks := marks_resolveType table decl.type state
  have value := sound.isValue_resolveType allowed
    ((leads_declareLocal home _ _).isClean clean)
  exact (sound.afterMarks marks).afterDeclare (by rwa [marks.sameBlocks]) value

/-- A state stays sound when the locals of a loop are declared. -/
theorem afterSynthetics
    (sound : state.Sound strict table)
    {home : Nat}
    (known : home < state.scope.blocks.size)
    {shape : LoopShape}
    {collection : Ty}
    (value : collection.isValue strict = true)
    (span : Span) :
    (state.mapScope (.declareSynthetics home shape collection span)).Sound strict table := by
  have blocks : ∀ (entry : LocalVariable) (before : MethodState),
      home < before.scope.blocks.size →
      home < (before.mapScope (.declare home entry)).scope.blocks.size := by
    intro entry before homeKnown
    simpa [mapScope, MethodScope.declare] using homeKnown
  cases shape with
  | array =>
      have indexed := sound.afterEntry known (.synthetic LoopShape.indexName .int span) rfl
      have bounded := indexed.afterEntry (blocks _ _ known)
        (.synthetic LoopShape.boundName .int span) rfl
      exact bounded.afterEntry (blocks _ _ (blocks _ _ known))
        (.synthetic LoopShape.sourceName collection span) value
  | rawIterable receiver | genericIterable receiver =>
      exact sound.afterEntry known (.synthetic LoopShape.indexName (.named "Iterator") span) rfl

/-- A state stays sound when a loop over an expression is resolved. -/
theorem afterLoop
    (sound : state.Sound strict table)
    {home : Nat}
    (known : home < state.scope.blocks.size)
    {declared collection : Ty}
    (result : collection.IsResult strict)
    (options : CompilerOptions)
    (span : Span) :
    (resolveLoop table options home declared collection span state).2.Sound strict table := by
  unfold resolveLoop
  split
  · exact sound
  · split
    · exact sound.afterMarks (marks_report _ _ _)
    · next classified classifies =>
        simp only [ClassTable.classify, bind, Except.bind] at classifies
        split at classifies
        · cases classifies
        next shape found =>
          cases classifies
          have iterated := ClassTable.isIterated_loopShape sound.table result found
          have marks := marks_reportFindings options span
            (table.loopFindings shape.2 declared) state
          exact (sound.afterMarks marks).afterSynthetics (by rwa [marks.sameBlocks])
            iterated.isValue_collection span

/-- The type of an expression that is resolved without an error is that of a
result. -/
theorem isResult_checkExpr
    (sound : state.Sound strict table)
    {block : Nat}
    (known : block < state.scope.blocks.size)
    {expr : Expr}
    (allowed : expr.isAllowed strict = true)
    (clean : (checkExpr table block expr state).state.Clean) :
    (checkExpr table block expr state).type.IsResult strict := by
  have marks := marks_checkExpr table block expr state
  have soundAfter := sound.afterMarks marks
  have isAt : (⟨block, state.scope.locals.size⟩ : CodeContext.Place).At state :=
    ⟨rfl, known, sound.wellFormed⟩
  have typed := CodeContext.hasType_checkExpr soundAfter allowed isAt ⟨.refl _, clean⟩
  exact typed.isResult soundAfter marks.scope.localCount

end Sound

/-- A state stays sound when the head of a loop is resolved without an error. -/
theorem Sound.afterLoopHead
    {strict : Bool}
    {table : ClassTable}
    {state : MethodState}
    (sound : state.Sound strict table)
    {outer : Nat}
    (known : outer < state.scope.blocks.size)
    {options : CompilerOptions}
    {element : LocalDecl}
    (elementAllowed : element.type.isAllowed strict = true)
    {collection : Expr}
    (collectionAllowed : collection.isAllowed strict = true)
    (clean : (checkLoopHead table options outer element collection state).state.Clean) :
    (checkLoopHead table options outer element collection state).state.Sound
      strict table := by
  have opened := known_openBlock outer state
  have collectionClean := (leads_resolveLoop table options _ _ _ _ _).isClean clean
  have elementClean := (marks_checkExpr table _ collection _).isClean collectionClean
  have elementLeads := leads_checkDeclaration table state.scope.nextBlock element
    (state.mapScope (.openBlock outer))
  have elementSound := (sound.afterOpen known).afterDeclaration opened elementAllowed elementClean
  have collectionMarks := marks_checkExpr table state.scope.nextBlock collection
    (checkDeclaration table state.scope.nextBlock element
      (state.mapScope (.openBlock outer))).state
  exact (elementSound.afterMarks collectionMarks).afterLoop
    (collectionMarks.known (elementLeads.known opened))
    (elementSound.isResult_checkExpr (elementLeads.known opened) collectionAllowed
      collectionClean) options _

mutual

/-- A state stays sound when a statement is resolved without an error. -/
theorem Sound.afterStmt
    {strict : Bool}
    {table : ClassTable}
    {options : CompilerOptions} :
    ∀ {stmt : Stmt} {block : Nat} {state : MethodState},
      state.Sound strict table →
      block < state.scope.blocks.size →
      stmt.isAllowed strict = true →
      (checkStmt table options block stmt state).state.Clean →
      (checkStmt table options block stmt state).state.Sound strict table
  | .localVar span decl, block, state, sound, known, allowed, clean => by
      simp only [Stmt.isAllowed, LocalDecl.isAllowed, Bool.and_eq_true] at allowed
      cases initial : decl.initial with
      | none =>
          simp only [checkStmt, initial] at clean ⊢
          exact sound.afterDeclaration known allowed.1 clean
      | some value =>
          simp only [checkStmt, initial] at clean ⊢
          have valueClean := (marks_checkConverts table _ _ _ _).isClean clean
          have declarationClean := (marks_checkExpr table block value _).isClean valueClean
          exact ((sound.afterDeclaration known allowed.1 declarationClean).afterMarks
            (marks_checkExpr table block value _)).afterMarks (marks_checkConverts table _ _ _ _)
  | .expr span value, block, state, sound, known, allowed, clean => by
      simp only [checkStmt]
      exact sound.afterMarks (marks_checkExpr table block value state)
  | .block span stmts facts, block, state, sound, known, allowed, clean => by
      simp only [Stmt.isAllowed] at allowed
      simp only [checkStmt] at clean ⊢
      exact (sound.afterOpen known).afterStmts (known_openBlock block state) allowed clean
  | .branch span condition thenBranch none, block, state, sound, known, allowed, clean => by
      simp only [Stmt.isAllowed, Bool.and_eq_true] at allowed
      simp only [checkStmt] at clean ⊢
      have marks := marks_checkGiven table block condition .boolean state
      exact (sound.afterMarks marks).afterStmt (marks.known known) allowed.2 clean
  | .branch span condition thenBranch (some elseBranch), block, state, sound, known, allowed,
      clean => by
      simp only [Stmt.isAllowed, Bool.and_eq_true] at allowed
      simp only [checkStmt] at clean ⊢
      have marks := marks_checkGiven table block condition .boolean state
      have thenSound := (sound.afterMarks marks).afterStmt (marks.known known) allowed.1.2
        ((leads_checkStmt table options elseBranch block _).isClean clean)
      exact thenSound.afterStmt
        ((leads_checkStmt table options thenBranch block _).known (marks.known known)) allowed.2 clean
  | .forEach span element collection none facts, block, state, sound, known, allowed, clean => by
      simp only [Stmt.isAllowed, Bool.and_eq_true] at allowed
      simp only [checkStmt] at clean ⊢
      exact sound.afterLoopHead known allowed.1 allowed.2 clean
  | .forEach span element collection (some action) facts, block, state, sound, known, allowed,
      clean => by
      simp only [Stmt.isAllowed, Bool.and_eq_true] at allowed
      simp only [checkStmt] at clean ⊢
      have headClean := (leads_checkStmt table options action _ _).isClean clean
      exact (sound.afterLoopHead known allowed.1.1 allowed.1.2 headClean).afterStmt
        (known_checkLoopHead table options block element collection state) allowed.2 clean
  | .labeled span label body, block, state, sound, known, allowed, clean => by
      simp only [Stmt.isAllowed] at allowed
      simp only [checkStmt] at clean ⊢
      exact sound.afterStmt known allowed clean
  | .breakTo .., block, state, sound, known, allowed, clean
  | .continueTo .., block, state, sound, known, allowed, clean
  | .empty _, block, state, sound, known, allowed, clean => by
      simpa only [checkStmt] using sound
  | .returnWith span none, block, state, sound, known, allowed, clean => by
      simp only [checkStmt]
      exact sound.afterMarks (marks_reportIf _ _ _ _)
  | .returnWith span (some value), block, state, sound, known, allowed, clean => by
      simp only [checkStmt]
      exact sound.afterMarks ((marks_checkExpr table block value state).trans (marks_checkReturned _ _))

theorem Sound.afterStmts
    {strict : Bool}
    {table : ClassTable}
    {options : CompilerOptions} :
    ∀ {stmts : List Stmt} {block : Nat} {state : MethodState},
      state.Sound strict table →
      block < state.scope.blocks.size →
      Stmt.areAllowed strict stmts = true →
      (checkStmts table options block stmts state).state.Clean →
      (checkStmts table options block stmts state).state.Sound strict table
  | [], block, state, sound, known, allowed, clean => by
      simpa only [checkStmts] using sound
  | stmt :: rest, block, state, sound, known, allowed, clean => by
      simp only [Stmt.areAllowed, Bool.and_eq_true] at allowed
      simp only [checkStmts] at clean ⊢
      have headLeads := leads_checkStmt table options stmt block state
      have headClean := (leads_checkStmts table options rest block _).isClean clean
      exact (sound.afterStmt known allowed.1 headClean).afterStmts (headLeads.known known)
        allowed.2 clean

end

end MethodState

end LoopLowering
