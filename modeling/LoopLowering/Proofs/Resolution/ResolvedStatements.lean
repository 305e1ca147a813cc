import LoopLowering.Proofs.Resolution.SoundStates

namespace LoopLowering

/-!
# Resolved statements

What resolution finds out about a statement without errors: its locals are
numbered in the order of their declaration, its block scopes are nested as the
statements are, its expressions have types that convert to what they are used
as, and its loops can be iterated.
-/

namespace Stmt

/-- The number of locals a loop introduces. -/
def introducedCount
    (facts : LoopFacts) :
    Nat :=
  (facts.classification.strategy?.map (fun strategy => strategy.synthetics.length)).getD 0

mutual

/-- The number of locals that a resolved statement declares. -/
def localCount :
    Stmt → Nat
  | .localVar .. => 1
  | .block _ stmts _ => localCounts stmts
  | .branch _ _ thenBranch none => thenBranch.localCount
  | .branch _ _ thenBranch (some elseBranch) => thenBranch.localCount + elseBranch.localCount
  | .forEach _ _ _ none facts => 1 + introducedCount facts
  | .forEach _ _ _ (some action) facts => 1 + introducedCount facts + action.localCount
  | .labeled _ _ body => body.localCount
  | .expr .. | .breakTo .. | .continueTo .. | .returnWith .. | .empty _ => 0

/-- The number of locals that resolved statements declare. -/
def localCounts :
    List Stmt → Nat
  | [] => 0
  | stmt :: rest => stmt.localCount + localCounts rest

end

mutual

/-- The statements that a statement consists of, itself included. -/
def parts :
    Stmt → List Stmt
  | .block span stmts facts => .block span stmts facts :: allParts stmts
  | .branch span condition thenBranch none =>
      .branch span condition thenBranch none :: thenBranch.parts
  | .branch span condition thenBranch (some elseBranch) =>
      .branch span condition thenBranch (some elseBranch) :: (thenBranch.parts ++ elseBranch.parts)
  | .forEach span element collection none facts => [.forEach span element collection none facts]
  | .forEach span element collection (some action) facts =>
      .forEach span element collection (some action) facts :: action.parts
  | .labeled span label body => .labeled span label body :: body.parts
  | .localVar span decl => [.localVar span decl]
  | .expr span value => [.expr span value]
  | .breakTo span label => [.breakTo span label]
  | .continueTo span label => [.continueTo span label]
  | .returnWith span value => [.returnWith span value]
  | .empty span => [.empty span]

/-- The statements that statements consist of. -/
def allParts :
    List Stmt → List Stmt
  | [] => []
  | stmt :: rest => stmt.parts ++ allParts rest

end

end Stmt

/-- The local that a declaration declares with a type. -/
def LocalDecl.entry
    (decl : LocalDecl)
    (type : Ty) :
    LocalVariable :=
  { LocalVariable.declared decl.name.node type decl.name.span with isFinal := decl.isFinal }

/-- A declaration has a type of values. -/
theorem MethodState.Sound.isValue_checkDeclaration
    {strict : Bool}
    {table : ClassTable}
    {state : MethodState}
    (sound : state.Sound strict table)
    {home : Nat}
    {decl : LocalDecl}
    (allowed : decl.type.isAllowed strict = true)
    (clean : (checkDeclaration table home decl state).state.Clean) :
    (checkDeclaration table home decl state).type.isValue strict = true :=
  sound.isValue_resolveType allowed ((leads_declareLocal home _ _).isClean clean)

namespace CodeContext

/-- A local of the method that the source declares in a block scope. -/
structure Declares
    (context : CodeContext)
    (block id : Nat) :
    Prop where
  known : id < context.scope.locals.size
  home : (context.localAt id).scope = block
  isSource : (context.localAt id).isSynthetic = false

/-- A local that a loop introduces in a block scope. -/
structure Introduces
    (context : CodeContext)
    (block id : Nat)
    (entry : String × Ty) :
    Prop where
  known : id < context.scope.locals.size
  home : (context.localAt id).scope = block
  isSynthetic : (context.localAt id).isSynthetic = true
  name : (context.localAt id).name = entry.1
  type : (context.localAt id).type = entry.2

/-- A block scope is opened inside another before the locals it declares. -/
structure Opens
    (context : CodeContext)
    (outer first inner : Nat) :
    Prop where
  known : inner < context.scope.blocks.size
  parent : (context.scope.block inner).parent = some outer
  fresh : ∀ id < first, (context.localAt id).scope ≠ inner

/-- An expression has a type that converts to another one. -/
def Gives
    (context : CodeContext)
    (strict : Bool)
    (place : Place)
    (expr : Expr)
    (target : Ty) :
    Prop :=
  ∃ ty, context.HasType strict place expr ty ∧ context.table.converts ty target = true

/-- A loop over a collection can be iterated as it is to be lowered. The locals
it introduces are numbered from a first one. -/
structure Iterates
    (context : CodeContext)
    (declared collection : Ty)
    (block first : Nat)
    (resolution : LoopResolution) :
    Prop where
  shaped : ∃ shape, context.table.loopShape collection = .ok (shape, resolution.elementType) ∧
    resolution.strategy = shape.strategyFrom first ∧
    ∀ (index : Nat) (entry : String × Ty), (shape.synthetics collection)[index]? = some entry →
      context.Introduces block (first + index) entry
  conversion : resolution.conversion = .between resolution.elementType declared
  converts : context.table.converts resolution.elementType declared = true

/-- The head of a loop is resolved. -/
structure LoopHead
    (context : CodeContext)
    (strict : Bool)
    (element : LocalDecl)
    (collection : Expr)
    (facts : LoopFacts)
    (outer first inner : Nat)
    (resolution : LoopResolution) :
    Prop where
  scope : facts.scope = some inner
  classification : facts.classification = .resolved resolution
  opens : context.Opens outer first inner
  binding : element.binding = some first
  declares : context.Declares inner first
  iterated : ∃ ty, context.HasType strict ⟨inner, first + 1⟩ collection ty ∧
    context.Iterates (context.localAt first).type ty inner (first + 1) resolution

/-- A loop whose head is resolved introduces the locals of its strategy. -/
theorem LoopHead.introducedCount
    {context : CodeContext}
    {strict : Bool}
    {element : LocalDecl}
    {collection : Expr}
    {facts : LoopFacts}
    {outer first inner : Nat}
    {resolution : LoopResolution}
    (head : context.LoopHead strict element collection facts outer first inner resolution) :
    Stmt.introducedCount facts = resolution.strategy.synthetics.length := by
  simp [Stmt.introducedCount, head.classification, LoopClassification.strategy?,
    LoopClassification.resolution?]

mutual

/-- A statement is resolved in a block scope, after a number of locals. -/
def Resolved
    (context : CodeContext)
    (strict : Bool) :
    Stmt → (block first : Nat) → Prop
  | .localVar _ decl, block, first =>
      decl.binding = some first ∧ context.Declares block first ∧
        ∀ value, decl.initial = some value →
          context.Gives strict ⟨block, first + 1⟩ value (context.localAt first).type
  | .expr _ value, block, first => ∃ ty, context.HasType strict ⟨block, first⟩ value ty
  | .block _ stmts facts, block, first =>
      ∃ inner, facts.scope = some inner ∧ context.Opens block first inner ∧
        context.AllResolved strict stmts inner first
  | .branch _ condition thenBranch none, block, first =>
      context.Gives strict ⟨block, first⟩ condition .boolean ∧
        context.Resolved strict thenBranch block first
  | .branch _ condition thenBranch (some elseBranch), block, first =>
      context.Gives strict ⟨block, first⟩ condition .boolean ∧
        context.Resolved strict thenBranch block first ∧
        context.Resolved strict elseBranch block (first + thenBranch.localCount)
  | .forEach _ element collection none facts, block, first =>
      ∃ inner resolution,
        context.LoopHead strict element collection facts block first inner resolution
  | .forEach _ element collection (some action) facts, block, first =>
      ∃ inner resolution,
        context.LoopHead strict element collection facts block first inner resolution ∧
          context.Resolved strict action inner
            (first + 1 + resolution.strategy.synthetics.length)
  | .labeled _ _ body, block, first => context.Resolved strict body block first
  | .breakTo .., _, _ | .continueTo .., _, _ | .empty _, _, _ => True
  | .returnWith _ none, _, _ => context.state.returnType = .void
  | .returnWith _ (some value), block, first =>
      context.state.returnType ≠ .void ∧
        context.Gives strict ⟨block, first⟩ value context.state.returnType

/-- Statements are resolved in a block scope, one after the other. -/
def AllResolved
    (context : CodeContext)
    (strict : Bool) :
    List Stmt → (block first : Nat) → Prop
  | [], _, _ => True
  | stmt :: rest, block, first =>
      context.Resolved strict stmt block first ∧
        context.AllResolved strict rest block (first + stmt.localCount)

end

variable
  {strict : Bool}
  {context : CodeContext}
  {options : CompilerOptions}

mutual

/-- The parts of a resolved statement are resolved. -/
theorem resolved_of_mem_parts :
    ∀ {stmt : Stmt} {block first : Nat},
      context.Resolved strict stmt block first →
      ∀ part ∈ stmt.parts, ∃ home number, context.Resolved strict part home number
  | .localVar .., block, first, resolved, part, member
  | .expr .., block, first, resolved, part, member
  | .breakTo .., block, first, resolved, part, member
  | .continueTo .., block, first, resolved, part, member
  | .returnWith .., block, first, resolved, part, member
  | .empty _, block, first, resolved, part, member
  | .forEach _ _ _ none _, block, first, resolved, part, member => by
      simp only [Stmt.parts, List.mem_singleton] at member
      exact ⟨block, first, member ▸ resolved⟩
  | .block span stmts facts, block, first, resolved, part, member => by
      simp only [Stmt.parts, List.mem_cons] at member
      rcases member with rfl | member
      · exact ⟨block, first, resolved⟩
      · simp only [Resolved] at resolved
        obtain ⟨inner, -, -, resolvedStmts⟩ := resolved
        exact resolved_of_mem_allParts resolvedStmts part member
  | .branch span condition thenBranch none, block, first, resolved, part, member => by
      simp only [Stmt.parts, List.mem_cons] at member
      rcases member with rfl | member
      · exact ⟨block, first, resolved⟩
      · simp only [Resolved] at resolved
        exact resolved_of_mem_parts resolved.2 part member
  | .branch span condition thenBranch (some elseBranch), block, first, resolved, part, member => by
      simp only [Stmt.parts, List.mem_cons, List.mem_append] at member
      rcases member with rfl | inThen | inElse
      · exact ⟨block, first, resolved⟩
      · simp only [Resolved] at resolved
        exact resolved_of_mem_parts resolved.2.1 part inThen
      · simp only [Resolved] at resolved
        exact resolved_of_mem_parts resolved.2.2 part inElse
  | .forEach span element collection (some action) facts, block, first, resolved, part, member => by
      simp only [Stmt.parts, List.mem_cons] at member
      rcases member with rfl | member
      · exact ⟨block, first, resolved⟩
      · simp only [Resolved] at resolved
        obtain ⟨inner, resolution, -, resolvedAction⟩ := resolved
        exact resolved_of_mem_parts resolvedAction part member
  | .labeled span label body, block, first, resolved, part, member => by
      simp only [Stmt.parts, List.mem_cons] at member
      rcases member with rfl | member
      · exact ⟨block, first, resolved⟩
      · simp only [Resolved] at resolved
        exact resolved_of_mem_parts resolved part member

theorem resolved_of_mem_allParts :
    ∀ {stmts : List Stmt} {block first : Nat},
      context.AllResolved strict stmts block first →
      ∀ part ∈ Stmt.allParts stmts, ∃ home number, context.Resolved strict part home number
  | [], block, first, resolved, part, member => by
      simp [Stmt.allParts] at member
  | stmt :: rest, block, first, resolved, part, member => by
      simp only [AllResolved] at resolved
      simp only [Stmt.allParts, List.mem_append] at member
      rcases member with inFirst | inRest
      · exact resolved_of_mem_parts resolved.1 part inFirst
      · exact resolved_of_mem_allParts resolved.2 part inRest

end

/-- What persists from a state is what code generation knows. -/
theorem Settles.persists
    {state : MethodState}
    (settles : context.Settles state)
    {id : Nat}
    (known : id < state.scope.locals.size) :
    (state.localAt id).Persists (context.localAt id) :=
  settles.leads.scope.persists id known

/-- A local that is known in a state is a local of the method. -/
theorem Settles.known_local
    {state : MethodState}
    (settles : context.Settles state)
    {id : Nat}
    (known : id < state.scope.locals.size) :
    id < context.scope.locals.size :=
  Nat.lt_of_lt_of_le known settles.leads.scope.localCount

/-- A block scope that is opened is nested in the one around it. -/
theorem opens_openBlock
    {outer : Nat}
    {state : MethodState}
    (known : outer < state.scope.blocks.size)
    (wellFormed : state.scope.WellFormed)
    (settles : context.Settles (state.mapScope (.openBlock outer))) :
    context.Opens outer state.scope.locals.size state.scope.nextBlock where
  known := settles.leads.known (MethodState.known_openBlock outer state)
  parent := by
    have isParent := settles.leads.scope.parent state.scope.nextBlock
      (MethodState.known_openBlock outer state)
    change (context.scope.block state.scope.nextBlock).parent = _ at isParent
    rw [isParent]
    exact ((MethodScope.block_openBlock known state.scope.nextBlock).1).trans
      (if_pos rfl)
  fresh := by
    intro id older isInner
    have isHome : (context.localAt id).scope = (state.localAt id).scope :=
      (settles.persists older).scope
    have home := wellFormed.home id older
    rw [isHome] at isInner
    exact absurd isInner (Nat.ne_of_lt home)

/-- A local that is declared is the next one. -/
theorem localAt_mapScope_declare
    {block : Nat}
    {entry : LocalVariable}
    {state : MethodState}
    (settles : context.Settles (state.mapScope (.declare block entry))) :
    LocalVariable.Persists { entry with scope := block }
        (context.localAt state.scope.locals.size) ∧
      state.scope.locals.size < context.scope.locals.size := by
  have size : (state.mapScope (.declare block entry)).scope.locals.size =
      state.scope.locals.size + 1 := by
    simp [MethodState.mapScope, MethodScope.declare]
  have known : state.scope.locals.size < (state.mapScope (.declare block entry)).scope.locals.size := by
    omega
  have persists := settles.persists known
  have isEntry : (state.mapScope (.declare block entry)).localAt state.scope.locals.size =
      { entry with scope := block } := by
    change (state.scope.declare block entry).localAt state.scope.locals.size = _
    rw [MethodScope.localAt_declare, if_pos rfl]
  rw [isEntry] at persists
  exact ⟨persists, settles.known_local known⟩

/-- Declaring a local adds one. -/
theorem size_declareLocal
    (block : Nat)
    (entry : LocalVariable)
    (state : MethodState) :
    (declareLocal block entry state).1 = state.scope.locals.size ∧
      (declareLocal block entry state).2.scope.locals.size = state.scope.locals.size + 1 := by
  have marks := MethodState.marks_reportIf (state.scope.lookup block entry.name).isSome
    (.duplicateLocal entry.name) entry.span state
  constructor
  · exact marks.sameCount
  · simp only [declareLocal, MethodState.mapScope, MethodScope.declare, Array.size_push]
    rw [marks.sameCount]

/-- Introducing locals lets the locals grow. -/
theorem grows_declareAll
    (block : Nat)
    (span : Span) :
    ∀ (entries : List (String × Ty)) (scope : MethodScope),
      scope.Grows (entries.foldl (fun scope entry =>
        scope.declare block (.synthetic entry.1 entry.2 span)) scope)
  | [], scope => .refl scope
  | _ :: rest, scope =>
      (MethodScope.grows_declare _ _ scope).trans (grows_declareAll block span rest _)

/-- A declared local is the next one of the method, as it is declared. -/
theorem persists_declareLocal
    {block : Nat}
    {entry : LocalVariable}
    {state : MethodState}
    (settles : context.Settles (declareLocal block entry state).2) :
    LocalVariable.Persists { entry with scope := block }
        (context.localAt state.scope.locals.size) ∧
      state.scope.locals.size < context.scope.locals.size := by
  have marks := MethodState.marks_reportIf (state.scope.lookup block entry.name).isSome
    (.duplicateLocal entry.name) entry.span state
  have declared := localAt_mapScope_declare settles
  rwa [marks.sameCount] at declared

/-- Declaring the variable of a declaration declares the next local. -/
theorem declares_checkDeclaration
    {table : ClassTable}
    {block : Nat}
    {decl : LocalDecl}
    {state : MethodState}
    (settles : context.Settles (checkDeclaration table block decl state).state) :
    context.Declares block state.scope.locals.size ∧
      (context.localAt state.scope.locals.size).type =
        (checkDeclaration table block decl state).type := by
  have marks := marks_resolveType table decl.type state
  have declares : context.Settles (declareLocal block
      (decl.entry (resolveType table decl.type state).1)
      (resolveType table decl.type state).2).2 := settles
  obtain ⟨persists, known⟩ := persists_declareLocal declares
  rw [marks.sameCount] at persists known
  exact ⟨⟨known, persists.scope, persists.isSynthetic⟩, persists.type⟩

/-- A declaration is bound to the next local. -/
theorem binding_checkDeclaration
    (table : ClassTable)
    (block : Nat)
    (decl : LocalDecl)
    (state : MethodState) :
    (checkDeclaration table block decl state).node.binding = some state.scope.locals.size ∧
      (checkDeclaration table block decl state).state.scope.locals.size =
        state.scope.locals.size + 1 := by
  have marks := marks_resolveType table decl.type state
  have declared := size_declareLocal block (decl.entry (resolveType table decl.type state).1)
    (resolveType table decl.type state).2
  rw [marks.sameCount] at declared
  exact ⟨congrArg some declared.1, declared.2⟩

/-- Locals that are introduced one after the other are the next ones. -/
theorem introduces_declareAll
    {block : Nat}
    {span : Span} :
    ∀ {entries : List (String × Ty)} {state : MethodState},
      context.Settles (state.mapScope (fun scope => entries.foldl (fun scope entry =>
        scope.declare block (.synthetic entry.1 entry.2 span)) scope)) →
      ∀ (index : Nat) (entry : String × Ty),
        entries[index]? = some entry →
        context.Introduces block (state.scope.locals.size + index) entry
  | [], _, _, _, _, found => by
      simp at found
  | first :: rest, state, settles, 0, entry, found => by
      obtain rfl := Option.some.inj found
      have later : context.Settles ((state.mapScope (.declare block
          (.synthetic first.1 first.2 span))).mapScope (fun scope => rest.foldl (fun scope entry =>
            scope.declare block (.synthetic entry.1 entry.2 span)) scope)) := settles
      have declared := later.earlier (.mapScope (grows_declareAll block span rest _))
      obtain ⟨persists, known⟩ := localAt_mapScope_declare declared
      exact ⟨known, persists.scope, persists.isSynthetic, persists.name, persists.type⟩
  | first :: rest, state, settles, index + 1, entry, found => by
      have size : (state.mapScope (.declare block
          (.synthetic first.1 first.2 span))).scope.locals.size =
          state.scope.locals.size + 1 := by
        simp [MethodState.mapScope, MethodScope.declare]
      have later : context.Settles ((state.mapScope (.declare block
          (.synthetic first.1 first.2 span))).mapScope (fun scope => rest.foldl (fun scope entry =>
            scope.declare block (.synthetic entry.1 entry.2 span)) scope)) := settles
      have introduced := introduces_declareAll later index entry (by simpa using found)
      rw [size] at introduced
      have counts : state.scope.locals.size + 1 + index = state.scope.locals.size + (index + 1) := by
        omega
      rwa [counts] at introduced

/-- Introducing locals adds as many. -/
theorem size_declareAll
    (block : Nat)
    (span : Span) :
    ∀ (entries : List (String × Ty)) (scope : MethodScope),
      (entries.foldl (fun scope entry =>
        scope.declare block (.synthetic entry.1 entry.2 span)) scope).locals.size =
          scope.locals.size + entries.length
  | [], _ => rfl
  | first :: rest, scope => by
      rw [List.foldl_cons, size_declareAll block span rest]
      simp only [MethodScope.declare, Array.size_push, List.length_cons]
      omega

/-- A strategy introduces the locals of its shape. -/
theorem length_synthetics
    (shape : LoopShape)
    (collection : Ty)
    (first : LocalId) :
    (shape.strategyFrom first).synthetics.length = (shape.synthetics collection).length := by
  cases shape <;> rfl

/-- What was found about a loop is reported without an error only if none of it
is one. -/
theorem clean_reportFindings
    (options : CompilerOptions)
    (span : Span) :
    ∀ {findings : List LoopFinding} {state : MethodState},
      (findings.foldl (fun state finding => state.report (finding.issue options) span)
        state).Clean →
      ∀ finding ∈ findings, (finding.issue options).severity ≠ .error
  | [], _, _, _, member => by
      simp at member
  | first :: rest, state, clean, finding, member => by
      rw [List.foldl_cons] at clean
      rcases List.mem_cons.mp member with rfl | inRest
      · have reported := (marks_reportFindings options span rest _).isClean clean
        exact ((MethodState.clean_report _ _ _).mp reported).1
      · exact clean_reportFindings options span clean finding inRest

/-- Elements that do not convert to the loop variable are found to mismatch. -/
theorem converts_of_loopFindings
    {table : ClassTable}
    {options : CompilerOptions}
    {element declared : Ty}
    (harmless : ∀ finding ∈ table.loopFindings element declared,
      (finding.issue options).severity ≠ .error) :
    table.converts element declared = true := by
  cases converts : table.converts element declared with
  | true =>
      rfl
  | false =>
      have mismatch := harmless (.mismatch element declared) (by
        simp [ClassTable.loopFindings, converts])
      exact absurd rfl mismatch

/-- A loop that is resolved without an error can be iterated. -/
theorem iterates_resolveLoop
    {block : Nat}
    {declared collection : Ty}
    (declaredKnown : declared.isUnknown = false)
    (collectionKnown : collection.isUnknown = false)
    {span : Span}
    {state : MethodState}
    (settles : context.Settles
      (resolveLoop context.table options block declared collection span state).2) :
    ∃ resolution,
      (resolveLoop context.table options block declared collection span state).1 =
          .resolved resolution ∧
        context.Iterates declared collection block state.scope.locals.size resolution ∧
        (resolveLoop context.table options block declared collection span
            state).2.scope.locals.size =
          state.scope.locals.size + resolution.strategy.synthetics.length := by
  have known : (declared.isUnknown || collection.isUnknown) = false := by
    rw [declaredKnown, collectionKnown, Bool.or_false]
  simp only [resolveLoop, known, Bool.false_eq_true, if_false] at settles ⊢
  cases classifies : context.table.classify declared collection with
  | error cause =>
      simp only [classifies] at settles
      simpa [Issue.severity] using settles.isClean
  | ok classified =>
      simp only [classifies] at settles ⊢
      simp only [ClassTable.classify, bind, Except.bind] at classifies
      split at classifies
      · cases classifies
      next found shaped =>
        cases classifies
        have marks := marks_reportFindings options span
          (context.table.loopFindings found.2 declared) state
        have harmless := clean_reportFindings options span
          (settles.earlier (.mapScope (grows_declareSynthetics _ _ _ _ _))).isClean
        have introduced := introduces_declareAll settles
        have sameCount := marks.sameCount
        rw [sameCount] at introduced
        refine ⟨_, rfl, ⟨⟨found.1, shaped, ?_, introduced⟩, rfl,
          converts_of_loopFindings harmless⟩, ?_⟩
        · exact congrArg found.1.strategyFrom sameCount
        · rw [length_synthetics found.1 collection, ← sameCount]
          exact size_declareAll block span _ _

/-- The place at which an expression is resolved in a state. -/
theorem at_state
    {state : MethodState}
    (wellFormed : state.scope.WellFormed)
    {block : Nat}
    (known : block < state.scope.blocks.size) :
    (Place.mk block state.scope.locals.size).At state :=
  ⟨rfl, known, wellFormed⟩

/-- An expression that is resolved and checked without an error gives what it
is used as. -/
theorem gives_checkExpr
    (sound : context.Sound strict)
    {block : Nat}
    {expr : Expr}
    {target : Ty}
    {state : MethodState}
    (stateSound : state.Sound strict context.table)
    (known : block < state.scope.blocks.size)
    (allowed : expr.isAllowed strict = true)
    (settles : context.Settles (checkConverts context.table
      (checkExpr context.table block expr state).type target
      (checkExpr context.table block expr state).node.span
      (checkExpr context.table block expr state).state)) :
    context.Gives strict ⟨block, state.scope.locals.size⟩
      (checkExpr context.table block expr state).node target := by
  have evaluated := settles.earlier (marks_checkConverts _ _ _ _ _).toLeads
  have isAt : (⟨block, state.scope.locals.size⟩ : Place).At state :=
    at_state stateSound.wellFormed known
  have typed := hasType_checkExpr sound allowed isAt evaluated
  have reported := (MethodState.clean_reportIf _ rfl _ _).mp settles.isClean
  exact ⟨_, typed, by simpa using reported.1⟩

/-- The head of a loop that is resolved without an error. -/
theorem loopHead_checkLoopHead
    (sound : context.Sound strict)
    {element : LocalDecl}
    {collection : Expr}
    {outer : Nat}
    {state : MethodState}
    (stateSound : state.Sound strict context.table)
    (known : outer < state.scope.blocks.size)
    (elementAllowed : element.type.isAllowed strict = true)
    (collectionAllowed : collection.isAllowed strict = true)
    (settles : context.Settles
      (checkLoopHead context.table options outer element collection state).state)
    (facts : LoopFacts)
    (scope : facts.scope =
      some (checkLoopHead context.table options outer element collection state).scope)
    (classification : facts.classification =
      (checkLoopHead context.table options outer element collection state).classification) :
    ∃ resolution,
      context.LoopHead strict
          (checkLoopHead context.table options outer element collection state).element
          (checkLoopHead context.table options outer element collection state).collection
          facts outer state.scope.locals.size
          (checkLoopHead context.table options outer element collection state).scope resolution ∧
        (checkLoopHead context.table options outer element collection state).state.scope.locals.size =
          state.scope.locals.size + 1 + resolution.strategy.synthetics.length := by
  have openedKnown := MethodState.known_openBlock outer state
  have openedSound := stateSound.afterOpen known
  have declarationLeads := leads_checkDeclaration context.table state.scope.nextBlock element
    (state.mapScope (.openBlock outer))
  have declarationKnown := declarationLeads.known openedKnown
  obtain ⟨binding, declaredSize⟩ := binding_checkDeclaration context.table state.scope.nextBlock
    element (state.mapScope (.openBlock outer))
  have marks := marks_checkExpr context.table state.scope.nextBlock collection
    (checkDeclaration context.table state.scope.nextBlock element
      (state.mapScope (.openBlock outer))).state
  have evaluated := settles.earlier (leads_resolveLoop context.table options _ _ _ _ _)
  have declaredSettles := evaluated.earlier marks.toLeads
  have declaredSound := openedSound.afterDeclaration openedKnown elementAllowed
    declaredSettles.isClean
  have elementValue := openedSound.isValue_checkDeclaration elementAllowed declaredSettles.isClean
  have collectionResult := declaredSound.isResult_checkExpr declarationKnown collectionAllowed
    evaluated.isClean
  obtain ⟨declares, elementType⟩ := declares_checkDeclaration declaredSettles
  have typed := hasType_checkExpr sound collectionAllowed
    (at_state declaredSound.wellFormed declarationKnown) evaluated
  obtain ⟨resolution, isResolved, iterates, size⟩ :=
    iterates_resolveLoop (Ty.IsResult.ne_unknown (.inr (.inr elementValue)))
      collectionResult.ne_unknown settles
  rw [marks.sameCount, declaredSize, ← elementType] at iterates
  rw [declaredSize] at typed
  rw [marks.sameCount, declaredSize] at size
  exact ⟨resolution,
    ⟨scope, classification.trans isResolved,
      opens_openBlock known stateSound.wellFormed (declaredSettles.earlier declarationLeads),
      binding, declares, _, typed, iterates⟩, size⟩

/-- A result that is checked without an error gives what the method returns. -/
theorem gives_checkReturned
    (sound : context.Sound strict)
    {block : Nat}
    {expr : Expr}
    {state : MethodState}
    (stateSound : state.Sound strict context.table)
    (known : block < state.scope.blocks.size)
    (allowed : expr.isAllowed strict = true)
    (settles : context.Settles
      (checkReturned context.table (checkExpr context.table block expr state))) :
    context.state.returnType ≠ .void ∧
      context.Gives strict ⟨block, state.scope.locals.size⟩
        (checkExpr context.table block expr state).node context.state.returnType := by
  have sameType : context.state.returnType =
      (checkExpr context.table block expr state).state.returnType :=
    (settles.earlier (marks_checkReturned _ _).toLeads).leads.returnType
  simp only [checkReturned] at settles
  split at settles
  · simpa [Issue.severity] using settles.isClean
  · next returns =>
      rw [sameType]
      exact ⟨returns, gives_checkExpr sound stateSound known allowed settles⟩

mutual

/-- A statement is resolved, and its locals are the next ones. -/
theorem resolved_checkStmt
    (sound : context.Sound strict) :
    ∀ {stmt : Stmt} {block : Nat} {state : MethodState},
      state.Sound strict context.table →
      block < state.scope.blocks.size →
      stmt.isAllowed strict = true →
      context.Settles (checkStmt context.table options block stmt state).state →
      context.Resolved strict (checkStmt context.table options block stmt state).node block
          state.scope.locals.size ∧
        (checkStmt context.table options block stmt state).state.scope.locals.size =
          state.scope.locals.size +
            (checkStmt context.table options block stmt state).node.localCount
  | .localVar span decl, block, state, stateSound, known, allowed, settles => by
      simp only [Stmt.isAllowed, LocalDecl.isAllowed, Bool.and_eq_true] at allowed
      obtain ⟨binding, size⟩ := binding_checkDeclaration context.table block decl state
      cases initial : decl.initial with
      | none =>
          simp only [checkStmt, initial, Resolved, Stmt.localCount] at settles ⊢
          obtain ⟨declares, -⟩ := declares_checkDeclaration settles
          have noInitial : (checkDeclaration context.table block decl state).node.initial = none :=
            initial
          exact ⟨⟨binding, declares, by simp [noInitial]⟩, size⟩
      | some value =>
          simp only [checkStmt, initial, Resolved, Stmt.localCount] at settles ⊢
          have marks := marks_checkGiven context.table block value
            (checkDeclaration context.table block decl state).type
            (checkDeclaration context.table block decl state).state
          have declaredSettles := settles.earlier marks.toLeads
          have declaredSound := stateSound.afterDeclaration known allowed.1
            declaredSettles.isClean
          obtain ⟨declares, type⟩ := declares_checkDeclaration declaredSettles
          simp only [initial, Option.all_some] at allowed
          have gives := gives_checkExpr sound declaredSound
            ((leads_checkDeclaration context.table block decl state).known known) allowed.2 settles
          rw [size] at gives
          rw [marks.sameCount]
          refine ⟨⟨binding, declares, ?_⟩, size⟩
          intro resolved isResolved
          obtain rfl := Option.some.inj isResolved
          rwa [type]
  | .expr span value, block, state, stateSound, known, allowed, settles => by
      simp only [Stmt.isAllowed] at allowed
      simp only [checkStmt, Resolved, Stmt.localCount] at settles ⊢
      exact ⟨⟨_, hasType_checkExpr sound allowed (at_state stateSound.wellFormed known) settles⟩,
        (marks_checkExpr context.table block value state).sameCount⟩
  | .block span stmts facts, block, state, stateSound, known, allowed, settles => by
      simp only [Stmt.isAllowed] at allowed
      simp only [checkStmt, Resolved, Stmt.localCount] at settles ⊢
      have leads := leads_checkStmts context.table options stmts state.scope.nextBlock
        (state.mapScope (.openBlock block))
      obtain ⟨resolved, size⟩ := resolved_checkStmts sound (stateSound.afterOpen known)
        (MethodState.known_openBlock block state) allowed settles
      exact ⟨⟨_, rfl, opens_openBlock known stateSound.wellFormed (settles.earlier leads), resolved⟩,
        size⟩
  | .branch span condition thenBranch none, block, state, stateSound, known, allowed,
      settles => by
      simp only [Stmt.isAllowed, Bool.and_eq_true] at allowed
      simp only [checkStmt, Resolved, Stmt.localCount] at settles ⊢
      have marks := marks_checkGiven context.table block condition .boolean state
      have tested := settles.earlier (leads_checkStmt context.table options thenBranch block _)
      obtain ⟨resolved, size⟩ := resolved_checkStmt sound (stateSound.afterMarks marks)
        (marks.known known) allowed.2 settles
      rw [marks.sameCount] at resolved size
      exact ⟨⟨gives_checkExpr sound stateSound known allowed.1 tested, resolved⟩, size⟩
  | .branch span condition thenBranch (some elseBranch), block, state, stateSound, known, allowed,
      settles => by
      simp only [Stmt.isAllowed, Bool.and_eq_true] at allowed
      simp only [checkStmt, Resolved, Stmt.localCount] at settles ⊢
      have marks := marks_checkGiven context.table block condition .boolean state
      have thenLeads := leads_checkStmt context.table options thenBranch block
        (checkConverts context.table (checkExpr context.table block condition state).type .boolean
          (checkExpr context.table block condition state).node.span
          (checkExpr context.table block condition state).state)
      have thenSettles := settles.earlier
        (leads_checkStmt context.table options elseBranch block _)
      have tested := thenSettles.earlier thenLeads
      have testedSound := stateSound.afterMarks marks
      obtain ⟨thenResolved, thenSize⟩ := resolved_checkStmt sound testedSound (marks.known known)
        allowed.1.2 thenSettles
      obtain ⟨elseResolved, elseSize⟩ := resolved_checkStmt sound
        (testedSound.afterStmt (marks.known known) allowed.1.2 thenSettles.isClean)
        (thenLeads.known (marks.known known)) allowed.2 settles
      rw [thenSize, marks.sameCount] at elseResolved elseSize
      rw [marks.sameCount] at thenResolved
      exact ⟨⟨gives_checkExpr sound stateSound known allowed.1.1 tested, thenResolved,
        elseResolved⟩, by omega⟩
  | .forEach span element collection none facts, block, state, stateSound, known, allowed,
      settles => by
      simp only [Stmt.isAllowed, Bool.and_eq_true] at allowed
      simp only [checkStmt, Resolved, Stmt.localCount] at settles ⊢
      obtain ⟨resolution, head, size⟩ := loopHead_checkLoopHead sound stateSound known allowed.1
        allowed.2 settles
        { facts with
          scope := some (checkLoopHead context.table options block element collection state).scope
          classification :=
            (checkLoopHead context.table options block element collection state).classification }
        rfl rfl
      exact ⟨⟨_, resolution, head⟩, size.trans (by rw [head.introducedCount]; omega)⟩
  | .forEach span element collection (some action) facts, block, state, stateSound, known, allowed,
      settles => by
      simp only [Stmt.isAllowed, Bool.and_eq_true] at allowed
      simp only [checkStmt, Resolved, Stmt.localCount] at settles ⊢
      have headSettles := settles.earlier (leads_checkStmt context.table options action _ _)
      obtain ⟨resolution, head, size⟩ := loopHead_checkLoopHead sound stateSound known allowed.1.1
        allowed.1.2 headSettles
        { facts with
          scope := some (checkLoopHead context.table options block element collection state).scope
          classification :=
            (checkLoopHead context.table options block element collection state).classification }
        rfl rfl
      obtain ⟨resolved, actionSize⟩ := resolved_checkStmt sound
        (stateSound.afterLoopHead known allowed.1.1 allowed.1.2 headSettles.isClean)
        (MethodState.known_checkLoopHead context.table options block element collection state)
        allowed.2 settles
      rw [size] at resolved actionSize
      exact ⟨⟨_, resolution, head, resolved⟩,
        actionSize.trans (by rw [head.introducedCount]; omega)⟩
  | .labeled span label body, block, state, stateSound, known, allowed, settles => by
      simp only [Stmt.isAllowed] at allowed
      simp only [checkStmt, Resolved, Stmt.localCount] at settles ⊢
      exact resolved_checkStmt sound stateSound known allowed settles
  | .breakTo .., block, state, stateSound, known, allowed, settles
  | .continueTo .., block, state, stateSound, known, allowed, settles
  | .empty _, block, state, stateSound, known, allowed, settles => by
      simp [checkStmt, Resolved, Stmt.localCount]
  | .returnWith span none, block, state, stateSound, known, allowed, settles => by
      simp only [checkStmt, Resolved, Stmt.localCount] at settles ⊢
      have marks := MethodState.marks_reportIf (state.returnType != .void)
        (.resultRequired state.returnType) span state
      have reported := (MethodState.clean_reportIf _ rfl _ _).mp settles.isClean
      rw [(settles.earlier marks.toLeads).leads.returnType]
      exact ⟨by simpa using reported.1, marks.sameCount⟩
  | .returnWith span (some value), block, state, stateSound, known, allowed, settles => by
      simp only [Stmt.isAllowed] at allowed
      simp only [checkStmt, Resolved, Stmt.localCount] at settles ⊢
      exact ⟨gives_checkReturned sound stateSound known allowed settles,
        ((marks_checkExpr context.table block value state).trans
          (marks_checkReturned _ _)).sameCount⟩

theorem resolved_checkStmts
    (sound : context.Sound strict) :
    ∀ {stmts : List Stmt} {block : Nat} {state : MethodState},
      state.Sound strict context.table →
      block < state.scope.blocks.size →
      Stmt.areAllowed strict stmts = true →
      context.Settles (checkStmts context.table options block stmts state).state →
      context.AllResolved strict (checkStmts context.table options block stmts state).node block
          state.scope.locals.size ∧
        (checkStmts context.table options block stmts state).state.scope.locals.size =
          state.scope.locals.size +
            Stmt.localCounts (checkStmts context.table options block stmts state).node
  | [], block, state, stateSound, known, allowed, settles => by
      simp [checkStmts, AllResolved, Stmt.localCounts]
  | stmt :: rest, block, state, stateSound, known, allowed, settles => by
      simp only [Stmt.areAllowed, Bool.and_eq_true] at allowed
      simp only [checkStmts, AllResolved, Stmt.localCounts] at settles ⊢
      have headLeads := leads_checkStmt context.table options stmt block state
      have headSettles := settles.earlier (leads_checkStmts context.table options rest block _)
      obtain ⟨headResolved, headSize⟩ := resolved_checkStmt sound stateSound known allowed.1
        headSettles
      obtain ⟨restResolved, restSize⟩ := resolved_checkStmts sound
        (stateSound.afterStmt known allowed.1 headSettles.isClean) (headLeads.known known)
        allowed.2 settles
      rw [headSize] at restResolved restSize
      exact ⟨⟨headResolved, restResolved⟩, by omega⟩

end

end CodeContext

end LoopLowering
