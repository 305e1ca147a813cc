import LoopLowering.Proofs.Resolution.ReservedNames
import LoopLowering.Source.Handles

namespace LoopLowering

/-!
# Lexical scopes

Which local a name means follows from the text alone: it is the latest one of
that name in the innermost block that declares one before the name is used. The
blocks around a place are read off the tree here, without the scopes that
resolution builds, and every step of resolution keeps the two in agreement.
-/

/-- The names that are visible at a place, with a table for each block around
it, the innermost block first. -/
abbrev VisibleNames := List (NameTable LocalId)

namespace VisibleNames

/-- The local that a name means: the latest one of the innermost block that
declares the name. -/
def meaning?
    (name : String)
    (visible : VisibleNames) :
    Option LocalId :=
  visible.findSome? (NameTable.find? name)

/-- Declare names in the innermost block. -/
def declare
    (names : NameTable LocalId) :
    VisibleNames → VisibleNames
  | [] => []
  | innermost :: outer => (names ++ innermost) :: outer

@[simp] theorem declare_nil
    (visible : VisibleNames) :
    declare [] visible = visible := by
  cases visible <;> rfl

@[simp] theorem declare_declare
    (earlier later : NameTable LocalId)
    (visible : VisibleNames) :
    declare later (declare earlier visible) = declare (later ++ earlier) visible := by
  cases visible <;> simp [declare]

end VisibleNames

/-- What a declaration that was bound to a local adds to the names. -/
def boundName
    (name : Spanned String)
    (binding : Option LocalId) :
    NameTable LocalId :=
  (binding.map fun id => (name.node, id)).toList

/-- The name that a declaration declares. -/
def LocalDecl.names
    (decl : LocalDecl) :
    NameTable LocalId :=
  boundName decl.name decl.binding

/-- The name that a parameter declares. -/
def Param.names
    (param : Param) :
    NameTable LocalId :=
  boundName param.name param.binding

/-- The names of the locals that a strategy introduces, the latest first. -/
def LoopStrategy.names :
    LoopStrategy → NameTable LocalId
  | .array index bound source =>
      [(LoopShape.sourceName, source), (LoopShape.boundName, bound), (LoopShape.indexName, index)]
  | .rawIterable iterator _ | .genericIterable iterator _ => [(LoopShape.indexName, iterator)]

/-- The names of the locals that the compiler introduces for a loop, the latest
first. -/
def LoopClassification.names
    (classification : LoopClassification) :
    NameTable LocalId :=
  (classification.strategy?.map LoopStrategy.names).getD []

/-- The names that a statement declares in the block around it, the latest
first. The branches of a conditional are no blocks. -/
def Stmt.names :
    Stmt → NameTable LocalId
  | .localVar _ decl => decl.names
  | .branch _ _ thenBranch none => thenBranch.names
  | .branch _ _ thenBranch (some elseBranch) => elseBranch.names ++ thenBranch.names
  | .labeled _ _ body => body.names
  | _ => []

/-- The names that are visible in a loop whose variable is declared. -/
def LocalDecl.visibleInLoop
    (element : LocalDecl)
    (visible : VisibleNames) :
    VisibleNames :=
  VisibleNames.declare element.names ([] :: visible)

/-- The name that a node uses itself, with its position. -/
def VisitedNode.use? :
    VisitedNode → Option (Spanned NameRef)
  | .expr (.name span ref) => some ⟨ref, span⟩
  | .expr (.assign _ target _ _) => some target
  | _ => none

/-- A use of a name. -/
structure NameUse where
  /-- The name with its position and the local it was bound to. -/
  name : Spanned NameRef
  /-- The names that are visible where the name is used. -/
  visible : VisibleNames
  /-- The use is in the initial value of a loop variable. -/
  isLoopInitial : Bool

/-- The uses of names in an expression, in the order of the source. -/
def Expr.uses
    (visible : VisibleNames)
    (isLoopInitial : Bool)
    (expr : Expr) :
    List NameUse :=
  ((expr.visits fun _ => true).filterMap VisitedNode.use?).map (⟨·, visible, isLoopInitial⟩)

/-- The uses of names in expressions, in the order of the source. -/
def Expr.allUses
    (visible : VisibleNames)
    (isLoopInitial : Bool)
    (exprs : List Expr) :
    List NameUse :=
  ((Expr.visitsAll (fun _ => true) exprs).filterMap VisitedNode.use?).map
    (⟨·, visible, isLoopInitial⟩)

/-- The uses of names in the initial value of a declaration. -/
def LocalDecl.uses
    (visible : VisibleNames)
    (isLoopInitial : Bool)
    (decl : LocalDecl) :
    List NameUse :=
  (decl.initial.map (Expr.uses visible isLoopInitial)).getD []

mutual

/-- The uses of names in a statement, in the order of the source. A variable is
visible in its own initial value, and what the first branch of a conditional
declares in the second. -/
def Stmt.uses
    (visible : VisibleNames) :
    Stmt → List NameUse
  | .localVar _ decl => decl.uses (visible.declare decl.names) false
  | .expr _ value => value.uses visible false
  | .block _ stmts _ => Stmt.allUses ([] :: visible) stmts
  | .branch _ condition thenBranch none => condition.uses visible false ++ thenBranch.uses visible
  | .branch _ condition thenBranch (some elseBranch) =>
      condition.uses visible false ++ thenBranch.uses visible ++
        elseBranch.uses (visible.declare thenBranch.names)
  | .forEach _ element collection none _ =>
      element.uses (element.visibleInLoop visible) true ++
        collection.uses (element.visibleInLoop visible) false
  | .forEach _ element collection (some action) facts =>
      element.uses (element.visibleInLoop visible) true ++
        collection.uses (element.visibleInLoop visible) false ++
          action.uses (VisibleNames.declare facts.classification.names
            (element.visibleInLoop visible))
  | .labeled _ _ body => body.uses visible
  | .returnWith _ (some value) => value.uses visible false
  | .breakTo .. | .continueTo .. | .returnWith _ none | .empty _ => []

/-- The uses of names in statements, in the order of the source. -/
def Stmt.allUses
    (visible : VisibleNames) :
    List Stmt → List NameUse
  | [] => []
  | stmt :: rest => stmt.uses visible ++ Stmt.allUses (visible.declare stmt.names) rest

end

namespace Method

/-- The names that are visible at the start of the body of a method. -/
def parameterNames
    (method : Method) :
    VisibleNames :=
  method.params.foldl (fun visible param => visible.declare param.names) [[]]

/-- The uses of names in a method, in the order of the source. -/
def uses
    (method : Method) :
    List NameUse :=
  Stmt.allUses method.parameterNames method.body.stmts

end Method

section Coverage

variable
  {visible : VisibleNames}
  {isLoopInitial : Bool}

@[simp] theorem Expr.map_name_uses
    (expr : Expr) :
    (expr.uses visible isLoopInitial).map NameUse.name =
      (expr.visits fun _ => true).filterMap VisitedNode.use? := by
  simp [Expr.uses, Function.comp_def]

/-- The uses in an expression are all of one kind. -/
theorem Expr.isLoopInitial_of_mem_uses
    {expr : Expr}
    {use : NameUse}
    (isUsed : use ∈ expr.uses visible isLoopInitial) :
    use.isLoopInitial = isLoopInitial := by
  obtain ⟨name, -, rfl⟩ := List.mem_map.mp isUsed
  rfl

/-- The uses in a declaration are all of one kind. -/
theorem LocalDecl.isLoopInitial_of_mem_uses
    {decl : LocalDecl}
    {use : NameUse}
    (isUsed : use ∈ decl.uses visible isLoopInitial) :
    use.isLoopInitial = isLoopInitial := by
  cases initial : decl.initial with
  | none =>
      simp [LocalDecl.uses, initial] at isUsed
  | some value =>
      simp only [LocalDecl.uses, initial, Option.map_some, Option.getD_some] at isUsed
      exact Expr.isLoopInitial_of_mem_uses isUsed

@[simp] theorem LocalDecl.map_name_uses
    (decl : LocalDecl) :
    (decl.uses visible isLoopInitial).map NameUse.name =
      (decl.visits fun _ => true).filterMap VisitedNode.use? := by
  cases initial : decl.initial <;>
    simp [LocalDecl.uses, LocalDecl.visits, visitNode, List.filterMap_cons, VisitedNode.use?,
      initial]

mutual

/-- The names used in a statement are those of the nodes that are visited. -/
theorem Stmt.map_name_uses :
    ∀ (stmt : Stmt) (visible : VisibleNames),
      (stmt.uses visible).map NameUse.name =
        (stmt.visits fun _ => true).filterMap VisitedNode.use?
  | .localVar _ decl, _ => by
      simp [Stmt.uses, Stmt.visits, visitNode, List.filterMap_cons, VisitedNode.use?]
  | .expr _ value, _ | .returnWith _ (some value), _ => by
      simp [Stmt.uses, Stmt.visits, visitNode, List.filterMap_cons, VisitedNode.use?]
  | .block _ stmts _, visible => by
      simpa [Stmt.uses, Stmt.visits, visitNode, List.filterMap_cons, VisitedNode.use?] using
        Stmt.map_name_allUses stmts ([] :: visible)
  | .branch _ condition thenBranch none, visible => by
      simp [Stmt.uses, Stmt.visits, visitNode, List.filterMap_cons, VisitedNode.use?,
        Stmt.map_name_uses thenBranch visible]
  | .branch _ condition thenBranch (some elseBranch), visible => by
      simp [Stmt.uses, Stmt.visits, visitNode, List.filterMap_cons, VisitedNode.use?,
        Stmt.map_name_uses thenBranch visible, Stmt.map_name_uses elseBranch _]
  | .forEach _ element collection none _, _ => by
      simp [Stmt.uses, Stmt.visits, visitNode, List.filterMap_cons, VisitedNode.use?]
  | .forEach _ element collection (some action) _, visible => by
      simp [Stmt.uses, Stmt.visits, visitNode, List.filterMap_cons, VisitedNode.use?,
        Stmt.map_name_uses action _]
  | .labeled _ _ body, visible => by
      simpa [Stmt.uses, Stmt.visits, visitNode, List.filterMap_cons, VisitedNode.use?] using
        Stmt.map_name_uses body visible
  | .breakTo .., _ | .continueTo .., _ | .returnWith _ none, _ | .empty _, _ => by
      simp [Stmt.uses, Stmt.visits, visitNode, List.filterMap_cons, VisitedNode.use?]

theorem Stmt.map_name_allUses :
    ∀ (stmts : List Stmt) (visible : VisibleNames),
      (Stmt.allUses visible stmts).map NameUse.name =
        (Stmt.visitsAll (fun _ => true) stmts).filterMap VisitedNode.use?
  | [], _ => by
      simp [Stmt.allUses, Stmt.visitsAll]
  | stmt :: rest, visible => by
      simp [Stmt.allUses, Stmt.visitsAll, Stmt.map_name_uses stmt visible,
        Stmt.map_name_allUses rest _]

end

/-- The names used in a method are those of the nodes that are visited. -/
theorem Method.map_name_uses
    (method : Method) :
    method.uses.map NameUse.name = method.visits.filterMap VisitedNode.use? := by
  simp [Method.uses, Method.visits, Method.visitsWhere, visitNode, List.filterMap_cons,
    VisitedNode.use?, Stmt.map_name_allUses]

end Coverage

namespace MethodScope

/-- Locals are numbered in the order in which they are declared. -/
theorem nextLocal_declare
    (block : ScopeId)
    (entry : LocalVariable)
    (scope : MethodScope) :
    (scope.declare block entry).nextLocal = scope.nextLocal + 1 := by
  simp [nextLocal, MethodScope.declare]

/-- A block scope lists names: those of its locals, the latest first. Locals that
the compiler introduced have reserved names. -/
structure Lists
    (scope : MethodScope)
    (block : ScopeId)
    (names : NameTable LocalId) :
    Prop where
  names : (scope.block block).locals.reverse.map (fun id => ((scope.localAt id).name, id)) = names
  reserved : ∀ id ∈ (scope.block block).locals,
    (scope.localAt id).isSynthetic = true → isReservedName (scope.localAt id).name = true

/-- A block scope shows names: those that it lists, and those that the scopes
around it list. -/
inductive Shows
    (scope : MethodScope) :
    ScopeId → VisibleNames → Prop where
  | outermost {block : Nat} {names : NameTable LocalId}
      (isTop : (scope.block block).parent = none)
      (lists : scope.Lists block names) :
      Shows scope block [names]
  | inside {block parent : Nat} {names : NameTable LocalId} {outer : VisibleNames}
      (isParent : (scope.block block).parent = some parent)
      (lists : scope.Lists block names)
      (around : Shows scope parent outer) :
      Shows scope block (names :: outer)

/-- A name is found in a scope where it is listed. -/
theorem Lists.lookupIn
    {scope : MethodScope}
    {block : Nat}
    {names : NameTable LocalId}
    (lists : scope.Lists block names)
    (name : String) :
    scope.lookupIn name block = NameTable.find? name names := by
  have search : ∀ ids : List LocalId,
      ids.find? (fun id => (scope.localAt id).name == name) =
        NameTable.find? name (ids.map fun id => ((scope.localAt id).name, id)) := by
    intro ids
    induction ids with
    | nil =>
        rfl
    | cons id rest inductionHypothesis =>
        by_cases same : (scope.localAt id).name = name
        · simp [NameTable.find?, same]
        · have differs : (name == (scope.localAt id).name) = false :=
            beq_eq_false_iff_ne.mpr (Ne.symm same)
          simp only [NameTable.find?] at inductionHypothesis
          simp [NameTable.find?, List.lookup_cons, same, differs, inductionHypothesis]
  rw [lookupIn_eq_find?, ← lists.names]
  exact search _

/-- What a name refers to in a scope is what it means. -/
theorem WellFormed.lookup_eq_meaning?
    {scope : MethodScope}
    (wellFormed : scope.WellFormed)
    {block : Nat}
    {visible : VisibleNames}
    (shows : scope.Shows block visible)
    (name : String) :
    scope.lookup block name = visible.meaning? name := by
  induction shows with
  | @outermost block _ isTop lists =>
      simp [lookup, wellFormed.enclosing_eq block, isTop, VisibleNames.meaning?, lists.lookupIn]
  | @inside block _ _ _ isParent lists around inductionHypothesis =>
      simp only [lookup, VisibleNames.meaning?] at inductionHypothesis ⊢
      simp only [wellFormed.enclosing_eq block, isParent, List.findSome?_cons, lists.lookupIn,
        inductionHypothesis]

/-- A name that refers to a local of the compiler is reserved. -/
theorem Shows.isReservedName_of_lookup
    {scope : MethodScope}
    {block : Nat}
    {visible : VisibleNames}
    (shows : scope.Shows block visible)
    (wellFormed : scope.WellFormed)
    {name : String}
    {id : LocalId}
    (found : scope.lookup block name = some id)
    (isSynthetic : (scope.localAt id).isSynthetic = true) :
    isReservedName (scope.localAt id).name = true := by
  induction shows with
  | @outermost block _ isTop lists =>
      simp only [lookup, wellFormed.enclosing_eq block, isTop, List.findSome?_cons,
        List.findSome?_nil, lookupIn_eq_find?] at found
      split at found
      · cases found
        next isFound =>
          exact lists.reserved id (List.mem_reverse.mp (List.mem_of_find?_eq_some isFound))
            isSynthetic
      · cases found
  | @inside block _ _ _ isParent lists around inductionHypothesis =>
      simp only [lookup, wellFormed.enclosing_eq block, isParent, List.findSome?_cons,
        lookupIn_eq_find?] at found
      split at found
      · cases found
        next isFound =>
          exact lists.reserved id (List.mem_reverse.mp (List.mem_of_find?_eq_some isFound))
            isSynthetic
      · exact inductionHypothesis found

section Later

variable
  {before after : MethodScope}
  (grows : before.Grows after)
  (wellFormed : before.WellFormed)

include grows wellFormed

/-- A block scope that gets no more locals lists the same names. -/
theorem Lists.later
    {block : Nat}
    {names : NameTable LocalId}
    (lists : before.Lists block names)
    (sameLocals : (after.block block).locals = (before.block block).locals) :
    after.Lists block names := by
  have persists : ∀ id ∈ (before.block block).locals,
      (before.localAt id).Persists (after.localAt id) := fun id listed =>
    grows.persists id ((wellFormed.mem_locals block id).mp listed).1
  refine ⟨?_, ?_⟩
  · rw [← lists.names, sameLocals]
    refine List.map_congr_left fun id listed => ?_
    rw [(persists id (List.mem_reverse.mp listed)).name]
  · intro id listed
    rw [sameLocals] at listed
    rw [(persists id listed).isSynthetic, (persists id listed).name]
    exact lists.reserved id listed

/-- A block scope shows the same names while it and those around it get no more
locals. -/
theorem Shows.later
    {block : Nat}
    {visible : VisibleNames}
    (shows : before.Shows block visible)
    (known : block < before.blocks.size)
    (sameLocals : ∀ id ≤ block, (after.block id).locals = (before.block id).locals) :
    after.Shows block visible := by
  induction shows with
  | outermost isTop lists =>
      exact .outermost ((grows.parent _ known).trans isTop)
        (lists.later grows wellFormed (sameLocals _ (Nat.le_refl _)))
  | inside isParent lists around inductionHypothesis =>
      have older := wellFormed.parentOlder isParent
      exact .inside ((grows.parent _ known).trans isParent)
        (lists.later grows wellFormed (sameLocals _ (Nat.le_refl _)))
        (inductionHypothesis (Nat.lt_trans older known)
          fun id within => sameLocals id (Nat.le_trans within (Nat.le_of_lt older)))

end Later

section Steps

variable
  {scope : MethodScope}
  (wellFormed : scope.WellFormed)
  {block : Nat}
  (known : block < scope.blocks.size)
  {visible : VisibleNames}
  (shows : scope.Shows block visible)

include wellFormed known shows

/-- A block scope that is opened declares nothing at first. -/
theorem Shows.openBlock :
    (scope.openBlock block).Shows scope.nextBlock ([] :: visible) := by
  have opened := block_openBlock known scope.blocks.size
  rw [if_pos rfl] at opened
  have noLocals : ((scope.openBlock block).block scope.nextBlock).locals = [] := by
    rw [nextBlock, opened.2, MethodScope.block, Array.getElem?_eq_none (Nat.le_refl _)]
    rfl
  refine .inside opened.1 ⟨by simp [noLocals], by simp [noLocals]⟩ ?_
  exact shows.later (grows_openBlock block scope) wellFormed known
    fun id _ => (block_openBlock known id).2

/-- A local that is declared is visible from then on. -/
theorem Shows.declare
    (entry : LocalVariable)
    (reserved : entry.isSynthetic = true → isReservedName entry.name = true) :
    (scope.declare block entry).Shows block (visible.declare [(entry.name, scope.nextLocal)]) := by
  have grows := grows_declare block entry scope
  have declared := block_declare known entry block
  rw [if_pos rfl] at declared
  have lists : ∀ {names : NameTable LocalId}, scope.Lists block names →
      (scope.declare block entry).Lists block ((entry.name, scope.nextLocal) :: names) := by
    intro names lists
    have older : ∀ id ∈ (scope.block block).locals,
        (scope.declare block entry).localAt id = scope.localAt id := by
      intro id listed
      rw [localAt_declare, if_neg (Nat.ne_of_lt ((wellFormed.mem_locals block id).mp listed).1)]
    have newest : (scope.declare block entry).localAt scope.locals.size =
        { entry with scope := block } := by
      rw [localAt_declare, if_pos rfl]
    refine ⟨?_, ?_⟩
    · rw [declared.2, List.reverse_append, List.map_append, ← lists.names]
      simp only [List.reverse_singleton, List.map_singleton, newest, List.singleton_append,
        nextLocal]
      congr 1
      refine List.map_congr_left fun id listed => ?_
      rw [older id (List.mem_reverse.mp listed)]
    · rw [declared.2]
      intro id listed
      rcases List.mem_append.mp listed with listed | isNewest
      · rw [older id listed]
        exact lists.reserved id listed
      · rw [List.mem_singleton.mp isNewest, newest]
        exact reserved
  cases shows with
  | outermost isTop listed =>
      exact .outermost (declared.1.trans isTop) (lists listed)
  | inside isParent listed around =>
      have older := wellFormed.parentOlder isParent
      refine .inside (declared.1.trans isParent) (lists listed) ?_
      refine around.later grows wellFormed (Nat.lt_trans older known) fun id within => ?_
      rw [(block_declare known entry id).2,
        if_neg (Nat.ne_of_lt (Nat.lt_of_le_of_lt within older))]

end Steps

/-- What is visible around a block scope is visible in the scope it is in. -/
theorem Shows.leave
    {scope : MethodScope}
    {block inner : Nat}
    {names : NameTable LocalId}
    {visible : VisibleNames}
    (shows : scope.Shows inner (names :: visible))
    (isParent : (scope.block inner).parent = some block) :
    scope.Shows block visible := by
  cases shows with
  | outermost isTop _ =>
      rw [isTop] at isParent
      cases isParent
  | inside isInside _ around =>
      rw [isInside] at isParent
      cases isParent
      exact around

end MethodScope

namespace MethodState

/-- Resolution is at a place: its block scope shows the names that are visible
there. -/
structure StandsAt
    (state : MethodState)
    (block : ScopeId)
    (visible : VisibleNames) :
    Prop where
  wellFormed : state.scope.WellFormed
  known : block < state.scope.blocks.size
  shows : state.scope.Shows block visible

namespace StandsAt

variable
  {block : Nat}
  {visible : VisibleNames}
  {state : MethodState}

/-- Marking locals as used stays at a place. -/
theorem afterMarks
    {after : MethodState}
    (stands : state.StandsAt block visible)
    (marks : state.Marks after) :
    after.StandsAt block visible where
  wellFormed := marks.wellFormed stands.wellFormed
  known := marks.known stands.known
  shows := stands.shows.later marks.scope stands.wellFormed stands.known fun id _ => by
    simp [MethodScope.block, marks.sameBlocks]

/-- Opening a block scope enters it. -/
theorem afterOpenBlock
    (stands : state.StandsAt block visible) :
    (state.mapScope (.openBlock block)).StandsAt state.scope.nextBlock ([] :: visible) where
  wellFormed := stands.wellFormed.openBlock stands.known
  known := known_openBlock block state
  shows := stands.shows.openBlock stands.wellFormed stands.known

/-- A block scope is left for the scope it was opened in. -/
theorem leave
    {after : MethodState}
    {names : NameTable LocalId}
    (stands : state.StandsAt block visible)
    (leads : (state.mapScope (.openBlock block)).Leads after)
    (inner : after.StandsAt state.scope.nextBlock (names :: visible)) :
    after.StandsAt block visible where
  wellFormed := inner.wellFormed
  known := Nat.lt_of_lt_of_le stands.known
    ((MethodScope.grows_openBlock block state.scope).trans leads.scope).blockCount
  shows := by
    refine inner.shows.leave ((leads.scope.parent _ (known_openBlock block state)).trans ?_)
    have opened := (MethodScope.block_openBlock stands.known state.scope.blocks.size).1
    rwa [if_pos rfl] at opened

/-- A local that is declared is visible from then on. -/
theorem afterDeclare
    (stands : state.StandsAt block visible)
    (entry : LocalVariable)
    (reserved : entry.isSynthetic = true → isReservedName entry.name = true) :
    (state.mapScope (.declare block entry)).StandsAt block
      (visible.declare [(entry.name, state.scope.nextLocal)]) where
  wellFormed := stands.wellFormed.declare stands.known entry
  known := Nat.lt_of_lt_of_le stands.known
    (MethodScope.grows_declare block entry state.scope).blockCount
  shows := stands.shows.declare stands.wellFormed stands.known entry reserved

/-- Declaring a local of the source makes its name visible. -/
theorem afterDeclareLocal
    (stands : state.StandsAt block visible)
    {entry : LocalVariable}
    (isSource : entry.isSynthetic = false) :
    (declareLocal block entry state).2.StandsAt block
      (visible.declare [(entry.name, (declareLocal block entry state).1)]) :=
  (stands.afterMarks (marks_reportIf _ _ _ _)).afterDeclare entry (by simp [isSource])

/-- Declaring the variable of a declaration makes its name visible. -/
theorem afterDeclaration
    (stands : state.StandsAt block visible)
    (table : ClassTable)
    (decl : LocalDecl) :
    (checkDeclaration table block decl state).state.StandsAt block
      (visible.declare (checkDeclaration table block decl state).node.names) :=
  (stands.afterMarks (marks_resolveType table decl.type state)).afterDeclareLocal rfl

/-- Declaring the locals of a loop makes their names visible. -/
theorem afterSynthetics
    (stands : state.StandsAt block visible)
    (shape : LoopShape)
    (collection : Ty)
    (span : Span) :
    (state.mapScope (.declareSynthetics block shape collection span)).StandsAt block
      (visible.declare (shape.strategyFrom state.scope.nextLocal).names) := by
  have reserved := LoopShape.areReserved_names
  cases shape with
  | array =>
      have declared := ((stands.afterDeclare (.synthetic LoopShape.indexName .int span)
        fun _ => reserved.1).afterDeclare (.synthetic LoopShape.boundName .int span)
          fun _ => reserved.2.1).afterDeclare (.synthetic LoopShape.sourceName collection span)
            fun _ => reserved.2.2
      simp only [mapScope, MethodScope.nextLocal_declare, VisibleNames.declare_declare] at declared
      exact declared
  | rawIterable receiver | genericIterable receiver =>
      exact stands.afterDeclare (.synthetic LoopShape.indexName (.named "Iterator") span)
        fun _ => reserved.1

/-- Resolving a loop makes the names of the locals it needs visible. -/
theorem afterResolveLoop
    (stands : state.StandsAt block visible)
    (table : ClassTable)
    (options : CompilerOptions)
    (declared collection : Ty)
    (span : Span) :
    (resolveLoop table options block declared collection span state).2.StandsAt block
      (visible.declare
        (resolveLoop table options block declared collection span state).1.names) := by
  unfold resolveLoop
  split
  · simpa [LoopClassification.names, LoopClassification.strategy?,
      LoopClassification.resolution?] using stands
  · split
    · simpa [LoopClassification.names, LoopClassification.strategy?,
        LoopClassification.resolution?] using stands.afterMarks (marks_report _ _ _)
    · next classified _ =>
        exact (stands.afterMarks (marks_reportFindings options span classified.findings
          state)).afterSynthetics classified.shape collection span

end StandsAt

end MethodState

end LoopLowering
