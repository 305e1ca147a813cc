import LoopLowering.Proofs.Flow.Histories
import LoopLowering.Proofs.Flow.MethodReachability
import LoopLowering.Proofs.Resolution.ReservedNames

namespace LoopLowering

/-!
# Final locals are assigned once

If flow analysis reports neither invalid jumps nor second assignments to final
locals, every execution assigns a final local at most once between two executions of
its declaration. Flow analysis does not see through a final local that is assigned in
its own initializer, and through one that a branch of a conditional or a labeled
statement declares for the statements behind it.
-/

/-- A statement declares a final local and assigns it in the initial value. -/
def Stmt.assignsItself :
    Stmt → Bool
  | .localVar _ ⟨_, _, some value, true, some id⟩ => value.steps.contains (.assign id)
  | _ => false

namespace LocalHistory

variable
  {id : LocalId}

/-- In a loop a local is assigned once if it is in every iteration. -/
theorem AssignsOnce.iterated
    {labels : List String}
    {element : Option LocalId}
    {body : Histories}
    (once : ∀ history outcome, body history outcome →
      AssignsOnce id false (Histories.binds element ++ history))
    {history : LocalHistory}
    {outcome : TraceEnd}
    (iterated : Histories.Iterated labels element body history outcome) :
    AssignsOnce id false history := by
  induction iterated with
  | exhausted =>
      trivial
  | again taken _ _ inductionHypothesis =>
      exact append inductionHypothesis (once _ _ taken)
  | broken taken =>
      exact once _ _ taken
  | left taken =>
      exact once _ _ taken

/-- A local may be assigned once behind its declaration. -/
theorem AssignsOnce.declared
    {history : LocalHistory}
    (once : history.trace.count (.assign id) ≤ 1) :
    AssignsOnce id false (ofDeclaration (some id) ++ history) := by
  simpa [ofDeclaration, AssignsOnce] using ofCount once

/-- The element of a loop is assigned once in an iteration whose body does not assign it. -/
theorem AssignsOnce.element
    {history : LocalHistory}
    (skips : history.trace.Skips id) :
    AssignsOnce id false (Histories.binds (some id) ++ history) := by
  rw [Histories.binds, List.append_assoc]
  refine declared ?_
  rw [trace_append, trace_ofTrace, List.count_append, (LocalTrace.count_eq_zero_iff _).mpr skips]
  simp [LocalTrace.ofBinding]

/-- In a loop a local is assigned once if it is where the collection is evaluated and in
every iteration. -/
theorem AssignsOnce.loop
    {labels : List String}
    {element : Option LocalId}
    {steps : LocalTrace}
    {body : Histories}
    (evaluated : AssignsOnce id false (ofDeclaration element ++ ofTrace steps))
    (once : ∀ history outcome, body history outcome →
      AssignsOnce id false (Histories.binds element ++ history))
    {history : LocalHistory}
    {outcome : TraceEnd}
    (taken : Histories.followedBy (.only (ofDeclaration element ++ ofTrace steps) .completes)
      (.Iterated labels element body) history outcome) :
    AssignsOnce id false history := by
  rcases taken with ⟨_, later, rfl, ⟨rfl, -⟩, iterated⟩ | ⟨⟨-, rfl⟩, notComplete⟩
  · exact append (AssignsOnce.iterated once iterated) evaluated
  · exact absurd rfl notComplete

end LocalHistory

namespace MethodState

/-- All final locals of a method are watched. -/
def WatchesFinals
    (scopes : MethodScope)
    (state : MethodState) :
    Prop :=
  ∀ id, (scopes.localAt id).isFinal = true →
    state.Watches id (scopes.isWithin (scopes.localAt id).scope)

/-- Marking locals does not change which locals are watched. -/
theorem WatchesFinals.marks
    {scopes : MethodScope}
    {before after : MethodState}
    (watches : before.WatchesFinals scopes)
    (marks : before.Marks after) :
    after.WatchesFinals scopes :=
  fun id isFinal => (watches id isFinal).marks marks

end MethodState

section Statements

variable
  {options : CompilerOptions}
  {scopes : MethodScope}
  {id : Nat}

/-- An expression before the declaration of a local does not assign it. -/
theorem MethodScope.SeesAssigned.skips
    {block limit : Nat}
    {trace : LocalTrace}
    (sees : scopes.SeesAssigned block limit trace)
    (later : limit ≤ id) :
    trace.Skips id :=
  fun assigned => absurd (sees id assigned).1 (Nat.not_lt.mpr later)

/-- Locals that are declared later are not touched. -/
theorem MethodScope.not_touches_of_later
    {block first last : Nat}
    (grows : first ≤ last)
    (later : last ≤ id) :
    ¬scopes.Touches block first last id := by
  rintro (⟨-, before⟩ | ⟨older, -⟩)
  · exact absurd before (Nat.not_lt.mpr later)
  · exact absurd older (Nat.not_lt.mpr (Nat.le_trans grows later))

/-- Older locals that are declared in inner scopes are not touched. -/
theorem MethodScope.not_touches_of_deeper
    (wellFormed : scopes.WellFormed)
    {block first last : Nat}
    (older : id < first)
    (deeper : block < (scopes.localAt id).scope) :
    ¬scopes.Touches block first last id := by
  rintro (⟨after, -⟩ | ⟨-, sees⟩)
  · exact absurd older (Nat.not_lt.mpr after)
  · exact absurd deeper (Nat.not_lt.mpr (wellFormed.le_of_mem_enclosing sees))

/-- A statement in its place does not assign what it does not touch. -/
theorem MethodScope.Places.skips
    (wellFormed : scopes.WellFormed)
    {stmt : Stmt}
    {block first last : Nat}
    (placed : scopes.Places stmt block first last)
    (untouched : ¬scopes.Touches block first last id)
    {labels : List String}
    {history : LocalHistory}
    {outcome : TraceEnd}
    (taken : stmt.histories labels history outcome) :
    history.trace.Skips id :=
  fun assigned => untouched
    (touches_behaviour wellFormed placed (stmt.does_histories labels _ _ taken) assigned)

/-- Statements in their places do not assign what they do not touch. -/
theorem MethodScope.PlacesAll.skips
    (wellFormed : scopes.WellFormed)
    {stmts : List Stmt}
    {block first last : Nat}
    (placed : scopes.PlacesAll stmts block first last)
    (untouched : ¬scopes.Touches block first last id)
    {history : LocalHistory}
    {outcome : TraceEnd}
    (taken : Stmt.allHistories stmts history outcome) :
    history.trace.Skips id :=
  fun assigned => untouched
    (touches_allBehaviour wellFormed placed (Stmt.does_allHistories stmts _ _ taken) assigned)

/-- A declaration assigns its local once if the initial value does not. -/
theorem count_steps_of_not_assignsItself
    {span : Span}
    {decl : LocalDecl}
    (plain : Stmt.assignsItself (.localVar span decl) = false)
    (isFinal : decl.isFinal = true)
    (binding : decl.binding = some id) :
    decl.steps.count (.assign id) ≤ 1 := by
  obtain ⟨name, type, initial, final, bound⟩ := decl
  subst isFinal binding
  cases initial with
  | none =>
      exact Nat.zero_le 1
  | some value =>
      have skips : value.steps.Skips id := by
        simpa [Stmt.assignsItself, LocalTrace.Skips] using plain
      rw [LocalDecl.steps, List.count_append, (LocalTrace.count_eq_zero_iff value.steps).mpr skips]
      simp [LocalTrace.ofBinding]

/-- After a declaration with an initial value its local may be assigned. -/
theorem mayBeAssigned_analyzeDecl
    {decl : LocalDecl}
    (binding : decl.binding = some id)
    {point : FlowPoint}
    (assigns : ¬decl.steps.Skips id) :
    (analyzeDecl options decl point).flow.mayBeAssigned id = true := by
  unfold analyzeDecl
  cases initial : decl.initial with
  | none =>
      simp [LocalDecl.steps, initial] at assigns
  | some value =>
      simp [binding, FlowPoint.mayBeAssigned_assign]

/-- A final local is assigned once in its declaration and the statements behind it. -/
theorem assignsOnce_behind
    (wellFormed : scopes.WellFormed)
    {span : Span}
    {decl : LocalDecl}
    {rest : List Stmt}
    {point : FlowPoint}
    {block middle last : Nat}
    {later : LocalHistory}
    {outcome : TraceEnd}
    (sound : (analyzeDecl options decl point).SoundAll options rest)
    (watches : (analyzeDecl options decl point).state.Watches id
      (scopes.isWithin (scopes.localAt id).scope))
    (placed : scopes.PlacesAll rest block middle last)
    (uninitialized : ∀ head ∈ Stmt.allHeads rest, head.1.initial = none)
    (older : id < middle)
    (plain : Stmt.assignsItself (.localVar span decl) = false)
    (isFinal : decl.isFinal = true)
    (binding : decl.binding = some id)
    (taken : Stmt.allHistories rest later outcome) :
    LocalHistory.AssignsOnce id false (decl.history ++ later) := by
  have guards := guards_analyzeStmts sound
    (liesAfter_of_placesAll wellFormed placed uninitialized older) watches
  have isRest := Stmt.does_allHistories rest later outcome taken
  rw [LocalDecl.history, binding, List.append_assoc]
  refine .declared ?_
  rw [LocalHistory.trace_append, LocalHistory.trace_ofTrace]
  exact LocalTrace.count_append_le (count_steps_of_not_assignsItself plain isFinal binding)
    (guards.once _ _ isRest) fun assigns =>
      guards.absent (mayBeAssigned_analyzeDecl binding assigns) _ _ isRest

mutual

/-- In a statement that is analyzed soundly, the final locals it declares are assigned
once. -/
theorem assignsOnce_analyzeStmt
    (wellFormed : scopes.WellFormed)
    (isFinal : (scopes.localAt id).isFinal = true) :
    ∀ {stmt : Stmt} {labels : List String} {point : FlowPoint} {block first last : Nat}
      {history : LocalHistory} {outcome : TraceEnd},
      point.Sound options stmt labels →
      point.state.WatchesFinals scopes →
      scopes.Places stmt block first last →
      (∀ head ∈ stmt.heads, head.1.initial = none) →
      (∀ part ∈ stmt.parts, part.leaksFinal = false ∧ part.assignsItself = false) →
      first ≤ id → id < last →
      stmt.histories labels history outcome →
      LocalHistory.AssignsOnce id false history
  | .localVar span decl, labels, point, block, first, last, history, outcome, _, _, placed, _,
      plain, after, before, taken => by
      simp only [MethodScope.Places] at placed
      obtain ⟨binding, -, sameFinal, rfl, -⟩ := placed
      obtain rfl : id = first := Nat.le_antisymm (Nat.le_of_lt_succ before) after
      simp only [Stmt.histories] at taken
      obtain ⟨rfl, -⟩ := taken
      have once := count_steps_of_not_assignsItself
        (plain (.localVar span decl) (by simp [Stmt.parts])).2 (sameFinal.symm.trans isFinal)
        binding
      rw [LocalDecl.history, binding]
      exact .declared (by simpa using once)
  | .block _ stmts _, labels, point, block, first, last, history, outcome, sound, watches, placed,
      uninitialized, plain, after, before, taken => by
      simp only [MethodScope.Places] at placed
      obtain ⟨inner, -, inside⟩ := placed
      simp only [Stmt.heads] at uninitialized
      simp only [Stmt.parts, List.forall_mem_cons] at plain
      simp only [Stmt.histories] at taken
      exact assignsOnce_analyzeStmts wellFormed isFinal sound.block watches inside uninitialized
        plain.2 after before taken
  | .branch _ condition thenBranch none, labels, point, block, first, last, history, outcome, sound,
      watches, placed, uninitialized, plain, after, before, taken => by
      simp only [MethodScope.Places] at placed
      obtain ⟨sees, inside⟩ := placed
      simp only [Stmt.heads] at uninitialized
      simp only [Stmt.parts, List.forall_mem_cons] at plain
      simp only [Stmt.histories] at taken
      obtain ⟨-, soundThen⟩ := sound.onlyBranch
      have skips := sees.skips after
      rcases taken with ⟨_, later, rfl, ⟨rfl, -⟩, isThen | ⟨rfl, -⟩⟩ | ⟨⟨-, rfl⟩, notComplete⟩
      · exact .append (assignsOnce_analyzeStmt wellFormed isFinal soundThen
          (watches.marks (marks_analyzeExpr options condition point)) inside uninitialized plain.2
          after before isThen) (.ofSkips false (by simpa using skips))
      · exact .ofSkips false (by simpa using skips)
      · exact absurd rfl notComplete
  | .branch _ condition thenBranch (some elseBranch), labels, point, block, first, last, history,
      outcome, sound, watches, placed, uninitialized, plain, after, before, taken => by
      simp only [MethodScope.Places] at placed
      obtain ⟨sees, middle, inThen, inElse⟩ := placed
      simp only [Stmt.heads, List.forall_mem_append] at uninitialized
      simp only [Stmt.parts, List.forall_mem_cons, List.forall_mem_append] at plain
      simp only [Stmt.histories] at taken
      obtain ⟨-, soundThen, soundElse⟩ := sound.branch
      have testedWatches := watches.marks (marks_analyzeExpr options condition point)
      have tests : LocalHistory.AssignsOnce id false (.ofTrace condition.steps) :=
        .ofSkips false (by simpa using sees.skips after)
      rcases taken with ⟨_, later, rfl, ⟨rfl, -⟩, isThen | isElse⟩ | ⟨⟨-, rfl⟩, notComplete⟩
      · refine .append ?_ tests
        rcases Nat.lt_or_ge id middle with inFirst | inSecond
        · exact assignsOnce_analyzeStmt wellFormed isFinal soundThen testedWatches inThen
            uninitialized.1 plain.2.1 after inFirst isThen
        · exact .ofSkips false (inThen.skips wellFormed
            (MethodScope.not_touches_of_later (MethodScope.Places.le inThen) inSecond) isThen)
      · refine .append ?_ tests
        rcases Nat.lt_or_ge id middle with inFirst | inSecond
        · have notFinal := plain.1.1
          simp only [Stmt.leaksFinal, Bool.or_eq_false_iff] at notFinal
          have deeper := (home_of_places wellFormed isFinal inThen
            (fun part member => (plain.2.1 part member).1) after inFirst).resolve_left
              (by simp [notFinal.1])
          exact .ofSkips false (inElse.skips wellFormed
            (MethodScope.not_touches_of_deeper wellFormed inFirst deeper) isElse)
        · exact assignsOnce_analyzeStmt wellFormed isFinal soundElse
            (testedWatches.marks (marks_analyzeStmt options thenBranch _)) inElse uninitialized.2
            plain.2.2 inSecond before isElse
      · exact absurd rfl notComplete
  | .forEach span element collection none facts, labels, point, block, first, last, history,
      outcome, sound, watches, placed, uninitialized, _, after, before, taken => by
      simp only [MethodScope.Places] at placed
      obtain ⟨inner, loop⟩ := placed
      obtain rfl := loop.eq_first_of_final isFinal after before
      simp only [Stmt.heads, List.forall_mem_singleton] at uninitialized
      obtain ⟨scope, -, sparesEntry, -⟩ := sound.bareLoop
      obtain ⟨_, -, steps, -⟩ :=
        guards_enterLoop uninitialized (watches id isFinal) sound.reached sparesEntry
      simp only [Stmt.histories, loop.binding] at taken
      refine .loop (.declared (by simpa using steps.once)) ?_ taken
      rintro _ _ ⟨rfl, -⟩
      exact .element (LocalTrace.skips_nil id)
  | .forEach span element collection (some action) facts, labels, point, block, first, last,
      history, outcome, sound, watches, placed, uninitialized, plain, after, before, taken => by
      simp only [MethodScope.Places] at placed
      obtain ⟨inner, middle, loop, inside⟩ := placed
      simp only [Stmt.heads, List.forall_mem_cons] at uninitialized
      simp only [Stmt.parts, List.forall_mem_cons] at plain
      obtain ⟨scope, -, sparesEntry, soundBody, -⟩ := sound.loop
      have bodyWatches := watches.marks (marks_enterLoop options scope element collection point)
      simp only [Stmt.histories, loop.binding] at taken
      rcases Nat.lt_or_ge id middle with inHead | inBody
      · obtain rfl := loop.eq_first_of_final isFinal after inHead
        obtain ⟨_, -, steps, -, bodyFlow, enteredFlow⟩ :=
          guards_enterLoop uninitialized.1 (watches id isFinal) sound.reached sparesEntry
        have isAssigned : (enterLoop options scope element collection
            point).body.flow.mayBeAssigned id = true := by
          simp [bodyFlow, enteredFlow, loop.binding]
        obtain ⟨-, guards, -⟩ := guards_analyzeBody
          ((enters_enterLoop options scope element collection point).bodyReachable.trans
            sound.reached) fun analyzed => ⟨(soundBody analyzed).follows,
              guards_analyzeStmt (soundBody analyzed)
                (liesAfter_of_places wellFormed inside uninitialized.2 inHead)
                (bodyWatches id isFinal)⟩
        exact .loop (.declared (by simpa using steps.once)) (fun history outcome isBody =>
          .element (guards.absent isAssigned _ _ (action.does_histories [] _ _ isBody))) taken
      · have isOther : first ≠ id := Nat.ne_of_lt (Nat.lt_of_lt_of_le loop.declares inBody)
        have evaluated : LocalHistory.AssignsOnce id false
            (.ofDeclaration (some first) ++ .ofTrace collection.steps) :=
          .ofSkips false (by simpa using loop.collection.skips (Nat.le_trans loop.declares inBody))
        refine .loop evaluated (fun history outcome isBody => ?_) taken
        refine .append ?_ (.ofSkips false (by simp [isOther]))
        cases skips : skipsAction options action with
        | true =>
            obtain ⟨⟨_, _, rfl⟩, -⟩ := Stmt.eq_emptyBlock_of_skipsAction skips
            simp only [Stmt.histories, Stmt.allHistories] at isBody
            obtain ⟨rfl, -⟩ := isBody
            exact .ofSkips false (LocalTrace.skips_nil id)
        | false =>
            exact assignsOnce_analyzeStmt wellFormed isFinal (soundBody skips) bodyWatches inside
              uninitialized.2 plain.2 inBody before isBody
  | .labeled _ label body, labels, point, block, first, last, history, outcome, sound, watches,
      placed, uninitialized, plain, after, before, taken => by
      simp only [MethodScope.Places] at placed
      simp only [Stmt.heads] at uninitialized
      simp only [Stmt.parts, List.forall_mem_cons] at plain
      simp only [Stmt.histories] at taken
      obtain ⟨ending, isBody, -⟩ := taken
      exact assignsOnce_analyzeStmt wellFormed isFinal sound.labeled watches placed uninitialized
        plain.2 after before isBody
  | .expr .., _, _, _, _, _, _, _, _, _, placed, _, _, after, before, _
  | .returnWith _ (some _), _, _, _, _, _, _, _, _, _, placed, _, _, after, before, _ => by
      simp only [MethodScope.Places] at placed
      exact absurd before (Nat.not_lt.mpr (placed.1 ▸ after))
  | .breakTo .., _, _, _, _, _, _, _, _, _, placed, _, _, after, before, _
  | .continueTo .., _, _, _, _, _, _, _, _, _, placed, _, _, after, before, _
  | .returnWith _ none, _, _, _, _, _, _, _, _, _, placed, _, _, after, before, _
  | .empty _, _, _, _, _, _, _, _, _, _, placed, _, _, after, before, _ => by
      simp only [MethodScope.Places] at placed
      exact absurd before (Nat.not_lt.mpr (placed ▸ after))

theorem assignsOnce_analyzeStmts
    (wellFormed : scopes.WellFormed)
    (isFinal : (scopes.localAt id).isFinal = true) :
    ∀ {stmts : List Stmt} {point : FlowPoint} {block first last : Nat} {history : LocalHistory}
      {outcome : TraceEnd},
      point.SoundAll options stmts →
      point.state.WatchesFinals scopes →
      scopes.PlacesAll stmts block first last →
      (∀ head ∈ Stmt.allHeads stmts, head.1.initial = none) →
      (∀ part ∈ Stmt.allParts stmts, part.leaksFinal = false ∧ part.assignsItself = false) →
      first ≤ id → id < last →
      Stmt.allHistories stmts history outcome →
      LocalHistory.AssignsOnce id false history
  | [], _, _, _, _, _, _, _, _, placed, _, _, after, before, _ => by
      simp only [MethodScope.PlacesAll] at placed
      exact absurd before (Nat.not_lt.mpr (placed ▸ after))
  | stmt :: rest, point, block, first, last, history, outcome, sound, watches, placed,
      uninitialized, plain, after, before, taken => by
      simp only [MethodScope.PlacesAll] at placed
      obtain ⟨middle, head, tail⟩ := placed
      simp only [Stmt.allHeads, List.forall_mem_append] at uninitialized
      simp only [Stmt.allParts, List.forall_mem_append] at plain
      simp only [Stmt.allHistories] at taken
      obtain ⟨soundHead, soundRest⟩ := sound.cons
      have restWatches := watches.marks (marks_analyzeStmt options stmt point)
      rcases taken with ⟨earlier, later, rfl, isHead, isRest⟩ | ⟨isHead, -⟩
      · have goesOn := soundHead.follows.completes.mpr ⟨_, stmt.does_histories [] _ _ isHead⟩
        rcases Nat.lt_or_ge id middle with inHead | inTail
        · rcases home_of_places wellFormed isFinal head
            (fun part member => (plain.1 part member).1) after inHead with ⟨declares, -⟩ | deeper
          · cases stmt with
            | localVar span decl =>
                simp only [MethodScope.Places] at head
                obtain ⟨binding, -, sameFinal, rfl, -⟩ := head
                obtain rfl : id = first := Nat.le_antisymm (Nat.le_of_lt_succ inHead) after
                simp only [Stmt.histories] at isHead
                obtain ⟨rfl, -⟩ := isHead
                simp only [analyzeStmt] at soundRest goesOn restWatches
                exact assignsOnce_behind wellFormed (soundRest goesOn) (restWatches id isFinal) tail
                  uninitialized.2 inHead (plain.1 (.localVar span decl) (by simp [Stmt.parts])).2
                  (sameFinal.symm.trans isFinal) binding isRest
            | _ =>
                cases declares
          · exact .append (.ofSkips false (tail.skips wellFormed
                (MethodScope.not_touches_of_deeper wellFormed inHead deeper) isRest))
              (assignsOnce_analyzeStmt wellFormed isFinal soundHead watches head uninitialized.1
                plain.1 after inHead isHead)
        · exact .append (assignsOnce_analyzeStmts wellFormed isFinal (soundRest goesOn) restWatches
              tail uninitialized.2 plain.2 inTail before isRest)
            (.ofSkips false (head.skips wellFormed
              (MethodScope.not_touches_of_later (MethodScope.Places.le head) inTail) isHead))
      · rcases Nat.lt_or_ge id middle with inHead | inTail
        · exact assignsOnce_analyzeStmt wellFormed isFinal soundHead watches head uninitialized.1
            plain.1 after inHead isHead
        · exact .ofSkips false (head.skips wellFormed
            (MethodScope.not_touches_of_later (MethodScope.Places.le head) inTail) isHead)

end

end Statements

section Methods

variable
  {table : ClassTable}
  {options : CompilerOptions}
  {method : Method}
  {id : Nat}

/-- The histories of a method: its parameters are declared and assigned first of all. -/
def Method.histories
    (method : Method) :
    Histories :=
  fun history outcome => ∃ body, Stmt.allHistories method.body.stmts body outcome ∧
    history = method.params.flatMap (fun param => Histories.binds param.binding) ++ body

/-- Parameters are assigned once where a method starts. -/
theorem assignsOnce_params :
    ∀ (params : List Param),
      LocalHistory.AssignsOnce id false
        (params.flatMap fun param => Histories.binds param.binding)
  | [] => trivial
  | param :: rest => by
      rw [List.flatMap_cons]
      refine .append (assignsOnce_params rest) ?_
      by_cases same : param.binding = some id
      · rw [same, ← List.append_nil (Histories.binds (some id))]
        exact .element (LocalTrace.skips_nil id)
      · exact .ofSkips false (by simpa using same)

/-- The locals that are declared with the parameters are bound to them. -/
theorem mem_bindings_checkParams
    (table : ClassTable) :
    ∀ (params : List Param) (state : MethodState),
      state.scope.locals.size ≤ id →
      id < (checkParams table params state).state.scope.locals.size →
      id ∈ (checkParams table params state).node.filterMap Param.binding
  | [], state, after, before => absurd before (Nat.not_lt.mpr after)
  | param :: rest, state, after, before => by
      have marks := marks_resolveType table param.type state
      obtain ⟨isNext, size⟩ := CodeContext.size_declareLocal MethodScope.root
        { LocalVariable.declared param.name.node (resolveType table param.type state).1
            param.name.span with isParam := true, isFinal := param.isFinal }
        (resolveType table param.type state).2
      rw [marks.sameCount] at isNext size
      simp only [checkParams] at before
      have first : Param.binding { param with binding := some (declareLocal MethodScope.root
          { LocalVariable.declared param.name.node (resolveType table param.type state).1
              param.name.span with isParam := true, isFinal := param.isFinal }
          (resolveType table param.type state).2).1 } = some state.scope.locals.size :=
        congrArg some isNext
      simp only [checkParams]
      rw [List.filterMap_cons_some first, List.mem_cons]
      rcases Nat.eq_or_lt_of_le after with same | later
      · exact .inl same.symm
      · exact .inr (mem_bindings_checkParams table rest _ (size ▸ later) before)

/-- Where the body of a method starts, its parameters may be assigned. -/
theorem mayBeAssigned_atBody
    {params : List Param}
    (isParam : id ∈ params.filterMap Param.binding)
    (state : MethodState) :
    (FlowPoint.atBody params state).flow.mayBeAssigned id = true := by
  have step : ∀ (ids : List LocalId) (flow : FlowState),
      flow.mayBeAssigned id = true ∨ id ∈ ids →
      (ids.foldl (fun flow id => flow.assign id) flow).mayBeAssigned id = true := by
    intro ids
    induction ids with
    | nil =>
        exact fun flow may => may.resolve_right List.not_mem_nil
    | cons first rest inductionHypothesis =>
        intro flow may
        refine inductionHypothesis (flow.assign first) ?_
        rw [FlowState.mayBeAssigned_assign, Bool.or_eq_true, decide_eq_true_eq]
        rcases may with earlier | member
        · exact .inl (.inl earlier)
        · exact (List.mem_cons.mp member).imp_left fun same => .inr same.symm
  exact step _ _ (.inr isParam)

/-- In a method in which flow analysis reports neither invalid jumps nor second
assignments to final locals, every execution assigns a final local only after its
declaration has been executed, and at most once until it is executed again. -/
theorem finals_assigned_once
    (fresh : Stmt.AreFresh (Stmt.allParts method.body.stmts))
    (uninitialized : method.elementsUninitialized = true)
    (plain : ∀ part ∈ Stmt.allParts (checkMethod table options method .initial).node.body.stmts,
      part.leaksFinal = false ∧ part.assignsItself = false)
    (spared : ∀ diagnostic ∈ method.flowReports table options, ¬diagnostic.problem.spoilsFinals)
    (isFinal : ((checkMethod table options method .initial).state.localAt id).isFinal = true)
    {history : LocalHistory}
    {outcome : TraceEnd}
    (taken : (checkMethod table options method .initial).node.histories history outcome) :
    history.AssignsOnce id false := by
  have freshBody : Stmt.AreFresh
      (Stmt.allParts (checkMethod table options method .initial).node.body.stmts) :=
    fresh.checkStmts MethodScope.root (method.bodyState table)
  have wellFormed := method.wellFormed_bodyState table
  obtain ⟨-, confines⟩ := @confines_checkStmts table options method.body.stmts MethodScope.root
    (method.bodyState table) wellFormed wellFormed.root
  obtain ⟨found, isFound, -⟩ := @cuts_analyzeStmts options _
    (.atBody (checkMethod table options method .initial).node.params
      (checkMethod table options method .initial).state) freshBody
  obtain ⟨missing, reports, -⟩ := @flowReports_eq table options method found isFound
  rw [reports] at spared
  have sound : FlowPoint.SoundAll options
      (.atBody (checkMethod table options method .initial).node.params
        (checkMethod table options method .initial).state)
      (checkMethod table options method .initial).node.body.stmts :=
    ⟨confines, freshBody, rfl, reachable_atBody _ _, found, isFound, fun diagnostic member =>
      spared diagnostic (List.mem_append_left _ member)⟩
  have wellFormedLater : (checkMethod table options method .initial).state.scope.WellFormed :=
    wellFormed_checkStmts wellFormed wellFormed.root
  have placed := @places_checkStmts table options _ wellFormedLater method.body.stmts
    MethodScope.root (method.bodyState table) wellFormed wellFormed.root (.refl _)
  have heads : ∀ head ∈ Stmt.allHeads (checkMethod table options method .initial).node.body.stmts,
      head.1.initial = none := fun head member =>
    initial_checkMethod table options uninitialized member
  have watches : (checkMethod table options method .initial).state.WatchesFinals
      (checkMethod table options method .initial).state.scope := fun id isFinal => ⟨isFinal, rfl⟩
  obtain ⟨body, isBody, rfl⟩ := taken
  rcases Nat.lt_or_ge id (method.bodyState table).scope.locals.size with isParam | isLocal
  · have noLocals : (method.signatureState table).scope.locals.size = 0 := by
      rw [Method.scope_signatureState]
      rfl
    have isBound := mem_bindings_checkParams table method.params (method.signatureState table)
      (noLocals ▸ Nat.zero_le id) isParam
    have guards := guards_analyzeStmts sound
      (liesAfter_of_placesAll wellFormedLater placed heads isParam) (watches id isFinal)
    exact .append (.ofSkips false (guards.absent (mayBeAssigned_atBody isBound _) _ _
      (Stmt.does_allHistories _ _ _ isBody))) (assignsOnce_params _)
  · exact .append (assignsOnce_analyzeStmts wellFormedLater isFinal sound watches placed heads plain
      isLocal (watches id isFinal).known isBody) (assignsOnce_params _)

end Methods

/-- A method that looks for the first of some values. -/
def Method.assignsFirst :
    Method where
  name := ⟨"m", .absent⟩
  typeParams := []
  params := [⟨⟨"values", .absent⟩, .array .absent (.named .absent "int"), true, none⟩]
  returnType := none
  body := {
    span := .absent
    stmts := [
      .localVar .absent ⟨⟨"first", .absent⟩, .named .absent "int", none, true, none⟩,
      .forEach .absent ⟨⟨"value", .absent⟩, .named .absent "int", none, true, none⟩
        (.name .absent (.unbound "values"))
        (some (.block .absent [
          .expr .absent (.assign .absent ⟨.unbound "first", .absent⟩ none
            (.name .absent (.unbound "value"))),
          .breakTo .absent none] .initial))
        .initial]
    facts := .initial
  }

/-- The local behind the parameter is assigned in the loop, and only once, as the loop
is left then. -/
theorem assignsFirst_assignsOnce :
    Stmt.AreFresh (Stmt.allParts Method.assignsFirst.body.stmts) ∧
      Method.assignsFirst.elementsUninitialized = true ∧
      (∀ part ∈ Stmt.allParts
          (checkMethod .builtin .standard .assignsFirst .initial).node.body.stmts,
        part.leaksFinal = false ∧ part.assignsItself = false) ∧
      (∀ diagnostic ∈ Method.assignsFirst.flowReports .builtin .standard,
        ¬diagnostic.problem.spoilsFinals) ∧
      ((checkMethod .builtin .standard .assignsFirst .initial).state.localAt 1).isFinal = true ∧
      ∀ history outcome,
        (checkMethod .builtin .standard .assignsFirst .initial).node.histories history outcome →
        history.AssignsOnce 1 false := by
  have fresh : Stmt.AreFresh (Stmt.allParts Method.assignsFirst.body.stmts) := by
    unfold Stmt.AreFresh
    decide +kernel
  have uninitialized : Method.assignsFirst.elementsUninitialized = true := by
    decide +kernel
  have plain : ∀ part ∈ Stmt.allParts
      (checkMethod .builtin .standard .assignsFirst .initial).node.body.stmts,
      part.leaksFinal = false ∧ part.assignsItself = false := by
    decide +kernel
  have silent : Method.assignsFirst.flowReports .builtin .standard = [] := by
    decide +kernel
  have spared : ∀ diagnostic ∈ Method.assignsFirst.flowReports .builtin .standard,
      ¬diagnostic.problem.spoilsFinals := by
    simp [silent]
  have isFinal : ((checkMethod .builtin .standard .assignsFirst .initial).state.localAt
      1).isFinal = true := by
    decide +kernel
  exact ⟨fresh, uninitialized, plain, spared, isFinal, fun _ _ taken =>
    finals_assigned_once fresh uninitialized plain spared isFinal taken⟩

end LoopLowering
