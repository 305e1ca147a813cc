import LoopLowering.Proofs.Flow.FinalAnalysis

namespace LoopLowering

/-!
# Loops guard final locals

An iteration that lets its loop go on does not assign a final local from outside
the loop, as the assignment was deferred to the loop and would have been reported.
So only the last iteration of a loop assigns it.
-/

namespace Behaviour

/-- If no iteration that lets the loop go on assigns a local, only the last one does. -/
theorem Iterated.assigns_last
    {labels : List String}
    {element : Option LocalId}
    {body : Behaviour}
    {id : LocalId}
    {trace : LocalTrace}
    {outcome : TraceEnd}
    (other : element ≠ some id)
    (goesOn : ∀ trace outcome, body trace outcome → outcome.resumes labels = true →
      trace.Skips id)
    (iterated : Iterated labels element body trace outcome) :
    (outcome = .completes ∧ trace.count (.assign id) = 0) ∨
      ∃ taken ending, body taken ending ∧ ending.resumes labels = false ∧
        trace.count (.assign id) = taken.count (.assign id) ∧
        (ending = .breaks none ∧ outcome = .completes ∨
          ending ≠ .breaks none ∧ outcome = ending) := by
  have noElement : (LocalTrace.ofBinding .assign element).count (.assign id) = 0 :=
    (LocalTrace.count_eq_zero_iff _).mpr ((LocalTrace.skips_assign element).mpr other)
  induction iterated with
  | exhausted =>
      exact .inl ⟨rfl, rfl⟩
  | @again taken rest ending outcome isBody resumed _ inductionHypothesis =>
      have noBody := (LocalTrace.count_eq_zero_iff taken).mpr (goesOn taken ending isBody resumed)
      simpa only [List.count_append, noElement, noBody, Nat.zero_add] using inductionHypothesis
  | @broken taken isBody =>
      exact .inr ⟨taken, _, isBody, rfl, by rw [List.count_append, noElement, Nat.zero_add],
        .inl ⟨rfl, rfl⟩⟩
  | @left taken ending isBody resumed notBreak =>
      exact .inr ⟨taken, ending, isBody, resumed,
        by rw [List.count_append, noElement, Nat.zero_add], .inr ⟨notBreak, rfl⟩⟩

end Behaviour

section Loops

variable
  {options : CompilerOptions}
  {id : LocalId}
  {around : ScopeId → Bool}

/-- An assignment that a further iteration repeats is reported. -/
theorem not_spares_settleFinals
    {bodyEnd : FlowState}
    (may : bodyEnd.mayBeAssigned id = true)
    {span : Span} :
    ∀ {deferred : List (LocalId × Span)} (point : FlowPoint),
      (id, span) ∈ deferred →
      ¬point.state.Spares Problem.spoilsFinals (settleFinals deferred bodyEnd point).state
  | use :: rest, point, member => by
      intro sound
      rw [settleFinals, List.foldl_cons, ← settleFinals] at sound
      rcases List.mem_cons.mp member with rfl | later
      · rw [if_pos may] at sound
        obtain ⟨reported, -⟩ := sound.split
          (MethodState.Cuts.report (by simp [Issue.problem]) span point.state)
          (FlowPoint.Steady.settleFinals bodyEnd rest _).cuts
        exact MethodState.not_spares_report (.inr rfl) span point.state reported
      · have first : point.state.Cuts (if bodyEnd.mayBeAssigned use.1 = true then
            point.report (.finalReassigned (point.nameOf use.1)) use.2 else point).state [] := by
          split
          · exact .report (by simp [Issue.problem]) use.2 point.state
          · exact .refl _
        exact not_spares_settleFinals may _ later
          (sound.split first (FlowPoint.Steady.settleFinals bodyEnd rest _).cuts).2

variable
  {element : LocalDecl}
  {facts : LoopFacts}
  {entry : LoopEntry}
  {body : LoopBody}
  {record : LoopRecord}

/-- Reporting uses of null assigns nothing. -/
theorem tracks_settleNulls
    (onEntry : FlowState)
    (backEdge : Option FlowState) :
    ∀ (deferred : List (LocalId × Span)) (point : FlowPoint),
      point.jumps.Tracks id around (deferred.foldl (settleNull onEntry backEdge) point).jumps
        (fun _ => False) False
  | [], _ => .refl _
  | use :: rest, point => by
      rw [List.foldl_cons]
      have first : point.jumps.Tracks id around (settleNull onEntry backEdge point use).jumps
          (fun _ => False) False := by
        simp only [settleNull]
        split <;> first | exact .refl _ | exact .deferNull _ _ _ _ _
      exact (first.trans (tracks_settleNulls onEntry backEdge rest _)).mono (by simp) (by simp)

/-- Leaving a loop of which a record is kept assigns nothing at the targets around it. -/
theorem tracks_leaveLoopWith
    (point : FlowPoint) :
    point.jumps.Tracks id around
      (leaveLoopWith options element facts entry body record point).point.jumps
      (fun _ => False) False := by
  have reported : ∀ (settled : FlowPoint), settled.jumps = point.jumps →
      ∀ onEntry backEdge, point.jumps.Tracks id around
        (record.deferredNulls.foldl (settleNull onEntry backEdge) settled).jumps
        (fun _ => False) False := by
    intro settled same onEntry backEdge
    rw [← same]
    exact tracks_settleNulls onEntry backEdge record.deferredNulls settled
  simp only [leaveLoopWith]
  refine reported _ ?_ _ _
  change (if _ then _ else _ : FlowPoint).jumps = _
  split
  · exact jumps_settleFinals _ _ _
  · rfl

/-- A loop that repeats its body settles what was deferred to it. -/
theorem spares_settleFinals
    {point : FlowPoint}
    (sound : point.state.Spares Problem.spoilsFinals
      (leaveLoopWith options element facts entry body record point).point.state)
    (analyzed : body.analyzed = true)
    (goesOn : body.finish.flow.reachable = true ∨ record.onContinue.reachable = true) :
    point.state.Spares Problem.spoilsFinals (settleFinals record.deferredFinals
      (body.finish.flow.merge record.onContinue) point).state := by
  have continues : (!true || body.finish.flow.reachable || record.onContinue.reachable) = true := by
    rcases goesOn with reached | reached <;> simp [reached]
  have reports : ∀ (settled : FlowPoint) change onEntry backEdge flow, settled.state.Cuts
      ((record.deferredNulls.foldl (settleNull onEntry backEdge)
        { settled with state := settled.state.mapScope change }).state.addCheckpoint flow) [] :=
    fun _ _ onEntry backEdge _ =>
      (FlowPoint.Steady.settleNulls onEntry backEdge record.deferredNulls _).cuts
  simp only [leaveLoopWith, analyzed, continues, Bool.and_self, if_true] at sound
  exact (sound.split (FlowPoint.Steady.settleFinals _ _ point).cuts (reports _ _ _ _ _)).1

/-- What may be assigned behind a loop: what may be when the collection has run out, and
what may be at a break. -/
theorem mayBeAssigned_leaveLoopWith
    {point : FlowPoint}
    (entered : entry.entered.reachable = true)
    (may : entry.entered.mayBeAssigned id = true ∨
      record.onBreak.reachable = true ∧ record.onBreak.mayBeAssigned id = true) :
    (leaveLoopWith options element facts entry body record point).point.flow.mayBeAssigned id =
      true := by
  change (FlowState.merge _ _).mayBeAssigned id = true
  rw [FlowState.mayBeAssigned_merge, Bool.or_eq_true]
  rcases may with exhausted | ⟨reached, broken⟩
  · right
    split
    · split <;> simp [FlowState.mayBeAssigned_afterRun _ entered, exhausted]
    · exact exhausted
  · left
    rw [if_pos reached, FlowState.mayBeAssigned_afterRun _ reached, broken, Bool.or_true]

/-- Leaving a loop after its body guards a final local from outside the loop if the body
does. -/
theorem guards_leaveLoop
    {point : FlowPoint}
    {scope : ScopeId}
    {behaviour : Behaviour}
    {labels : List String}
    (isPushed : entry.body.jumps = point.jumps.pushLoop scope entry.before)
    (bodyFlow : entry.body.flow.mayBeAssigned id = point.flow.mayBeAssigned id)
    (enteredFlow : entry.entered.mayBeAssigned id = point.flow.mayBeAssigned id)
    (entered : entry.entered.reachable = true)
    (outside : around scope = false)
    (other : element.binding ≠ some id)
    (named : JumpStack.HasLabels labels point.jumps)
    (follows : entry.body.Follows body.finish behaviour)
    (guards : entry.body.Guards id around body.finish behaviour)
    (passedOver : body.analyzed = false → ∀ trace outcome, behaviour trace outcome →
      trace.Skips id)
    (sound : body.finish.state.Spares Problem.spoilsFinals
      (leaveLoop options element facts entry body).point.state) :
    point.Guards id around (leaveLoop options element facts entry body).point
      (.Iterated labels element.binding behaviour) := by
  have arrives := follows.arrives
  have tracks := guards.tracks
  rw [isPushed] at arrives tracks
  match isJumps : body.finish.jumps, arrives, tracks with
  | .loop record :: rest, ⟨onBreak, onContinue, arrived⟩, ⟨_, mayBreak, mayContinue, _, defers,
      tracked⟩ =>
      rw [leaveLoop_eq _ _ _ _ _ isJumps] at sound ⊢
      have resumes : ∀ {trace outcome}, behaviour trace outcome →
          (outcome.resumes labels = true ↔ outcome = .completes ∨ point.jumps.Continues outcome) :=
        fun isBody => named.resumes_iff arrived ⟨_, isBody⟩
      have goesOn : ∀ trace outcome, behaviour trace outcome → outcome.resumes labels = true →
          trace.Skips id := by
        intro trace outcome isBody resumed
        refine Classical.byContradiction fun assigns => ?_
        obtain ⟨span, deferred⟩ := defers outside ⟨trace, outcome, isBody, assigns⟩
        have analyzed : body.analyzed = true := by
          refine (Bool.eq_false_or_eq_true body.analyzed).resolve_right fun notAnalyzed => ?_
          exact assigns (passedOver notAnalyzed trace outcome isBody)
        have repeated : (body.finish.flow.reachable = true ∨ record.onContinue.reachable = true) ∧
            (body.finish.flow.merge record.onContinue).mayBeAssigned id = true := by
          rw [FlowState.mayBeAssigned_merge, Bool.or_eq_true]
          rcases (resumes isBody).mp resumed with rfl | isContinue
          · exact ⟨.inl (follows.completes.mpr ⟨trace, isBody⟩),
              .inl (guards.completes trace isBody (.inr assigns))⟩
          · exact ⟨.inr (onContinue.mpr (.inr ⟨outcome, ⟨trace, isBody⟩, isContinue⟩)),
              .inr (mayContinue (.inr ⟨outcome, ⟨trace, isBody, .inr assigns⟩, isContinue⟩))⟩
        exact not_spares_settleFinals repeated.2 _ deferred
          (spares_settleFinals sound analyzed repeated.1)
      have last := fun trace outcome => @Behaviour.Iterated.assigns_last labels element.binding
        behaviour id trace outcome other goesOn
      have mayTaken : ∀ {trace taken : LocalTrace},
          trace.count (.assign id) = taken.count (.assign id) →
          point.MayAssign id trace → entry.body.MayAssign id taken := by
        intro trace taken same may
        rwa [FlowPoint.MayAssign, bodyFlow, ← LocalTrace.count_eq_zero_iff, ← same,
          LocalTrace.count_eq_zero_iff]
      have settled := @tracks_leaveLoopWith options id around element facts entry body record
        { body.finish with jumps := rest }
      refine ⟨?_, ?_, ?_, (tracked.trans settled).mono ?_ ?_⟩
      · intro may trace outcome iterated
        rw [← LocalTrace.count_eq_zero_iff]
        rcases last trace outcome iterated with ⟨-, none⟩ | ⟨taken, ending, isBody, -, same, -⟩
        · exact none
        · rw [same, LocalTrace.count_eq_zero_iff]
          exact guards.absent (bodyFlow.trans may) taken ending isBody
      · intro trace outcome iterated
        rcases last trace outcome iterated with ⟨-, none⟩ | ⟨taken, ending, isBody, -, same, -⟩
        · rw [none]
          exact Nat.zero_le 1
        · rw [same]
          exact guards.once taken ending isBody
      · intro trace iterated may
        refine mayBeAssigned_leaveLoopWith entered ?_
        rcases last trace _ iterated with ⟨-, none⟩ |
            ⟨taken, ending, isBody, stops, same, ⟨rfl, -⟩ | ⟨-, rfl⟩⟩
        · rw [LocalTrace.count_eq_zero_iff] at none
          exact .inl (enteredFlow.trans (may.resolve_right (not_not_intro none)))
        · exact .inr ⟨onBreak.mpr (.inr ⟨taken, isBody⟩),
            mayBreak (.inr ⟨taken, isBody, mayTaken same may⟩)⟩
        · cases stops
      · have ends : ∀ outcome, outcome ≠ .completes →
            (∃ trace, Behaviour.Iterated labels element.binding behaviour trace outcome ∧
              point.MayAssign id trace) →
            (∃ trace, behaviour trace outcome ∧ entry.body.MayAssign id trace) ∧
              outcome ≠ .breaks none ∧ ¬point.jumps.Continues outcome := by
          rintro outcome leaves ⟨trace, iterated, may⟩
          rcases last trace outcome iterated with ⟨completes, -⟩ |
              ⟨taken, ending, isBody, stops, same, ⟨-, completes⟩ | ⟨notBreak, rfl⟩⟩
          · exact absurd completes leaves
          · exact absurd completes leaves
          · refine ⟨⟨taken, isBody, mayTaken same may⟩, notBreak, fun isContinue => ?_⟩
            rw [(resumes isBody).mpr (.inr isContinue)] at stops
            cases stops
        exact fun label => ⟨fun left => .inl (ends _ (by simp) left),
          fun left => .inl (ends _ (by simp) left)⟩
      · rintro ⟨trace, outcome, iterated, assigns⟩
        rcases last trace outcome iterated with ⟨-, none⟩ | ⟨taken, ending, isBody, -, same, -⟩
        · exact absurd ((LocalTrace.count_eq_zero_iff trace).mp none) assigns
        · refine .inl ⟨outside, taken, ending, isBody, ?_⟩
          rwa [← LocalTrace.count_eq_zero_iff, ← same, LocalTrace.count_eq_zero_iff]

end Loops

/-!
## Statements guard final locals

In a statement that neither declares a final local nor contains its declaration's
scope, flow analysis keeps every execution from assigning the local twice.
-/

/-- A statement itself is no declaration of a local, and no loop around it. Elements of
loops are not initialized. -/
def Stmt.LiesAfter
    (id : LocalId)
    (around : ScopeId → Bool) :
    Stmt → Prop
  | .localVar _ decl => decl.binding ≠ some id
  | .forEach _ element _ _ facts =>
      element.binding ≠ some id ∧ element.initial = none ∧
        ∀ scope, facts.scope = some scope → around scope = false
  | _ => True

section Behaviours

variable
  {options : CompilerOptions}

mutual

/-- Flow analysis does not change what a statement does. -/
theorem behaviour_analyzeStmt :
    ∀ (stmt : Stmt) (point : FlowPoint) (labels : List String),
      (analyzeStmt options stmt point).node.behaviour labels = stmt.behaviour labels
  | .localVar .., point, labels | .expr .., point, labels | .breakTo .., point, labels
  | .continueTo .., point, labels | .returnWith _ none, point, labels
  | .returnWith _ (some _), point, labels | .empty _, point, labels => by
      simp only [analyzeStmt]
  | .block _ stmts _, point, labels => by
      simp only [analyzeStmt, Stmt.behaviour]
      exact allBehaviour_analyzeStmts stmts point
  | .branch _ condition thenBranch none, point, labels => by
      simp only [analyzeStmt, Stmt.behaviour]
      rw [behaviour_analyzeStmt thenBranch]
  | .branch _ condition thenBranch (some elseBranch), point, labels => by
      simp only [analyzeStmt, Stmt.behaviour]
      rw [behaviour_analyzeStmt thenBranch, behaviour_analyzeStmt elseBranch]
  | .forEach _ element collection none facts, point, labels => by
      simp only [analyzeStmt]
      split <;> simp only [Stmt.behaviour]
  | .forEach _ element collection (some action) facts, point, labels => by
      simp only [analyzeStmt]
      split
      · simp only [Stmt.behaviour]
      · split
        · simp only [Stmt.behaviour]
        · split
          · simp only [Stmt.behaviour]
            rw [behaviour_analyzeStmt action]
          · simp only [Stmt.behaviour]
  | .labeled _ label body, point, labels => by
      simp only [analyzeStmt, Stmt.behaviour]
      rw [behaviour_analyzeStmt body]

theorem allBehaviour_analyzeStmts :
    ∀ (stmts : List Stmt) (point : FlowPoint),
      Stmt.allBehaviour (analyzeStmts options stmts point).nodes = Stmt.allBehaviour stmts
  | [], point => by
      simp only [analyzeStmts]
  | stmt :: rest, point => by
      simp only [analyzeStmts]
      split
      · simp only [Stmt.allBehaviour]
        rw [behaviour_analyzeStmt stmt, allBehaviour_analyzeStmts rest]
      · rfl

end

end Behaviours

section Sound

variable
  {options : CompilerOptions}
  {labels : List String}
  {point : FlowPoint}

/-- Flow analysis meets a statement at a point that is reached, and reports in it
neither invalid jumps nor second assignments to final locals. -/
structure FlowPoint.Sound
    (options : CompilerOptions)
    (point : FlowPoint)
    (stmt : Stmt)
    (labels : List String) :
    Prop where
  confines : stmt.ConfinesElements
  fresh : Stmt.AreFresh stmt.parts
  carries : point.jumps.Carries stmt labels
  reached : point.flow.reachable = true
  spares : point.state.Spares Problem.spoilsFinals (analyzeStmt options stmt point).point.state

/-- Flow analysis meets statements at a point that is reached, and reports in them
neither invalid jumps nor second assignments to final locals. -/
structure FlowPoint.SoundAll
    (options : CompilerOptions)
    (point : FlowPoint)
    (stmts : List Stmt) :
    Prop where
  confines : Stmt.AllConfineElements stmts
  fresh : Stmt.AreFresh (Stmt.allParts stmts)
  unlabeled : point.jumps.loopLabel? = none
  reached : point.flow.reachable = true
  spares : point.state.Spares Problem.spoilsFinals (analyzeStmts options stmts point).point.state

namespace FlowPoint.Sound

/-- Flow analysis finds how the executions of a statement end. -/
theorem follows
    {stmt : Stmt}
    (sound : point.Sound options stmt labels) :
    point.Follows (analyzeStmt options stmt point).point (stmt.behaviour labels) := by
  have explored := (explores_analyzeStmt sound.confines sound.fresh sound.carries sound.reached
    sound.spares.jumpsValid).1
  rwa [behaviour_analyzeStmt] at explored

/-- The statements of a block are met where the block is. -/
theorem block
    {span : Span}
    {stmts : List Stmt}
    {facts : BlockFacts}
    (sound : point.Sound options (.block span stmts facts) labels) :
    point.SoundAll options stmts := by
  obtain ⟨confines, fresh, carries, reached, spares⟩ := sound
  simp only [Stmt.ConfinesElements] at confines
  simp only [Stmt.parts] at fresh
  simp only [analyzeStmt] at spares
  exact ⟨confines, fun part member => fresh part (List.mem_cons_of_mem _ member),
    carries.notLoop rfl, reached, spares⟩

/-- The only branch of a conditional is met after the condition. -/
theorem onlyBranch
    {span : Span}
    {condition : Expr}
    {thenBranch : Stmt}
    (sound : point.Sound options (.branch span condition thenBranch none) labels) :
    point.state.Spares Problem.spoilsFinals (analyzeExpr options condition point).state ∧
      (analyzeExpr options condition point).Sound options thenBranch [] := by
  obtain ⟨confines, fresh, carries, reached, spares⟩ := sound
  simp only [Stmt.ConfinesElements] at confines
  simp only [Stmt.parts] at fresh
  simp only [analyzeStmt] at spares
  have tested := steady_analyzeExpr options condition point
  have testedReached := tested.reachable.trans reached
  have freshThen : Stmt.AreFresh thenBranch.parts := fun part member =>
    fresh part (List.mem_cons_of_mem _ member)
  obtain ⟨sparesTest, sparesThen⟩ :=
    spares.split tested.cuts (cuts_analyzeStmt freshThen testedReached)
  exact ⟨sparesTest, confines, freshThen, JumpStack.carries_of_loopLabel?
    (tested.arrives.loopLabel?_eq.trans (carries.notLoop rfl)) thenBranch, testedReached,
    sparesThen⟩

/-- The branches of a conditional are met after the condition, one after the other. -/
theorem branch
    {span : Span}
    {condition : Expr}
    {thenBranch elseBranch : Stmt}
    (sound : point.Sound options (.branch span condition thenBranch (some elseBranch)) labels) :
    point.state.Spares Problem.spoilsFinals (analyzeExpr options condition point).state ∧
      (analyzeExpr options condition point).Sound options thenBranch [] ∧
      FlowPoint.Sound options
        { (analyzeStmt options thenBranch (analyzeExpr options condition point)).point with
          flow := (analyzeExpr options condition point).flow } elseBranch [] := by
  obtain ⟨confines, fresh, carries, reached, spares⟩ := sound
  simp only [Stmt.ConfinesElements] at confines
  simp only [Stmt.parts] at fresh
  simp only [analyzeStmt] at spares
  have tested := steady_analyzeExpr options condition point
  have testedReached := tested.reachable.trans reached
  have testedLabel := tested.arrives.loopLabel?_eq.trans (carries.notLoop rfl)
  have freshThen : Stmt.AreFresh thenBranch.parts := fun part member =>
    fresh part (List.mem_cons_of_mem _ (List.mem_append_left _ member))
  have freshElse : Stmt.AreFresh elseBranch.parts := fun part member =>
    fresh part (List.mem_cons_of_mem _ (List.mem_append_right _ member))
  have cutsThen := @cuts_analyzeStmt options thenBranch _ freshThen testedReached
  have cutsElse := @cuts_analyzeStmt options elseBranch
    { (analyzeStmt options thenBranch (analyzeExpr options condition point)).point with
      flow := (analyzeExpr options condition point).flow } freshElse testedReached
  obtain ⟨sparesTest, sparesBoth⟩ := spares.split tested.cuts (cutsThen.trans cutsElse)
  obtain ⟨sparesThen, sparesElse⟩ := sparesBoth.split cutsThen cutsElse
  have soundThen : (analyzeExpr options condition point).Sound options thenBranch [] :=
    ⟨confines.1, freshThen, JumpStack.carries_of_loopLabel? testedLabel thenBranch, testedReached,
      sparesThen⟩
  exact ⟨sparesTest, soundThen, confines.2, freshElse, JumpStack.carries_of_loopLabel?
    (soundThen.follows.arrives.loopLabel?_eq.trans testedLabel) elseBranch, testedReached,
    sparesElse⟩

/-- A loop without a body is entered and left. -/
theorem bareLoop
    {span : Span}
    {element : LocalDecl}
    {collection : Expr}
    {facts : LoopFacts}
    (sound : point.Sound options (.forEach span element collection none facts) labels) :
    ∃ scope, facts.scope = some scope ∧
      point.state.Spares Problem.spoilsFinals
        (enterLoop options scope element collection point).body.state ∧
      (enterLoop options scope element collection point).body.state.Spares Problem.spoilsFinals
        (analyzeStmt options (.forEach span element collection none facts) point).point.state := by
  obtain ⟨confines, -, -, -, spares⟩ := sound
  simp only [Stmt.ConfinesElements, Option.isSome_iff_exists] at confines
  obtain ⟨scope, isScope⟩ := confines
  obtain ⟨_, steady, -, entered⟩ := steady_enterLoop options scope element collection point
  refine ⟨scope, isScope, ?_⟩
  simp only [analyzeStmt, isScope] at spares ⊢
  exact spares.split (steady.cuts.trans entered)
    (cuts_leaveLoop options element (facts.met point.flow.reachable) _ _)

/-- The body of a loop is met when the loop has been entered, and then the loop is left. -/
theorem loop
    {span : Span}
    {element : LocalDecl}
    {collection : Expr}
    {action : Stmt}
    {facts : LoopFacts}
    (sound : point.Sound options (.forEach span element collection (some action) facts) labels) :
    ∃ scope, facts.scope = some scope ∧
      point.state.Spares Problem.spoilsFinals
        (enterLoop options scope element collection point).body.state ∧
      (skipsAction options action = false →
        (enterLoop options scope element collection point).body.Sound options action []) ∧
      ((enterLoop options scope element collection point).analyzeBody options
        action).finish.state.Spares Problem.spoilsFinals
          (leaveLoop options element (facts.met point.flow.reachable)
            (enterLoop options scope element collection point)
            ((enterLoop options scope element collection point).analyzeBody options
              action)).point.state := by
  obtain ⟨confines, fresh, -, reached, spares⟩ := sound
  simp only [Stmt.ConfinesElements, Option.isSome_iff_exists] at confines
  obtain ⟨⟨scope, isScope⟩, confined⟩ := confines
  simp only [Stmt.parts] at fresh
  have freshAction : Stmt.AreFresh action.parts := fun part member =>
    fresh part (List.mem_cons_of_mem _ member)
  have bodyReached :=
    (enters_enterLoop options scope element collection point).bodyReachable.trans reached
  obtain ⟨_, steady, isPushed, entered⟩ := steady_enterLoop options scope element collection point
  obtain ⟨-, isPoint⟩ :=
    CodeContext.analyzeStmt_forEach options span element collection action point isScope
  obtain ⟨_, _, ran⟩ := cuts_analyzeBody freshAction bodyReached
    (@cuts_analyzeStmt options action
      (enterLoop options scope element collection point).body freshAction bodyReached)
  have left := cuts_leaveLoop options element (facts.met point.flow.reachable)
    (enterLoop options scope element collection point)
    ((enterLoop options scope element collection point).analyzeBody options action)
  rw [isPoint] at spares
  obtain ⟨sparesEntry, sparesLoop⟩ := spares.split (steady.cuts.trans entered) (ran.trans left)
  obtain ⟨sparesBody, sparesLeave⟩ := sparesLoop.split ran left
  have unlabeled : (enterLoop options scope element collection point).body.jumps.loopLabel? =
      none := by
    rw [isPushed]
    rfl
  refine ⟨scope, isScope, sparesEntry, fun analyzed => ⟨confined, freshAction,
    JumpStack.carries_of_loopLabel? unlabeled action, bodyReached, ?_⟩, sparesLeave⟩
  simpa only [LoopEntry.analyzeBody, analyzed, bodyReached, if_true, Bool.false_eq_true, if_false]
    using sparesBody

/-- The body of a labeled statement is met with its label. -/
theorem labeled
    {span : Span}
    {label : Spanned String}
    {body : Stmt}
    (sound : point.Sound options (.labeled span label body) labels) :
    FlowPoint.Sound options
      { point with jumps := point.jumps.pushLabel label.node body.isLoop } body
      (label.node :: labels) := by
  obtain ⟨confines, fresh, carries, reached, spares⟩ := sound
  simp only [Stmt.ConfinesElements] at confines
  simp only [Stmt.parts] at fresh
  have bodyReached : ({ point with
      jumps := point.jumps.pushLabel label.node body.isLoop } : FlowPoint).flow.reachable =
      true := reached
  obtain ⟨record, rest, isJumps, -⟩ :=
    (narrows_analyzeStmt options body bodyReached).exists_label
  simp only [analyzeStmt, isJumps, JumpStack.popLabel] at spares
  exact ⟨confines, fun part member => fresh part (List.mem_cons_of_mem _ member),
    carries.named.carries_pushLabel label.node body, bodyReached, spares⟩

end FlowPoint.Sound

theorem FlowPoint.SoundAll.cons
    {stmt : Stmt}
    {rest : List Stmt}
    (sound : point.SoundAll options (stmt :: rest)) :
    point.Sound options stmt [] ∧
      ((analyzeStmt options stmt point).point.flow.reachable = true →
        (analyzeStmt options stmt point).point.SoundAll options rest) := by
  obtain ⟨confines, fresh, unlabeled, reached, spares⟩ := sound
  simp only [Stmt.AllConfineElements] at confines
  simp only [Stmt.allParts, Stmt.AreFresh, List.mem_append] at fresh
  have freshHead : Stmt.AreFresh stmt.parts := fun part member => fresh part (.inl member)
  have freshRest : Stmt.AreFresh (Stmt.allParts rest) := fun part member =>
    fresh part (.inr member)
  simp only [analyzeStmts, reached, if_true] at spares
  obtain ⟨sparesHead, sparesRest⟩ := spares.split
    (cuts_analyzeStmt freshHead reached) (cuts_analyzeStmts freshRest)
  have head : point.Sound options stmt [] :=
    ⟨confines.1, freshHead, JumpStack.carries_of_loopLabel? unlabeled stmt, reached, sparesHead⟩
  exact ⟨head, fun goesOn => ⟨confines.2.1, freshRest,
    head.follows.arrives.loopLabel?_eq.trans unlabeled, goesOn, sparesRest⟩⟩

end Sound

section Loops

variable
  {options : CompilerOptions}
  {id : LocalId}
  {around : ScopeId → Bool}

/-- The collection of a loop guards a final local, and entering the loop assigns the
element. -/
theorem guards_enterLoop
    {scope : ScopeId}
    {element : LocalDecl}
    {collection : Expr}
    {point : FlowPoint}
    (uninitialized : element.initial = none)
    (watches : point.state.Watches id around)
    (reached : point.flow.reachable = true)
    (spares : point.state.Spares Problem.spoilsFinals
      (enterLoop options scope element collection point).body.state) :
    ∃ evaluated : FlowPoint, point.Steady evaluated ∧
      point.GuardsSteps id around evaluated collection.steps ∧
      (enterLoop options scope element collection point).body.jumps =
        evaluated.jumps.pushLoop scope (enterLoop options scope element collection point).before ∧
      (enterLoop options scope element collection point).body.flow.mayBeAssigned id =
        (enterLoop options scope element collection point).entered.mayBeAssigned id ∧
      (enterLoop options scope element collection point).entered.mayBeAssigned id =
        (evaluated.flow.mayBeAssigned id || decide (element.binding = some id)) := by
  have checked := FlowPoint.Steady.checkDereference options collection point
  have declared : analyzeDecl options element (point.checkDereference options collection) =
      point.checkDereference options collection := by
    simp only [analyzeDecl, uninitialized]
  have steady := steady_analyzeExpr options collection (point.checkDereference options collection)
  simp only [enterLoop, declared] at spares ⊢
  obtain ⟨-, sparesCollection⟩ := spares.split checked.cuts steady.cuts
  have guards := (FlowPoint.GuardsSteps.checkDereference options collection point).trans
    (guards_analyzeExpr collection
      (watches.marks (FlowPoint.marks_checkDereference options collection point))
      (checked.reachable.trans reached) sparesCollection)
  refine ⟨_, checked.trans steady, guards, rfl, rfl, ?_⟩
  cases element.binding <;> simp

/-- Flow through the body of a loop finds how it ends and guards a final local if it
does so for the statement, which is passed over if nothing happens in it. -/
theorem guards_analyzeBody
    {action : Stmt}
    {entry : LoopEntry}
    (reached : entry.body.flow.reachable = true)
    (analyzed : skipsAction options action = false →
      entry.body.Follows (analyzeStmt options action entry.body).point (action.behaviour []) ∧
        entry.body.Guards id around (analyzeStmt options action entry.body).point
          (action.behaviour [])) :
    entry.body.Follows (entry.analyzeBody options action).finish (action.behaviour []) ∧
      entry.body.Guards id around (entry.analyzeBody options action).finish
        (action.behaviour []) ∧
      ((entry.analyzeBody options action).analyzed = false →
        ∀ trace outcome, action.behaviour [] trace outcome → trace.Skips id) := by
  unfold LoopEntry.analyzeBody
  cases skips : skipsAction options action with
  | true =>
      obtain ⟨-, isEmpty⟩ := Stmt.eq_emptyBlock_of_skipsAction skips
      rw [isEmpty]
      refine ⟨.ofSteady (.refl entry.body) reached [], .ofSteps (.refl entry.body), ?_⟩
      rintro - _ _ ⟨rfl, -⟩
      exact LocalTrace.skips_nil id
  | false =>
      obtain ⟨follows, guards⟩ := analyzed skips
      simp only [Bool.false_eq_true, if_false, reached, if_true]
      exact ⟨follows, guards, nofun⟩

end Loops

section Statements

variable
  {options : CompilerOptions}
  {id : LocalId}
  {around : ScopeId → Bool}

mutual

/-- Flow through a statement guards a final local that is declared before. -/
theorem guards_analyzeStmt :
    ∀ {stmt : Stmt} {labels : List String} {point : FlowPoint},
      point.Sound options stmt labels →
      (∀ part ∈ stmt.parts, part.LiesAfter id around) →
      point.state.Watches id around →
      point.Guards id around (analyzeStmt options stmt point).point (stmt.behaviour labels)
  | .localVar span decl, labels, point, sound, later, watches => by
      have isOther : decl.binding ≠ some id := later (.localVar span decl) (by simp [Stmt.parts])
      have spares := sound.spares
      simp only [analyzeStmt] at spares
      simp only [analyzeStmt, Stmt.behaviour]
      exact .ofSteps (guards_analyzeDecl isOther watches sound.reached spares)
  | .expr span value, labels, point, sound, _, watches => by
      have spares := sound.spares
      simp only [analyzeStmt] at spares
      simp only [analyzeStmt, Stmt.behaviour]
      exact .ofSteps (guards_analyzeExpr value watches sound.reached spares)
  | .block span stmts facts, labels, point, sound, later, watches => by
      simp only [Stmt.parts, List.forall_mem_cons] at later
      simp only [analyzeStmt, Stmt.behaviour]
      exact guards_analyzeStmts sound.block later.2 watches
  | .branch span condition thenBranch none, labels, point, sound, later, watches => by
      simp only [Stmt.parts, List.forall_mem_cons] at later
      obtain ⟨sparesTest, soundThen⟩ := sound.onlyBranch
      have guards := guards_analyzeStmt soundThen later.2
        (watches.marks (marks_analyzeExpr options condition point))
      have joined := guards.either (.ofSteps (.refl
        { (analyzeStmt options thenBranch (analyzeExpr options condition point)).point with
          flow := (analyzeExpr options condition point).flow }))
        (FlowState.mayBeAssigned_merge _ _)
      simp only [analyzeStmt, Stmt.behaviour]
      exact .afterSteps (guards_analyzeExpr condition watches sound.reached sparesTest)
        (steady_analyzeExpr options condition point) sound.reached joined
  | .branch span condition thenBranch (some elseBranch), labels, point, sound, later, watches => by
      simp only [Stmt.parts, List.forall_mem_cons, List.forall_mem_append] at later
      obtain ⟨sparesTest, soundThen, soundElse⟩ := sound.branch
      have testedWatches := watches.marks (marks_analyzeExpr options condition point)
      have first := guards_analyzeStmt soundThen later.2.1 testedWatches
      have other := guards_analyzeStmt soundElse later.2.2
        (testedWatches.marks (marks_analyzeStmt options thenBranch _))
      have joined := first.either other (FlowState.mayBeAssigned_merge _ _)
      simp only [analyzeStmt, Stmt.behaviour]
      exact .afterSteps (guards_analyzeExpr condition watches sound.reached sparesTest)
        (steady_analyzeExpr options condition point) sound.reached joined
  | .forEach span element collection none facts, labels, point, sound, later, watches => by
      obtain ⟨other, uninitialized, outside⟩ :
          Stmt.LiesAfter id around (.forEach span element collection none facts) :=
        later _ (by simp [Stmt.parts])
      obtain ⟨scope, isScope, sparesEntry, sparesLeave⟩ := sound.bareLoop
      have enters := enters_enterLoop options scope element collection point
      obtain ⟨evaluated, steady, steps, isPushed, bodyFlow, enteredFlow⟩ :=
        guards_enterLoop uninitialized watches sound.reached sparesEntry
      rw [decide_eq_false other, Bool.or_false] at enteredFlow
      have nothing : ∀ trace outcome, Behaviour.only [] .completes trace outcome →
          trace.Skips id := by
        rintro _ _ ⟨rfl, -⟩
        exact LocalTrace.skips_nil id
      simp only [analyzeStmt, isScope] at sparesLeave
      have iterated := guards_leaveLoop isPushed (bodyFlow.trans enteredFlow) enteredFlow
        (enters.enteredReachable.trans sound.reached) (outside scope isScope) other
        (sound.carries.named.arrives steady.arrives)
        (.ofSteady (.refl _) (enters.bodyReachable.trans sound.reached) []) (.ofSteps (.refl _))
        (fun _ => nothing) sparesLeave
      simp only [analyzeStmt, isScope, Stmt.behaviour]
      exact .afterSteps steps steady sound.reached iterated
  | .forEach span element collection (some action) facts, labels, point, sound, later, watches => by
      obtain ⟨other, uninitialized, outside⟩ :
          Stmt.LiesAfter id around (.forEach span element collection (some action) facts) :=
        later _ (by simp [Stmt.parts])
      simp only [Stmt.parts, List.forall_mem_cons] at later
      obtain ⟨scope, isScope, sparesEntry, soundBody, sparesLeave⟩ := sound.loop
      have enters := enters_enterLoop options scope element collection point
      obtain ⟨follows, guards, passedOver⟩ := guards_analyzeBody
        (enters.bodyReachable.trans sound.reached) fun analyzed =>
          ⟨(soundBody analyzed).follows, guards_analyzeStmt (soundBody analyzed) later.2
            (watches.marks (marks_enterLoop options scope element collection point))⟩
      obtain ⟨evaluated, steady, steps, isPushed, bodyFlow, enteredFlow⟩ :=
        guards_enterLoop uninitialized watches sound.reached sparesEntry
      rw [decide_eq_false other, Bool.or_false] at enteredFlow
      have iterated := guards_leaveLoop isPushed (bodyFlow.trans enteredFlow) enteredFlow
        (enters.enteredReachable.trans sound.reached) (outside scope isScope) other
        (sound.carries.named.arrives steady.arrives) follows guards passedOver sparesLeave
      obtain ⟨-, isPoint⟩ :=
        CodeContext.analyzeStmt_forEach options span element collection action point isScope
      rw [isPoint]
      simp only [Stmt.behaviour]
      exact .afterSteps steps steady sound.reached iterated
  | .labeled span label body, labels, point, sound, later, watches => by
      simp only [Stmt.parts, List.forall_mem_cons] at later
      have soundBody := sound.labeled
      obtain ⟨record, rest, isJumps, -⟩ :=
        (narrows_analyzeStmt options body soundBody.reached).exists_label
      have guards := guards_analyzeStmt soundBody later.2 watches
      simp only [analyzeStmt, Stmt.behaviour, isJumps, JumpStack.popLabel]
      exact guards.leaving isJumps
  | .breakTo span label, labels, point, sound, _, _ => by
      have spares := sound.spares
      simp only [analyzeStmt] at spares
      simp only [analyzeStmt, Stmt.behaviour]
      exact .jump (by simp) spares.jumpsValid fun jumps recorded =>
        (JumpStack.takes_of_recordBreak recorded).tracks
  | .continueTo span label, labels, point, sound, _, _ => by
      have spares := sound.spares
      simp only [analyzeStmt] at spares
      simp only [analyzeStmt, Stmt.behaviour]
      exact .jump (by simp) spares.jumpsValid fun jumps recorded =>
        (JumpStack.takes_of_recordContinue recorded).tracks
  | .returnWith span none, labels, point, _, _, _ => by
      simp only [analyzeStmt, Stmt.behaviour]
      exact .returned (.refl point)
  | .returnWith span (some value), labels, point, sound, _, watches => by
      have spares := sound.spares
      simp only [analyzeStmt] at spares
      simp only [analyzeStmt, Stmt.behaviour]
      exact .returned (guards_analyzeExpr value watches sound.reached spares)
  | .empty span, labels, point, _, _, _ => by
      simp only [analyzeStmt, Stmt.behaviour]
      exact .ofSteps (.refl point)

theorem guards_analyzeStmts :
    ∀ {stmts : List Stmt} {point : FlowPoint},
      point.SoundAll options stmts →
      (∀ part ∈ Stmt.allParts stmts, part.LiesAfter id around) →
      point.state.Watches id around →
      point.Guards id around (analyzeStmts options stmts point).point (Stmt.allBehaviour stmts)
  | [], point, _, _, _ => by
      simp only [analyzeStmts, Stmt.allBehaviour]
      exact .ofSteps (.refl point)
  | stmt :: rest, point, sound, later, watches => by
      simp only [Stmt.allParts, List.forall_mem_append] at later
      obtain ⟨soundHead, soundRest⟩ := sound.cons
      simp only [analyzeStmts, sound.reached, if_true, Stmt.allBehaviour]
      exact (guards_analyzeStmt soundHead later.1 watches).followedBy soundHead.follows
        (fun goesOn => guards_analyzeStmts (soundRest goesOn) later.2
          (watches.marks (marks_analyzeStmt options stmt point)))
        fun stops => (analyzeStmts_unreached stops).2.2.2

end

end Statements

end LoopLowering
