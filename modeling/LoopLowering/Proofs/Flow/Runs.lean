import LoopLowering.Proofs.Flow.Narrowing
import LoopLowering.Proofs.Flow.Resolved

namespace LoopLowering

/-!
# Where control goes

A judgement on analyzed statements: every local is assigned before it is read,
every jump has a target, no statement is out of reach, and every local that a
loop needs exists. It is stated with what has to be assigned at each exit, and
flow analysis without errors establishes it.
-/

/-- The locals that are assigned when the body of a loop is entered, given
those before the loop. -/
def LocalDecl.enteredWith
    (element : LocalDecl)
    (collection : Expr)
    (before : VarSet) :
    VarSet :=
  (collection.definite (element.definite before)).insertBinding element.binding

/-- A loop only assigns further locals. -/
theorem LocalDecl.within_enteredWith
    (element : LocalDecl)
    (collection : Expr)
    (before : VarSet) :
    before.Within (element.enteredWith collection before) := by
  refine ((element.within_definite before).trans (collection.within_definite _)).trans ?_
  simp only [enteredWith]
  cases element.binding with
  | none =>
      exact .refl _
  | some id =>
      exact VarSet.within_insert id _

/-- Where more is assigned before a loop, more is assigned in its body. -/
theorem LocalDecl.enteredWith_mono
    (element : LocalDecl)
    (collection : Expr)
    {first second : VarSet}
    (within : first.Within second) :
    (element.enteredWith collection first).Within (element.enteredWith collection second) :=
  (collection.definite_mono (element.definite_mono within)).insertBinding element.binding

/-- What has to be assigned where a loop comes back for another element, if it
does. -/
def LoopFacts.again
    (facts : LoopFacts)
    (entered : VarSet) :
    FlowExit :=
  if facts.continues then some entered else none

/-- A loop that comes back asks for no more than what is assigned in its body. -/
theorem LoopFacts.again_relaxes
    (facts : LoopFacts)
    (first second : VarSet) :
    FlowExit.Relaxes second (facts.again first) (facts.again second) := by
  intro needed isAgain
  cases continues : facts.continues with
  | false =>
      simp [again, continues] at isAgain
  | true =>
      exact ⟨second, by simp [again, continues], VarSet.within_union_right _ _⟩

namespace CodeContext

/-- The locals that the code of a loop is going to need are used. -/
def Provides
    (context : CodeContext)
    (strategy : LoopStrategy)
    (emptyAction : Bool)
    (element : Nat)
    (continues : Bool) :
    Prop :=
  match strategy with
  | .array index bound source =>
      (emptyAction = false ∨ context.hasSlot element = true) →
        (context.localAt source).isUsed = true ∧
          (continues = true →
            (context.localAt index).isUsed = true ∧ (context.localAt bound).isUsed = true)
  | .rawIterable iterator _ | .genericIterable iterator _ =>
      (context.localAt iterator).isUsed = true

/-- A loop is entered with its collection evaluated. -/
structure EntersLoop
    (context : CodeContext)
    (element : LocalDecl)
    (collection : Expr)
    (action : Option Stmt)
    (facts : LoopFacts)
    (before : VarSet) :
    Prop where
  reachable : facts.reachable = true
  elementReads : element.ReadsAssigned before
  collectionReads : collection.ReadsAssigned (element.definite before)
  provides : ∀ resolution id,
    facts.classification = .resolved resolution →
    element.binding = some id →
    context.Provides resolution.strategy (Stmt.isEmptyAction action) id facts.continues

mutual

/-- A statement runs from where some locals are assigned to one of its exits:
the one after it, or one that the frames around it offer. -/
def Runs
    (context : CodeContext) :
    Stmt → (frames : List JumpFrame) → (before : VarSet) → (after : FlowExit) → Prop
  | .localVar _ decl, _, before, after =>
      decl.ReadsAssigned before ∧ after.Admits (decl.definite before)
  | .expr _ value, _, before, after =>
      value.ReadsAssigned before ∧ after.Admits (value.definite before)
  | .block _ stmts facts, frames, before, after =>
      facts.unreachableFrom = none ∧ context.AllRun stmts frames before after
  | .branch _ condition thenBranch none, frames, before, after =>
      condition.ReadsAssigned before ∧
        context.Runs thenBranch frames (condition.definite before) after ∧
        after.Admits (condition.definite before)
  | .branch _ condition thenBranch (some elseBranch), frames, before, after =>
      condition.ReadsAssigned before ∧
        context.Runs thenBranch frames (condition.definite before) after ∧
        context.Runs elseBranch frames (condition.definite before) after
  | .forEach _ element collection none facts, _, before, after =>
      context.EntersLoop element collection none facts before ∧ facts.continues = true ∧
        after.Admits (element.enteredWith collection before)
  | .forEach _ element collection (some action) facts, frames, before, after =>
      context.EntersLoop element collection (some action) facts before ∧
        after.Admits (element.enteredWith collection before) ∧
        ((action.isEmptyBlock = true ∧ facts.continues = true) ∨
          (facts.actionReachable = true ∧
            context.Runs action
              (.loop after (facts.again (element.enteredWith collection before)) :: frames)
              (element.enteredWith collection before)
              (facts.again (element.enteredWith collection before))))
  | .labeled _ label body, frames, before, after =>
      context.Runs body (.label label.node body.isLoop after :: frames) before after
  | .breakTo _ label, frames, before, _ =>
      (JumpFrame.breakExit (label.map Spanned.node) frames).Admits before
  | .continueTo _ label, frames, before, _ =>
      (JumpFrame.continueExit (label.map Spanned.node) frames).Admits before
  | .returnWith _ none, _, _, _ => True
  | .returnWith _ (some value), _, before, _ => value.ReadsAssigned before
  | .empty _, _, before, after => after.Admits before

/-- Statements run one after the other, and none of them is out of reach. -/
def AllRun
    (context : CodeContext) :
    List Stmt → (frames : List JumpFrame) → (before : VarSet) → (after : FlowExit) → Prop
  | [], _, before, after => after.Admits before
  | stmt :: rest, frames, before, after =>
      ∃ middle, context.Runs stmt frames before middle ∧ (middle = none → rest = []) ∧
        ∀ set, middle = some set → context.AllRun rest frames set after

end

variable
  {context : CodeContext}

theorem EntersLoop.mono
    {element : LocalDecl}
    {collection : Expr}
    {action : Option Stmt}
    {facts : LoopFacts}
    {before larger : VarSet}
    (enters : context.EntersLoop element collection action facts before)
    (within : before.Within larger) :
    context.EntersLoop element collection action facts larger where
  reachable := enters.reachable
  elementReads := enters.elementReads.mono within
  collectionReads := enters.collectionReads.mono (element.definite_mono within)
  provides := enters.provides


mutual

/-- A statement also runs from where more is assigned to exits that ask for no
more. -/
theorem Runs.relax :
    ∀ {stmt : Stmt} {frames others : List JumpFrame} {before larger : VarSet}
        {after later : FlowExit},
      context.Runs stmt frames before after →
      before.Within larger →
      JumpFrame.AllRelax larger frames others →
      FlowExit.Relaxes larger after later →
      context.Runs stmt others larger later
  | .localVar _ decl, _, _, _, _, _, _, runs, within, _, relaxes => by
      simp only [Runs] at runs ⊢
      exact ⟨runs.1.mono within,
        runs.2.relax relaxes (decl.definite_mono within) (decl.within_definite _)⟩
  | .expr _ value, _, _, _, _, _, _, runs, within, _, relaxes => by
      simp only [Runs] at runs ⊢
      exact ⟨runs.1.mono within,
        runs.2.relax relaxes (value.definite_mono within) (value.within_definite _)⟩
  | .block _ stmts facts, _, _, _, _, _, _, runs, within, framesRelax, relaxes => by
      simp only [Runs] at runs ⊢
      exact ⟨runs.1, runs.2.relax within framesRelax relaxes⟩
  | .branch _ condition thenBranch none, _, _, _, _, _, _, runs, within, framesRelax,
      relaxes => by
      have tested := condition.within_definite
      simp only [Runs] at runs ⊢
      exact ⟨runs.1.mono within,
        runs.2.1.relax (condition.definite_mono within) (framesRelax.within (tested _))
          (relaxes.within (tested _)),
        runs.2.2.relax relaxes (condition.definite_mono within) (tested _)⟩
  | .branch _ condition thenBranch (some elseBranch), _, _, _, _, _, _, runs, within, framesRelax,
      relaxes => by
      have tested := condition.within_definite
      simp only [Runs] at runs ⊢
      exact ⟨runs.1.mono within,
        runs.2.1.relax (condition.definite_mono within) (framesRelax.within (tested _))
          (relaxes.within (tested _)),
        runs.2.2.relax (condition.definite_mono within) (framesRelax.within (tested _))
          (relaxes.within (tested _))⟩
  | .forEach _ element collection none facts, _, _, _, _, _, _, runs, within, _, relaxes => by
      simp only [Runs] at runs ⊢
      exact ⟨runs.1.mono within, runs.2.1,
        runs.2.2.relax relaxes (element.enteredWith_mono collection within)
          (element.within_enteredWith collection _)⟩
  | .forEach _ element collection (some action) facts, _, _, _, _, _, _, runs, within, framesRelax,
      relaxes => by
      have entered := element.within_enteredWith collection
      simp only [Runs] at runs ⊢
      refine ⟨runs.1.mono within,
        runs.2.1.relax relaxes (element.enteredWith_mono collection within) (entered _), ?_⟩
      rcases runs.2.2 with passedOver | ⟨reached, ran⟩
      · exact .inl passedOver
      · exact .inr ⟨reached, ran.relax (element.enteredWith_mono collection within)
          ⟨relaxes.within (entered _), facts.again_relaxes _ _, framesRelax.within (entered _)⟩
          (facts.again_relaxes _ _)⟩
  | .labeled _ label body, _, _, _, _, _, _, runs, within, framesRelax, relaxes => by
      simp only [Runs] at runs ⊢
      exact runs.relax within ⟨rfl, rfl, relaxes, framesRelax⟩ relaxes
  | .breakTo _ label, _, _, _, _, _, _, runs, within, framesRelax, _ => by
      simp only [Runs] at runs ⊢
      exact runs.relax (framesRelax.breakExit _) within (.refl _)
  | .continueTo _ label, _, _, _, _, _, _, runs, within, framesRelax, _ => by
      simp only [Runs] at runs ⊢
      exact runs.relax (framesRelax.continueExit _) within (.refl _)
  | .returnWith _ none, _, _, _, _, _, _, _, _, _, _ => by
      simp only [Runs]
  | .returnWith _ (some value), _, _, _, _, _, _, runs, within, _, _ => by
      simp only [Runs] at runs ⊢
      exact runs.mono within
  | .empty _, _, _, _, _, _, _, runs, within, _, relaxes => by
      simp only [Runs] at runs ⊢
      exact runs.relax relaxes within (.refl _)

theorem AllRun.relax :
    ∀ {stmts : List Stmt} {frames others : List JumpFrame} {before larger : VarSet}
        {after later : FlowExit},
      context.AllRun stmts frames before after →
      before.Within larger →
      JumpFrame.AllRelax larger frames others →
      FlowExit.Relaxes larger after later →
      context.AllRun stmts others larger later
  | [], _, _, _, _, _, _, runs, within, _, relaxes => by
      simp only [AllRun] at runs ⊢
      exact runs.relax relaxes within (.refl _)
  | stmt :: rest, _, _, _, larger, _, _, runs, within, framesRelax, relaxes => by
      simp only [AllRun] at runs ⊢
      obtain ⟨middle, head, ends, goesOn⟩ := runs
      cases middle with
      | none =>
          exact ⟨none, head.relax within framesRelax (.refl _ _), ends, nofun⟩
      | some set =>
          refine ⟨some (set.union larger), head.relax within framesRelax ?_, nofun, ?_⟩
          · intro needed isMiddle
            obtain rfl := Option.some.inj isMiddle
            exact ⟨_, rfl, .refl _⟩
          · intro both isMiddle
            obtain rfl := Option.some.inj isMiddle
            have grown := VarSet.within_union_right set larger
            exact (goesOn set rfl).relax (VarSet.within_union_left _ _) (framesRelax.within grown)
              (relaxes.within grown)

end

end CodeContext

/-- After code that has run on a path, what it assigned is assigned as well. -/
theorem FlowState.definite_afterRun
    (state : FlowState)
    {run : FlowState}
    (reached : run.reachable = true) :
    (state.afterRun run).definite = state.definite.union run.definite ∧
      (state.afterRun run).reachable = state.reachable := by
  simp [afterRun, isDeadEnd, reached]

/-- A loop comes back if its body was passed over or some path through it does. -/
def LoopBody.comesBack
    (body : LoopBody)
    (record : LoopRecord) :
    Bool :=
  !body.analyzed || body.finish.flow.reachable || record.onContinue.reachable

/-- What is recorded about a loop that is left. -/
theorem facts_leaveLoopWith
    (options : CompilerOptions)
    (element : LocalDecl)
    (facts : LoopFacts)
    (entry : LoopEntry)
    (body : LoopBody)
    (record : LoopRecord)
    (point : FlowPoint) :
    (leaveLoopWith options element facts entry body record point).facts.continues =
        body.comesBack record ∧
      (leaveLoopWith options element facts entry body record point).facts.actionReachable =
        body.reached ∧
      (leaveLoopWith options element facts entry body record point).facts.reachable =
        facts.reachable ∧
      (leaveLoopWith options element facts entry body record point).facts.classification =
        facts.classification :=
  ⟨rfl, rfl, rfl, rfl⟩

/-- The locals after a loop are those after its body with what the loop needs
marked as used. -/
theorem scope_leaveLoopWith
    (options : CompilerOptions)
    (element : LocalDecl)
    (facts : LoopFacts)
    (entry : LoopEntry)
    (body : LoopBody)
    (record : LoopRecord)
    (point : FlowPoint) :
    (leaveLoopWith options element facts entry body record point).point.state.scope =
      markSynthetics options facts.classification (Stmt.isEmptyAction body.action)
        element.binding (body.comesBack record) point.state.scope := by
  simp only [leaveLoopWith, MethodState.addCheckpoint, scope_settleNulls, MethodState.mapScope]
  split
  · rw [scope_settleFinals]
    rfl
  · rfl

/-- What follows a loop may ask for what is assigned when its collection runs
out, and for no more than what is assigned where it is broken out of. -/
theorem exits_leaveLoopWith
    {options : CompilerOptions}
    {scope : ScopeId}
    {element : LocalDecl}
    {collection : Expr}
    {facts : LoopFacts}
    {entry : LoopEntry}
    {body : LoopBody}
    {record : LoopRecord}
    {start point : FlowPoint}
    (enters : entry.Enters scope element collection start)
    (reached : start.flow.reachable = true)
    {after : FlowExit}
    (follows : after.Follows
      (leaveLoopWith options element facts entry body record point).point.flow) :
    after.Admits entry.entered.definite ∧
      FlowExit.Relaxes entry.entered.definite (.after record.onBreak) after := by
  have beforeReached := enters.beforeReachable.trans reached
  have enteredReached := enters.enteredReachable.trans reached
  have beforeWithin : entry.before.definite.Within entry.entered.definite := by
    rw [enters.beforeDefinite, enters.enteredDefinite]
    refine (collection.within_definite _).trans ?_
    cases element.binding with
    | none =>
        exact .refl _
    | some id =>
        exact VarSet.within_insert id _
  obtain ⟨ranDefinite, ranReachable⟩ := entry.before.definite_afterRun enteredReached
  simp only [leaveLoopWith, FlowState.mergeBranches, Bool.false_eq_true, if_false] at follows
  generalize brokenIs : (if record.onBreak.reachable = true then
    entry.before.afterRun record.onBreak else record.onBreak) = broken at follows
  generalize exhaustedIs : (if body.analyzed = true then _ else entry.entered) = exhausted
    at follows
  have exhausted : exhausted.reachable = true ∧
      exhausted.definite.Within entry.entered.definite := by
    rw [← exhaustedIs]
    have ran : (entry.before.afterRun entry.entered).reachable = true ∧
        (entry.before.afterRun entry.entered).definite.Within entry.entered.definite := by
      rw [ranReachable, ranDefinite]
      exact ⟨beforeReached, .union beforeWithin (.refl _)⟩
    split
    · split <;> exact ran
    · exact ⟨enteredReached, .refl _⟩
  constructor
  · exact (follows.narrows (FlowState.narrows_merge_right _ _) exhausted.1).within exhausted.2
  · intro needed isBreak
    cases breaks : record.onBreak.reachable with
    | false =>
        simp [FlowExit.after, breaks] at isBreak
    | true =>
        obtain ⟨brokenDefinite, brokenReachable⟩ := entry.before.definite_afterRun breaks
        simp only [FlowExit.after, breaks, if_true, Option.some.injEq] at isBreak
        simp only [breaks, if_true] at brokenIs
        rw [brokenIs] at brokenDefinite brokenReachable
        obtain ⟨other, isAfter, within⟩ :=
          follows.narrows (FlowState.narrows_merge_left _ _) (brokenReachable.trans beforeReached)
        rw [brokenDefinite] at within
        rw [← isBreak]
        exact ⟨other, isAfter, within.trans
          (.union (beforeWithin.trans (VarSet.within_union_right _ _))
            (VarSet.within_union_left _ _))⟩

namespace CodeContext

variable
  {strict : Bool}
  {context : CodeContext}
  {options : CompilerOptions}

/-- Every local that exists in the code has reason to. -/
def Economical
    (context : CodeContext)
    (options : CompilerOptions) :
    Prop :=
  ∀ id, context.hasSlot id = true →
    (context.localAt id).isMaterialized options.keepUnusedLocals = true

/-- The locals of a method are declared in a state, and whether those of the
source are used is settled. -/
structure Agrees
    (context : CodeContext)
    (state : MethodState) :
    Prop where
  count : state.scope.locals.size = context.scope.locals.size
  isUsed : ∀ id, (context.localAt id).isSynthetic = false →
    (context.localAt id).isUsed = (state.localAt id).isUsed

/-- What loops mark unsettles nothing. -/
theorem Agrees.later
    {first last : Nat}
    {before after : MethodState}
    (agrees : context.Agrees before)
    (marks : before.Marks after)
    (touches : MethodScope.TouchesOnly (context.IntroducedWithin first last) before.scope
      after.scope) :
    context.Agrees after where
  count := marks.sameCount.trans agrees.count
  isUsed := by
    intro id isSource
    rw [agrees.isUsed id isSource]
    refine (touches id ?_).symm
    rintro ⟨-, -, isSynthetic⟩
    exact absurd isSynthetic (by simp [isSource])

/-- Where the locals stay the same, they stay settled. -/
theorem Agrees.sameScope
    {before after : MethodState}
    (agrees : context.Agrees before)
    (same : after.scope = before.scope) :
    context.Agrees after where
  count := by
    rw [same]
    exact agrees.count
  isUsed := by
    intro id isSource
    rw [agrees.isUsed id isSource, MethodState.localAt, MethodState.localAt, same]

/-- A local of the source that exists in the code has reason to already while
flow is analyzed. -/
theorem Agrees.isMaterialized
    (economical : context.Economical options)
    {state : MethodState}
    (agrees : context.Agrees state)
    (leads : state.Leads context.state)
    {home id : Nat}
    (declares : context.Declares home id)
    (exists_ : context.hasSlot id = true) :
    state.scope.isMaterialized options.keepUnusedLocals id = true := by
  have persists := leads.scope.persists id (by rw [agrees.count]; exact declares.known)
  have materialized := economical id exists_
  have sameUse := agrees.isUsed id declares.isSource
  have sameParam : (context.localAt id).isParam = (state.localAt id).isParam := persists.isParam
  have sameOrigin : (context.localAt id).isSynthetic = (state.localAt id).isSynthetic :=
    persists.isSynthetic
  change (state.localAt id).isMaterialized options.keepUnusedLocals = true
  rw [LocalVariable.isMaterialized] at materialized ⊢
  rwa [← sameUse, ← sameParam, ← sameOrigin]

/-- The locals of a loop that is left are provided. -/
theorem provides_leaveLoopWith
    (economical : context.Economical options)
    {element : LocalDecl}
    {collection : Expr}
    {facts met : LoopFacts}
    {outer first inner : Nat}
    {resolution : LoopResolution}
    (head : context.LoopHead strict element collection facts outer first inner resolution)
    (sameClassification : met.classification = facts.classification)
    {entry : LoopEntry}
    {body : LoopBody}
    {record : LoopRecord}
    {point : FlowPoint}
    (agrees : context.Agrees point.state)
    (settles : context.Settles
      (leaveLoopWith options element met entry body record point).point.state) :
    context.Provides resolution.strategy (Stmt.isEmptyAction body.action) first
      (body.comesBack record) := by
  have marked := scope_leaveLoopWith options element met entry body record point
  have marks := marks_leaveLoopWith options element met entry body record point
  rw [sameClassification, head.classification, head.binding] at marked
  obtain ⟨ty, -, iterates⟩ := head.iterated
  have known : ∀ id ∈ resolution.strategy.synthetics, id < point.state.scope.locals.size := by
    intro id member
    rw [agrees.count]
    exact iterates.known id member
  have isUsed : ∀ id ∈ resolution.strategy.synthetics,
      ((markSynthetics options (.resolved resolution) (Stmt.isEmptyAction body.action) (some first)
        (body.comesBack record) point.state.scope).localAt id).isUsed = true →
      (context.localAt id).isUsed = true := by
    intro id member used
    rw [← marked] at used
    refine (settles.persists ?_).isUsed used
    rw [marks.sameCount]
    exact known id member
  have leads := (settles.earlier marks.toLeads).leads
  cases strategy : resolution.strategy with
  | array index bound source =>
      simp only [strategy, LoopStrategy.synthetics, List.forall_mem_cons, List.not_mem_nil,
        false_imp_iff, implies_true, and_true] at known isUsed
      intro needed
      have touched : (!Stmt.isEmptyAction body.action ||
          point.state.scope.isMaterialized options.keepUnusedLocals first) = true := by
        rcases needed with acts | elementExists
        · simp [acts]
        · simp [agrees.isMaterialized economical leads head.declares elementExists]
      simp only [markSynthetics, LoopClassification.strategy?, LoopClassification.resolution?,
        Option.map_some, strategy, touched, if_true] at isUsed
      obtain ⟨indexKnown, boundKnown, sourceKnown⟩ := known
      have stored : ((point.state.scope.markUsed source).localAt source).isUsed = true :=
        MethodScope.isUsed_markUsed sourceKnown
      cases comesBack : body.comesBack record with
      | false =>
          simp only [comesBack, Bool.false_eq_true, if_false] at isUsed
          exact ⟨isUsed.2.2 stored, fun impossible => by cases impossible⟩
      | true =>
          simp only [comesBack, if_true] at isUsed
          have storedMarks := marks_markUse (some source) point.state
          have indexMarks := marks_markUse (some index) (markUse (some source) point.state)
          have boundMarks := marks_markUse (some bound)
            (markUse (some index) (markUse (some source) point.state))
          have indexStored := indexMarks.sameCount.trans storedMarks.sameCount
          have indexed := MethodScope.isUsed_markUsed
            (show index < (markUse (some source) point.state).scope.locals.size by
              rwa [storedMarks.sameCount])
          have bounded := MethodScope.isUsed_markUsed
            (show bound < (markUse (some index) (markUse (some source)
              point.state)).scope.locals.size by rwa [indexStored])
          have sourceUsed := ((indexMarks.trans boundMarks).scope.persists source
            (by rwa [storedMarks.sameCount])).isUsed stored
          have indexUsed := (boundMarks.scope.persists index (by rwa [indexStored])).isUsed indexed
          exact ⟨isUsed.2.2 sourceUsed, fun _ => ⟨isUsed.1 indexUsed, isUsed.2.1 bounded⟩⟩
  | rawIterable iterator receiver | genericIterable iterator receiver =>
      simp only [strategy, LoopStrategy.synthetics, List.forall_mem_cons, List.not_mem_nil,
        false_imp_iff, implies_true, and_true] at known isUsed
      simp only [Provides]
      apply isUsed
      simp only [markSynthetics, LoopClassification.strategy?, LoopClassification.resolution?,
        Option.map_some, strategy]
      exact MethodScope.isUsed_markUsed known

/-- A statement is a loop after flow analysis if it was one before. -/
theorem isLoop_analyzeStmt
    (options : CompilerOptions)
    (stmt : Stmt)
    (point : FlowPoint) :
    (analyzeStmt options stmt point).node.isLoop = stmt.isLoop := by
  cases stmt with
  | forEach span element collection action facts =>
      cases action <;> simp only [analyzeStmt] <;> cases facts.scope <;> rfl
  | branch span condition thenBranch elseBranch =>
      cases elseBranch <;> simp only [analyzeStmt] <;> rfl
  | returnWith span value =>
      cases value <;> simp only [analyzeStmt]
  | _ =>
      simp only [analyzeStmt, Stmt.isLoop]

/-- A jump without an error has a target. -/
theorem exists_jump
    {span : Span}
    {target : Except JumpError JumpStack}
    {point : FlowPoint}
    (clean : (point.jump span target).state.Clean) :
    ∃ jumps, target = .ok jumps ∧ (point.jump span target).jumps = jumps := by
  cases target with
  | ok jumps =>
      exact ⟨jumps, rfl, rfl⟩
  | error cause =>
      simp [FlowPoint.jump, FlowPoint.report, Issue.severity] at clean

/-- A loop comes back to where its body is entered. -/
theorem relaxes_again
    {facts : LoopFacts}
    {flow : FlowState}
    (entered : VarSet)
    (comesBack : flow.reachable = true → facts.continues = true) :
    FlowExit.Relaxes entered (.after flow) (facts.again entered) := by
  intro needed isAfter
  cases reached : flow.reachable with
  | false =>
      simp [FlowExit.after, reached] at isAfter
  | true =>
      exact ⟨entered, by simp [LoopFacts.again, comesBack reached],
        VarSet.within_union_right _ _⟩

/-- A loop is entered where its analysis does so without an error. -/
theorem entersLoop_leaveLoopWith
    (economical : context.Economical options)
    {element : LocalDecl}
    {collection : Expr}
    {facts : LoopFacts}
    {outer first inner : Nat}
    {resolution : LoopResolution}
    (head : context.LoopHead strict element collection facts outer first inner resolution)
    {start point : FlowPoint}
    (reached : start.flow.reachable = true)
    {body : LoopBody}
    {record : LoopRecord}
    (leads : (LoopLowering.enterLoop options inner element collection start).body.state.Leads
      point.state)
    (agrees : context.Agrees point.state)
    (settles : context.Settles (leaveLoopWith options element (facts.met start.flow.reachable)
      (LoopLowering.enterLoop options inner element collection start) body record
        point).point.state) :
    context.EntersLoop element collection body.action
      (leaveLoopWith options element (facts.met start.flow.reachable)
        (LoopLowering.enterLoop options inner element collection start) body record point).facts
      start.flow.definite := by
  have used := start.evaluates_checkDereference options collection
  have usedReached := used.reachable.trans reached
  have declared := evaluates_analyzeDecl options element
    (start.checkDereference options collection)
  have marks := marks_leaveLoopWith options element (facts.met start.flow.reachable)
    (LoopLowering.enterLoop options inner element collection start) body record point
  have enteredClean : (LoopLowering.enterLoop options inner element collection
    start).body.state.Clean :=
    leads.isClean (marks.isClean settles.isClean)
  have evaluatedClean : (analyzeExpr options collection (analyzeDecl options element
      (start.checkDereference options collection))).state.Clean := enteredClean
  have declaredClean := (marks_analyzeExpr options collection _).isClean evaluatedClean
  have elementReads := readsAssigned_analyzeDecl usedReached declaredClean
  have collectionReads := readsAssigned_analyzeExpr (declared.reachable.trans usedReached)
    evaluatedClean
  rw [used.definite] at elementReads
  rw [declared.definite, used.definite] at collectionReads
  refine ⟨reached, elementReads, collectionReads, ?_⟩
  intro other id classification binding
  have isResolution : (LoopClassification.resolved resolution) = .resolved other :=
    head.classification.symm.trans classification
  obtain rfl := LoopClassification.resolved.inj isResolution
  obtain rfl := Option.some.inj (head.binding.symm.trans binding)
  exact provides_leaveLoopWith economical head rfl agrees settles

mutual

/-- A resolved statement that is analyzed without an error runs to its exits. -/
theorem runs_analyzeStmt
    (economical : context.Economical options) :
    ∀ {stmt : Stmt} {block first : Nat},
      context.Resolved strict stmt block first →
      ∀ {point : FlowPoint} {frames : List JumpFrame} {after : FlowExit},
        point.flow.reachable = true →
        context.Agrees point.state →
        context.Settles (analyzeStmt options stmt point).point.state →
        (analyzeStmt options stmt point).point.jumps.Fits frames →
        after.Follows (analyzeStmt options stmt point).point.flow →
        context.Runs (analyzeStmt options stmt point).node frames point.flow.definite after
  | .localVar span decl, block, first, resolved, point, frames, after, reached, agrees, settles,
      fits, follows => by
      have declared := evaluates_analyzeDecl options decl point
      simp only [analyzeStmt, Runs] at settles follows ⊢
      rw [← declared.definite]
      exact ⟨readsAssigned_analyzeDecl reached settles.isClean,
        follows (declared.reachable.trans reached)⟩
  | .expr span value, block, first, resolved, point, frames, after, reached, agrees, settles,
      fits, follows => by
      have evaluated := evaluates_analyzeExpr options value point
      simp only [analyzeStmt, Runs] at settles follows ⊢
      rw [← evaluated.definite]
      exact ⟨readsAssigned_analyzeExpr reached settles.isClean,
        follows (evaluated.reachable.trans reached)⟩
  | .block span stmts facts, block, first, resolved, point, frames, after, reached, agrees,
      settles, fits, follows => by
      rw [Resolved] at resolved
      obtain ⟨inner, -, -, resolvedBody⟩ := resolved
      simp only [analyzeStmt, Runs] at settles fits follows ⊢
      exact runs_analyzeStmts economical resolvedBody reached agrees settles fits follows
  | .branch span condition thenBranch none, block, first, resolved, point, frames, after, reached,
      agrees, settles, fits, follows => by
      rw [Resolved] at resolved
      have tested := evaluates_analyzeExpr options condition point
      have testedReached := tested.reachable.trans reached
      simp only [analyzeStmt, Runs] at settles fits follows ⊢
      have settlesThen : context.Settles (analyzeStmt options thenBranch
          (analyzeExpr options condition point)).point.state := settles
      have testedClean := (marks_analyzeStmt options thenBranch _).isClean settlesThen.isClean
      have thenRuns := runs_analyzeStmt economical resolved.2 testedReached
        (agrees.sameScope tested.scope) settlesThen fits
        (follows.narrows (FlowState.narrows_merge_left _ _))
      rw [← tested.definite]
      exact ⟨readsAssigned_analyzeExpr reached testedClean, thenRuns,
        follows.narrows (FlowState.narrows_merge_right _ _) testedReached⟩
  | .branch span condition thenBranch (some elseBranch), block, first, resolved, point, frames,
      after, reached, agrees, settles, fits, follows => by
      rw [Resolved] at resolved
      have tested := evaluates_analyzeExpr options condition point
      have testedReached := tested.reachable.trans reached
      simp only [analyzeStmt, Runs] at settles fits follows ⊢
      have elseReached : ({ (analyzeStmt options thenBranch
          (analyzeExpr options condition point)).point with
            flow := (analyzeExpr options condition point).flow } : FlowPoint).flow.reachable =
          true := testedReached
      have settlesElse : context.Settles (analyzeStmt options elseBranch
          { (analyzeStmt options thenBranch (analyzeExpr options condition point)).point with
            flow := (analyzeExpr options condition point).flow }).point.state := settles
      have elseMarks := marks_analyzeStmt options elseBranch
        { (analyzeStmt options thenBranch (analyzeExpr options condition point)).point with
          flow := (analyzeExpr options condition point).flow }
      have thenMarks := marks_analyzeStmt options thenBranch (analyzeExpr options condition point)
      have settlesThen := settlesElse.earlier elseMarks.toLeads
      have testedClean := thenMarks.isClean settlesThen.isClean
      have testedAgrees := agrees.sameScope tested.scope
      have thenRuns := runs_analyzeStmt economical resolved.2.1 testedReached testedAgrees
        settlesThen (fits.narrows (narrows_analyzeStmt options elseBranch elseReached))
        (follows.narrows (FlowState.narrows_merge_left _ _))
      have elseRuns := runs_analyzeStmt economical resolved.2.2 elseReached
        (testedAgrees.later thenMarks (touchesOnly_analyzeStmt resolved.2.1 _)) settlesElse fits
        (follows.narrows (FlowState.narrows_merge_right _ _))
      rw [← tested.definite]
      exact ⟨readsAssigned_analyzeExpr reached testedClean, thenRuns, elseRuns⟩
  | .forEach span element collection none facts, block, first, resolved, point, frames, after,
      reached, agrees, settles, fits, follows => by
      rw [Resolved] at resolved
      obtain ⟨inner, resolution, head⟩ := resolved
      have enters := enters_enterLoop options inner element collection point
      obtain ⟨jumps, narrows, isPushed⟩ := enters.jumps
      have leave := leaveLoop_eq options element (facts.met point.flow.reachable)
        (LoopLowering.enterLoop options inner element collection point)
        ⟨none, false, false, (LoopLowering.enterLoop options inner element collection point).body⟩
          isPushed
      simp only [analyzeStmt, head.scope, leave, Runs] at settles fits follows ⊢
      obtain ⟨exhausted, -⟩ := exits_leaveLoopWith enters reached follows
      rw [enters.enteredDefinite] at exhausted
      refine ⟨entersLoop_leaveLoopWith economical head reached ?_ ?_ settles, rfl, exhausted⟩
      · exact .refl _
      · exact agrees.sameScope enters.scope
  | .forEach span element collection (some action) facts, block, first, resolved, point, frames,
      after, reached, agrees, settles, fits, follows => by
      rw [Resolved] at resolved
      obtain ⟨inner, resolution, head, resolvedAction⟩ := resolved
      have enters := enters_enterLoop options inner element collection point
      have bodyReached := enters.bodyReachable.trans reached
      obtain ⟨jumps, narrows, isPushed⟩ := enters.jumps
      have bodyAgrees : context.Agrees
          (LoopLowering.enterLoop options inner element collection point).body.state :=
        agrees.sameScope enters.scope
      by_cases skips : skipsAction options action = true
      · have leave := leaveLoop_eq options element (facts.met point.flow.reachable)
          (LoopLowering.enterLoop options inner element collection point)
          ⟨some action, false, false, (LoopLowering.enterLoop options inner element collection
            point).body⟩
          isPushed
        simp only [analyzeStmt, head.scope, skips, if_true, leave, Runs] at settles fits follows ⊢
        obtain ⟨exhausted, -⟩ := exits_leaveLoopWith enters reached follows
        rw [enters.enteredDefinite] at exhausted
        simp only [skipsAction, Bool.and_eq_true] at skips
        refine ⟨entersLoop_leaveLoopWith economical head reached ?_ ?_ settles, exhausted,
          .inl ⟨skips.1, rfl⟩⟩
        · exact .refl _
        · exact bodyAgrees
      · have ran := narrows_analyzeStmt options action bodyReached
        rw [isPushed] at ran
        obtain ⟨record, rest, isLeft, restNarrows⟩ := ran.exists_loop
        have leave := leaveLoop_eq options element (facts.met point.flow.reachable)
          (LoopLowering.enterLoop options inner element collection point)
          ⟨some (analyzeStmt options action
              (LoopLowering.enterLoop options inner element collection point).body).node, true,
                true,
            (analyzeStmt options action
              (LoopLowering.enterLoop options inner element collection point).body).point⟩
          isLeft
        simp only [analyzeStmt, head.scope, skips, bodyReached, Bool.false_eq_true, if_false,
          if_true, leave, Runs] at settles fits follows ⊢
        have actionMarks := marks_analyzeStmt options action
          (LoopLowering.enterLoop options inner element collection point).body
        have leaveMarks := marks_leaveLoopWith options element
          (facts.met point.flow.reachable) (LoopLowering.enterLoop options inner element collection
            point)
          ⟨some (analyzeStmt options action
            (LoopLowering.enterLoop options inner element collection point).body).node, true, true,
            (analyzeStmt options action
              (LoopLowering.enterLoop options inner element collection point).body).point⟩ record
          { (analyzeStmt options action
            (LoopLowering.enterLoop options inner element collection point).body).point with jumps
              := rest }
        have leaveNarrows := narrows_leaveLoopWith options element
          (facts.met point.flow.reachable) (LoopLowering.enterLoop options inner element collection
            point)
          ⟨some (analyzeStmt options action
            (LoopLowering.enterLoop options inner element collection point).body).node, true, true,
            (analyzeStmt options action
              (LoopLowering.enterLoop options inner element collection point).body).point⟩ record
          { (analyzeStmt options action
            (LoopLowering.enterLoop options inner element collection point).body).point with jumps
              := rest }
        have actionSettles := settles.earlier leaveMarks.toLeads
        have actionAgrees := bodyAgrees.later actionMarks
          (touchesOnly_analyzeStmt resolvedAction _)
        have actionFits : (analyzeStmt options action
            (LoopLowering.enterLoop options inner element collection point).body).point.jumps.Fits
              (.loop (.after record.onBreak) (.after record.onContinue) :: frames) := by
          rw [isLeft]
          exact ⟨FlowExit.follows_after _, FlowExit.follows_after _,
            fits.narrows leaveNarrows⟩
        have actionRuns := runs_analyzeStmt economical resolvedAction bodyReached bodyAgrees
          actionSettles actionFits (FlowExit.follows_after _)
        obtain ⟨exhausted, onBreak⟩ := exits_leaveLoopWith enters reached follows
        rw [enters.bodyDefinite, enters.enteredDefinite] at actionRuns
        rw [enters.enteredDefinite] at exhausted onBreak
        refine ⟨entersLoop_leaveLoopWith economical head reached ?_ ?_ settles, exhausted,
          .inr ⟨rfl, actionRuns.relax (.refl _) ⟨onBreak, ?_, .refl _ frames⟩ ?_⟩⟩
        · exact actionMarks.toLeads
        · exact actionAgrees
        · exact relaxes_again _ fun continued => by
            simp [facts_leaveLoopWith, LoopBody.comesBack, continued]
        · exact relaxes_again _ fun ended => by
            simp [facts_leaveLoopWith, LoopBody.comesBack, ended]
  | .labeled span label body, block, first, resolved, point, frames, after, reached, agrees,
      settles, fits, follows => by
      rw [Resolved] at resolved
      have bodyReached : ({ point with
          jumps := point.jumps.pushLabel label.node body.isLoop } : FlowPoint).flow.reachable =
          true := reached
      obtain ⟨record, rest, isLeft, sameName, sameLoop, restNarrows⟩ :=
        (narrows_analyzeStmt options body bodyReached).exists_label
      simp only [analyzeStmt, isLeft, JumpStack.popLabel, FlowPoint.mapFlow, Runs]
        at settles fits follows ⊢
      rw [isLoop_analyzeStmt]
      have bodyFits : (analyzeStmt options body
          { point with jumps := point.jumps.pushLabel label.node body.isLoop }).point.jumps.Fits
            (.label label.node body.isLoop after :: frames) := by
        rw [isLeft]
        exact ⟨sameName, sameLoop, follows.narrows (FlowState.narrows_merge_right _ _), fits⟩
      exact runs_analyzeStmt economical resolved bodyReached agrees settles bodyFits
        (follows.narrows (FlowState.narrows_merge_left _ _))
  | .breakTo span label, block, first, resolved, point, frames, after, reached, agrees, settles,
      fits, follows => by
      simp only [analyzeStmt, Runs] at settles fits ⊢
      obtain ⟨jumps, recorded, isJump⟩ := exists_jump settles.isClean
      rw [isJump] at fits
      exact ((JumpStack.takes_of_recordBreak recorded).admits reached fits).2
  | .continueTo span label, block, first, resolved, point, frames, after, reached, agrees, settles,
      fits, follows => by
      simp only [analyzeStmt, Runs] at settles fits ⊢
      obtain ⟨jumps, recorded, isJump⟩ := exists_jump settles.isClean
      rw [isJump] at fits
      exact ((JumpStack.takes_of_recordContinue recorded).admits reached fits).2
  | .returnWith span none, block, first, resolved, point, frames, after, reached, agrees, settles,
      fits, follows => by
      simp only [analyzeStmt, Runs]
  | .returnWith span (some value), block, first, resolved, point, frames, after, reached, agrees,
      settles, fits, follows => by
      simp only [analyzeStmt, Runs] at settles ⊢
      exact readsAssigned_analyzeExpr reached settles.isClean
  | .empty span, block, first, resolved, point, frames, after, reached, agrees, settles, fits,
      follows => by
      simp only [analyzeStmt, Runs] at follows ⊢
      exact follows reached

theorem runs_analyzeStmts
    (economical : context.Economical options) :
    ∀ {stmts : List Stmt} {block first : Nat},
      context.AllResolved strict stmts block first →
      ∀ {point : FlowPoint} {frames : List JumpFrame} {after : FlowExit},
        point.flow.reachable = true →
        context.Agrees point.state →
        context.Settles (analyzeStmts options stmts point).point.state →
        (analyzeStmts options stmts point).point.jumps.Fits frames →
        after.Follows (analyzeStmts options stmts point).point.flow →
        (analyzeStmts options stmts point).unreachableFrom = none ∧
          context.AllRun (analyzeStmts options stmts point).nodes frames point.flow.definite after
  | [], block, first, resolved, point, frames, after, reached, agrees, settles, fits,
      follows => by
      simp only [analyzeStmts, AllRun] at follows ⊢
      exact ⟨trivial, follows reached⟩
  | stmt :: rest, block, first, resolved, point, frames, after, reached, agrees, settles, fits,
      follows => by
      rw [AllResolved] at resolved
      simp only [analyzeStmts, reached, if_true, AllRun] at settles fits follows ⊢
      have headMarks := marks_analyzeStmt options stmt point
      have restMarks := marks_analyzeStmts options rest (analyzeStmt options stmt point).point
      have headSettles := settles.earlier restMarks.toLeads
      cases goesOn : (analyzeStmt options stmt point).point.flow.reachable with
      | true =>
          have headFits := fits.narrows (narrows_analyzeStmts options rest goesOn)
          have headRuns := runs_analyzeStmt economical resolved.1 reached agrees headSettles
            headFits
            (FlowExit.follows_after _)
          obtain ⟨inReach, restRuns⟩ := runs_analyzeStmts economical resolved.2 goesOn
            (agrees.later headMarks (touchesOnly_analyzeStmt resolved.1 _)) settles fits follows
          refine ⟨by rw [inReach]; rfl, _, headRuns, ?_, ?_⟩
          · simp [FlowExit.after, goesOn]
          · intro set isAfter
            simp only [FlowExit.after, goesOn, if_true, Option.some.injEq] at isAfter
            rwa [← isAfter]
      | false =>
          cases rest with
          | nil =>
              simp only [analyzeStmts] at settles fits follows ⊢
              have headRuns := runs_analyzeStmt economical resolved.1 reached agrees settles fits
                (FlowExit.follows_after _)
              refine ⟨rfl, _, headRuns, fun _ => trivial, ?_⟩
              intro set isAfter
              simp [FlowExit.after, goesOn] at isAfter
          | cons next rest =>
              simp only [analyzeStmts, goesOn, Bool.false_eq_true, if_false] at settles
              have reported := settles.isClean
              simp [FlowPoint.report, Issue.severity] at reported

end

end CodeContext

end LoopLowering
