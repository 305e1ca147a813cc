import LoopLowering.Proofs.Code.Completeness
import LoopLowering.Proofs.Code.Targets
import LoopLowering.Proofs.Flow.Resolved
import LoopLowering.Proofs.Machine.LedgerLoops

namespace LoopLowering

/-!
# Ledgers of statements

The code of a statement that runs goes on safely if what its exits lead to does.
-/

namespace CodeContext

namespace Ledger

variable
  {strict : Bool}
  {context : CodeContext}
  {ledger : context.Ledger}
  {code : MethodCode}
  {steps : Nat}

/-- A loop costs a ledger nothing beyond its code: an initial value of its
element, which has no code, assigns nothing that the ledger does not know, and a
loop that never comes back does not need its index. -/
structure SuitsHead
    (ledger : context.Ledger)
    (head : LocalDecl × LoopFacts) :
    Prop where
  initial : ∀ {place : Place} {set : VarSet} {trail : Trail},
    ledger.knows place set trail → ledger.knows place (head.1.definite set) trail
  index : ∀ {resolution : LoopResolution} {index bound source : LocalId},
    head.2.classification = .resolved resolution →
    resolution.strategy = .array index bound source →
    head.2.continues = false →
    ∀ {place : Place} {set : VarSet} {slot : UInt16} {trail : Trail},
      ledger.knows place set trail →
      (context.localAt index).slot = some slot →
      ledger.demand (.load (CodeStream.kindOf context.scope index) slot) trail

/-- What is known at a place where what an exit asks for is assigned. -/
def knowsAt
    (ledger : context.Ledger)
    (place : Place)
    (exit : FlowExit) :
    Knowledge :=
  fun trail => ∃ needed, exit = some needed ∧ ledger.knows place needed trail

/-- A branch target is that of an exit to a place around and after another. -/
def LeadsTo
    (ledger : context.Ledger)
    (code : MethodCode)
    (steps : Nat)
    (place : Place)
    (exit : FlowExit)
    (label : Label) :
    Prop :=
  ∃ outer : Place, outer.block ∈ context.scope.enclosing place.block ∧
    place.count ≤ outer.count ∧
    code.ContinuesAt ledger.demand steps label (ledger.knowsAt outer exit)

/-- Where more is assigned than an exit asks for, the exit can be taken. -/
theorem knowsAt_of_admits
    {place outer : Place}
    {exit : FlowExit}
    {set : VarSet}
    {trail : Trail}
    (around : outer.block ∈ context.scope.enclosing place.block)
    (counted : place.count ≤ outer.count)
    (admits : exit.Admits set)
    (knows : ledger.knows place set trail) :
    ledger.knowsAt outer exit trail := by
  obtain ⟨needed, isExit, within⟩ := admits
  exact ⟨needed, isExit, ledger.weaken knows around counted fun id member =>
    .inl (within id member)⟩

/-- A branch target also belongs to an exit further inside, and for fewer
steps. -/
theorem LeadsTo.inside
    (wellFormed : context.scope.WellFormed)
    {place inner : Place}
    {exit : FlowExit}
    {label : Label}
    (leads : ledger.LeadsTo code steps place exit label)
    {fewer : Nat}
    (isFewer : fewer ≤ steps)
    (around : place.block ∈ context.scope.enclosing inner.block)
    (counted : inner.count ≤ place.count) :
    ledger.LeadsTo code fewer inner exit label := by
  obtain ⟨outer, isAround, isCounted, continues⟩ := leads
  exact ⟨outer, wellFormed.mem_enclosing_trans around isAround, Nat.le_trans counted isCounted,
    continues.relax isFewer fun _ knows => knows⟩

/-- A jump to an exit goes on safely. -/
theorem LeadsTo.continues_goto
    {place : Place}
    {exit : FlowExit}
    {label : Label}
    (leads : ledger.LeadsTo code steps place exit label)
    {set : VarSet}
    (admits : exit.Admits set)
    {stream : CodeStream}
    (completes : code.Completes (stream.emit (.goto label))) :
    code.Continues ledger.demand steps stream (ledger.knows place set) := by
  obtain ⟨outer, around, counted, continues⟩ := leads
  exact (Ledger.continues_goto completes (continues.relax (Nat.le_refl steps) fun _ knows =>
    knowsAt_of_admits around counted admits knows)).fewer (Nat.le_succ steps)

/-- A condition that is branched on goes on either way. -/
theorem continues_branchOn
    {place : Place}
    {condition : Expr}
    {ty : Ty}
    {set : VarSet}
    {branchIf : Bool}
    {label : Label}
    {stream after : CodeStream}
    (sound : context.Sound strict)
    (counted : place.count ≤ context.scope.locals.size)
    (typed : context.HasType strict place condition ty)
    (reads : condition.ReadsAssigned set)
    (branched : context.branchOn condition branchIf label stream = .ok after)
    (continues : code.Continues ledger.demand steps after
      (ledger.knows place (condition.definite set)))
    (target : code.ContinuesAt ledger.demand steps label
      (ledger.knows place (condition.definite set))) :
    code.Continues ledger.demand steps stream (ledger.knows place set) := by
  have byValue : context.branchOnValue condition branchIf label stream = .ok after →
      code.Continues ledger.demand steps stream (ledger.knows place set) := by
    intro valued
    simp only [branchOnValue, bind_eq_ok, pure_eq_ok] at valued
    obtain ⟨pushed, isPushed, rfl⟩ := valued
    have tested := (continues.branch target rfl fun trail knows =>
      ⟨ledger.plain rfl, ledger.carries knows (by simp)⟩).fewer (Nat.le_succ steps)
    exact advances_pushExpr sound counted typed reads isPushed
      (continues_plainly (.convertAssigned .refl _ _ _) tested)
  cases condition with
  | boolLit span value =>
      simp only [branchOn, Except.ok.injEq] at branched
      subst branched
      simp only [Expr.definite] at continues target
      split at continues
      · exact (Ledger.continues_goto continues.completes target).fewer (Nat.le_succ steps)
      · exact continues
  | binary span op left right =>
      simp only [branchOn] at branched
      split at branched
      · rw [HasType] at typed
        obtain ⟨leftTy, rightTy, leftTyped, rightTyped, -⟩ := typed
        simp only [Expr.ReadsAssigned] at reads
        simp only [Expr.definite] at continues target
        exact continues_branchOnComparison
          (advances_pushExpr sound counted leftTyped reads.1)
          (advances_pushExpr sound counted rightTyped reads.2) branched continues target
      · exact byValue branched
  | _ =>
      exact byValue branched

/-- A declaration makes its local known if it has an initial value. -/
theorem continues_pushDeclaration
    {decl : LocalDecl}
    {block first : Nat}
    {set : VarSet}
    {stream after : CodeStream}
    (sound : context.Sound strict)
    (binding : decl.binding = some first)
    (declares : context.Declares block first)
    (gives : ∀ value, decl.initial = some value →
      context.Gives strict ⟨block, first + 1⟩ value (context.localAt first).type)
    (reads : decl.ReadsAssigned set)
    (pushed : context.pushDeclaration decl stream = .ok after)
    (continues : code.Continues ledger.demand steps after
      (ledger.knows ⟨block, first + 1⟩ (decl.definite set))) :
    code.Continues ledger.demand steps stream (ledger.knows ⟨block, first⟩ set) := by
  have sees : context.scope.Sees block (first + 1) first := by
    refine ⟨Nat.lt_succ_self first, ?_⟩
    have home : (context.scope.localAt first).scope = block := declares.home
    rw [home]
    exact sound.wellFormed.mem_enclosing_self block
  have declared : code.Continues ledger.demand steps stream
      (ledger.knows ⟨block, first + 1⟩ set) := by
    simp only [pushDeclaration, binding] at pushed
    cases initial : decl.initial with
    | none =>
        simp only [initial, Except.ok.injEq] at pushed
        simp only [LocalDecl.definite, initial] at continues
        exact pushed ▸ continues
    | some value =>
        obtain ⟨ty, typed, -⟩ := gives value initial
        simp only [initial] at pushed
        simp only [LocalDecl.definite, initial, binding, VarSet.insertBinding] at continues
        exact advances_assignSimple sees
          (fun _ => advances_pushExpr sound (Nat.succ_le_of_lt declares.known) typed
            (reads value initial)) pushed continues
  exact declared.strengthen fun trail knows =>
    ledger.later sound.wellFormed knows (Nat.le_succ first)

/-- A return of a value evaluates the value and ends the execution. -/
theorem continues_pushReturn
    {place : Place}
    {value : Expr}
    {ty : Ty}
    {set : VarSet}
    {stream after : CodeStream}
    (sound : context.Sound strict)
    (counted : place.count ≤ context.scope.locals.size)
    (typed : context.HasType strict place value ty)
    (reads : value.ReadsAssigned set)
    (pushed : context.pushReturn value stream = .ok after)
    (completes : code.Completes after) :
    code.Continues ledger.demand steps stream (ledger.knows place set) := by
  simp only [pushReturn, bind_eq_ok, pure_eq_ok] at pushed
  obtain ⟨valued, isPushed, rfl⟩ := pushed
  exact advances_pushExpr sound counted typed reads isPushed
    (continues_plainly (.convertAssigned .refl _ _ _)
      (.finish completes rfl rfl fun _ _ => ledger.plain rfl))

/-- A loop whose action does nothing and runs comes back. -/
theorem comesBack_of_isEmpty
    {action : Stmt}
    {frames : List JumpFrame}
    {facts : LoopFacts}
    {entered : VarSet}
    (isEmpty : Stmt.isEmptyAction (some action) = true)
    (runs : context.Runs action frames entered (facts.again entered)) :
    facts.continues = true := by
  have admits : (facts.again entered).Admits entered := by
    cases action with
    | empty span =>
        simpa only [Runs] using runs
    | block span stmts blockFacts =>
        cases stmts with
        | nil =>
            simpa only [Runs, AllRun] using runs.2
        | cons stmt rest =>
            simp [Stmt.isEmptyAction, Stmt.isEmptyBlock, Stmt.isEmptyStmt] at isEmpty
    | _ =>
        simp [Stmt.isEmptyAction, Stmt.isEmptyBlock, Stmt.isEmptyStmt] at isEmpty
  obtain ⟨needed, isAgain, -⟩ := admits
  simp only [LoopFacts.again, Option.ite_none_right_eq_some] at isAgain
  exact isAgain.1

section Loops

variable
  {element : LocalDecl}
  {collection : Expr}
  {action : Option Stmt}
  {facts : LoopFacts}
  {outer first inner total : Nat}
  {resolution : LoopResolution}
  {before : VarSet}
  {exit : FlowExit}

/-- The exit of a loop can be taken where its collection is evaluated: the
element, which the exit may count as assigned, is not seen there. -/
theorem knowsAt_exit
    (sound : context.Sound strict)
    (head : context.LoopHead strict element collection facts outer first inner resolution)
    {count : Nat}
    (counted : count ≤ total)
    (declared : first < total)
    {set larger : VarSet}
    (within : set.Within larger)
    (admits : exit.Admits (set.insert first))
    {trail : Trail}
    (knows : ledger.knows ⟨inner, count⟩ larger trail) :
    ledger.knowsAt ⟨outer, total⟩ exit trail := by
  have wellFormed := sound.wellFormed
  obtain ⟨needed, isExit, needs⟩ := admits
  refine ⟨needed, isExit, ledger.weaken knows ?_ counted ?_⟩
  · rw [wellFormed.enclosing_eq inner, head.opens.parent]
    exact List.mem_cons_of_mem _ (wellFormed.mem_enclosing_self outer)
  · intro id member
    have entered := needs id member
    simp only [VarSet.contains_insert, Bool.or_eq_true, decide_eq_true_eq] at entered
    rcases entered with known | rfl
    · exact .inl (within id known)
    · refine .inr ⟨declared, fun around => ?_⟩
      rw [head.declares.home] at around
      exact absurd (wellFormed.parentOlder head.opens.parent)
        (Nat.not_lt.mpr (wellFormed.le_of_mem_enclosing around))

/-- The locals of a resolved loop are seen in its scope. -/
theorem seesLoop
    (sound : context.Sound strict)
    (head : context.LoopHead strict element collection facts outer first inner resolution)
    {plan : LoopPlan}
    (isResolution : plan.resolution = resolution)
    (isElement : plan.element = first) :
    context.SeesLoop ⟨inner, first + 1 + resolution.strategy.synthetics.length⟩ plan := by
  obtain ⟨ty, -, iterates⟩ := head.iterated
  have atHome := sound.wellFormed.mem_enclosing_self inner
  refine ⟨⟨?_, ?_⟩, ?_, ?_⟩
  · rw [isElement]
    change first < first + 1 + _
    omega
  · have home : (context.scope.localAt first).scope = inner := head.declares.home
    rw [isElement, home]
    exact atHome
  · intro id member
    rw [isResolution] at member
    obtain ⟨-, declared, entry, introduces⟩ := iterates.introduces id member
    have home : (context.scope.localAt id).scope = inner := introduces.home
    exact ⟨declared, by rw [home]; exact atHome⟩
  · intro index bound source strategy
    rw [isResolution] at strategy
    obtain ⟨shape, -, isStrategy, introduces⟩ := iterates.shaped
    cases shape with
    | array =>
        rw [strategy] at isStrategy
        obtain ⟨rfl, -, -⟩ := LoopStrategy.array.inj isStrategy
        exact (introduces 0 (LoopShape.indexName, .int) rfl).type
    | rawIterable receiver | genericIterable receiver =>
        rw [strategy] at isStrategy
        cases isStrategy

/-- A loop goes on safely if its action does, wherever the loop leads. -/
theorem continues_pushLoop
    {span : Span}
    {scope : ScopeId}
    {pushAction : JumpTarget → ScopeId → CodeStep}
    {stream after : CodeStream}
    (sound : context.Sound strict)
    (head : context.LoopHead strict element collection facts outer first inner resolution)
    (enters : context.EntersLoop element collection action facts before)
    (suits : ledger.SuitsHead (element, facts))
    (counted : first + 1 + resolution.strategy.synthetics.length ≤ total)
    (known : total ≤ context.scope.locals.size)
    (admits : exit.Admits (element.enteredWith collection before))
    (complete : ∀ target inner, (pushAction target inner).Appends)
    (looped : context.pushLoop span element collection action facts scope pushAction stream =
      .ok after)
    (continues : code.Continues ledger.demand steps after
      (ledger.knowsAt ⟨outer, total⟩ exit))
    (passes : Stmt.isEmptyAction action = true ∨ facts.actionReachable = false →
      facts.continues = true)
    (runs : Stmt.isEmptyAction action = false → facts.actionReachable = true →
      ∀ fewer ≤ steps, ∀ {entered : VarSet} {onBreak : Label} {onContinue : Option Label}
        {fetched ran : CodeStream},
        (element.enteredWith collection before).Within entered →
        pushAction (.loop onBreak onContinue) inner fetched = .ok ran →
        code.ContinuesAt ledger.demand fewer onBreak (ledger.knowsAt ⟨outer, total⟩ exit) →
        (∀ next, onContinue = some next →
          code.ContinuesAt ledger.demand fewer next
            (ledger.knowsAt ⟨inner, total⟩ (facts.again entered))) →
        code.Continues ledger.demand fewer ran
          (ledger.knowsAt ⟨inner, total⟩ (facts.again entered)) →
        code.Continues ledger.demand fewer fetched
          (ledger.knows ⟨inner, first + 1 + resolution.strategy.synthetics.length⟩ entered)) :
    code.Continues ledger.demand steps stream (ledger.knows ⟨outer, first⟩ before) := by
  have wellFormed := sound.wellFormed
  obtain ⟨ty, typed, -⟩ := head.iterated
  have collectionKnown : first + 1 ≤ context.scope.locals.size := by omega
  simp only [LocalDecl.enteredWith, head.binding, VarSet.insertBinding] at admits
  -- The element is declared and the collection evaluated in the scope of the loop.
  have evaluates : ∀ {wanted : Bool} {pushed : CodeStream},
      context.pushExpr collection wanted stream = .ok pushed →
      code.Continues ledger.demand steps pushed
        (ledger.knows ⟨inner, first + 1⟩ (collection.definite (element.definite before))) →
      code.Continues ledger.demand steps stream (ledger.knows ⟨outer, first⟩ before) := by
    intro wanted pushed isPushed goesOn
    refine (advances_pushExpr sound collectionKnown typed enters.collectionReads isPushed
      goesOn).strengthen fun trail knows => ?_
    exact ledger.later wellFormed (ledger.enter (suits.initial knows) head.opens) (Nat.le_succ first)
  simp only [pushLoop, enters.reachable, if_true, head.classification, head.scope, head.binding,
    pushPlanned] at looped
  split at looped
  · simp only [pushEffects, bind_eq_ok, pure_eq_ok] at looped
    obtain ⟨done, ⟨ran, isRan, rfl⟩, rfl⟩ := looped
    refine evaluates isRan ((continues.sameCode ?_).strengthen fun trail knows =>
      knowsAt_exit sound head (by omega) (by omega) (.refl _) admits knows)
    exact (CodeStream.SameCode.trans ⟨rfl, rfl⟩ (sameCode_settleRanges context _
      (ran.exitScope context.scope inner))).trans (CodeStream.markSource_same _ _ _)
  · simp only [bind_eq_ok, pure_eq_ok] at looped
    obtain ⟨done, iterated, rfl⟩ := looped
    obtain ⟨iteration⟩ := exists_iteration iterated
    have unmarked := continues.sameCode (CodeStream.markSource_same _ _ _)
    refine evaluates iteration.isPushed ((continues_iteration iteration wellFormed ?_
      (seesLoop sound head rfl rfl) ?_ ?_ unmarked ?_).strengthen fun trail knows =>
        ledger.later wellFormed knows (Nat.le_add_right _ _))
    · intro target
      split
      · exact complete _ _
      · intro stream after isSame
        exact Except.ok.inj isSame ▸ .refl _
    · intro index bound source strategy comesBack
      exact suits.index head.classification strategy comesBack
    · exact fun trail knows => knowsAt_exit sound head counted (by omega)
        (LoopPlan.within_startedWith _ _) admits knows
    · intro fewer isFewer onBreak onContinue fetched ran isRan atBreak atContinue ending
      dsimp only at atContinue ending ⊢
      generalize entersWith : LoopPlan.startedWith _ _ = started at atContinue ending ⊢
      have within : (element.enteredWith collection before).Within (started.insert first) := by
        simp only [LocalDecl.enteredWith, head.binding, ← entersWith]
        exact (LoopPlan.within_startedWith _ _).insertBinding (some first)
      split at isRan
      · next runsAction =>
          simp only [Bool.and_eq_true, Bool.not_eq_true'] at runsAction
          refine .ofSome (ending.completes.earlier (complete _ _ isRan).extends_) ?_
          rintro ⟨other, knowsOther⟩
          -- Whatever the action declares, the locals known where the loop comes back are those
          -- known where it was entered.
          have recounts : ∀ trail,
              ledger.knowsAt ⟨inner, total⟩ (facts.again (started.insert first)) trail →
              facts.continues = true ∧
                ledger.knows ⟨inner, first + 1 + resolution.strategy.synthetics.length⟩
                  (started.insert first) trail := by
            rintro trail ⟨needed, isAgain, knows⟩
            simp only [LoopFacts.again, Option.ite_none_right_eq_some] at isAgain
            obtain ⟨comesBack, isNeeded⟩ := isAgain
            obtain rfl := Option.some.inj isNeeded
            exact ⟨comesBack, ledger.recount knows knowsOther⟩
          refine runs runsAction.1 runsAction.2 fewer isFewer within isRan atBreak ?_
            (ending.strengthen recounts)
          · intro next isNext
            exact (atContinue next isNext).2.relax (Nat.le_refl fewer)
              fun trail knows => (recounts trail knows).2
      · next passesOver =>
          obtain rfl := Except.ok.inj isRan
          refine ending.strengthen fun trail knows => ⟨passes ?_, knows⟩
          rcases Bool.eq_false_or_eq_true (Stmt.isEmptyAction action) with isEmpty | acts
          · exact .inl isEmpty
          · exact .inr (by simpa [acts] using passesOver)

end Loops

mutual

/-- The code of a statement that is resolved and runs goes on safely if what
follows it does, and what its jumps lead to. -/
theorem continues_pushStmt
    (sound : context.Sound strict) :
    ∀ {stmt : Stmt} {block first : Nat} {frames : List JumpFrame} {targets : List JumpTarget}
        {before : VarSet} {after : FlowExit} {scope : ScopeId} {steps : Nat}
        {stream next : CodeStream},
      context.Resolved strict stmt block first →
      first + stmt.localCount ≤ context.scope.locals.size →
      context.Runs stmt frames before after →
      (∀ head ∈ stmt.heads, ledger.SuitsHead head) →
      context.pushStmt stmt targets scope stream = .ok next →
      JumpFrame.Matches (ledger.LeadsTo code steps ⟨block, first + stmt.localCount⟩) frames
        targets →
      code.Continues ledger.demand steps next
        (ledger.knowsAt ⟨block, first + stmt.localCount⟩ after) →
      code.Continues ledger.demand steps stream (ledger.knows ⟨block, first⟩ before)
  | .localVar span decl, block, first, frames, targets, before, after, scope, steps, stream, next,
      resolved, counted, runs, suits, pushed, matches_, continues => by
      have atHome := sound.wellFormed.mem_enclosing_self block
      simp only [Resolved] at resolved
      simp only [Runs] at runs
      simp only [pushStmt, bind_eq_ok, pure_eq_ok] at pushed
      obtain ⟨done, isDone, rfl⟩ := pushed
      obtain ⟨binding, declares, gives⟩ := resolved
      refine continues_pushDeclaration sound binding declares gives runs.1 isDone
        ((continues.sameCode (CodeStream.markSource_same _ _ _)).strengthen fun trail knows => ?_)
      exact knowsAt_of_admits atHome (Nat.le_refl _) runs.2 knows
  | .expr span value, block, first, frames, targets, before, after, scope, steps, stream, next,
      resolved, counted, runs, suits, pushed, matches_, continues => by
      have atHome := sound.wellFormed.mem_enclosing_self block
      simp only [Resolved] at resolved
      simp only [Runs] at runs
      simp only [pushStmt, bind_eq_ok, pure_eq_ok] at pushed
      obtain ⟨done, isDone, rfl⟩ := pushed
      obtain ⟨ty, typed⟩ := resolved
      refine advances_pushExpr sound counted typed runs.1 isDone
        ((continues.sameCode (CodeStream.markSource_same _ _ _)).strengthen fun trail knows => ?_)
      exact knowsAt_of_admits atHome (Nat.le_refl _) runs.2 knows
  | .block span stmts facts, block, first, frames, targets, before, after, scope, steps, stream,
      next, resolved, counted, runs, suits, pushed, matches_, continues => by
      rw [Resolved] at resolved
      obtain ⟨inner, isScope, opens, resolvedBody⟩ := resolved
      have around : block ∈ context.scope.enclosing inner := by
        rw [sound.wellFormed.enclosing_eq inner, opens.parent]
        exact List.mem_cons_of_mem _ (sound.wellFormed.mem_enclosing_self block)
      simp only [Runs] at runs
      simp only [Stmt.localCount] at counted matches_ continues
      simp only [Stmt.heads] at suits
      simp only [pushStmt, bind_eq_ok, pure_eq_ok, isScope, Option.getD_some, runs.1] at pushed
      obtain ⟨ran, isRan, rfl⟩ := pushed
      have leaving := continues.sameCode (CodeStream.SameCode.trans
        (sameCode_leaveBlock context inner scope ran) (CodeStream.markSource_same _ _ _))
      refine (continues_pushStmts sound resolvedBody counted runs.2 suits isRan
        (matches_.imp fun exit label leads =>
          leads.inside sound.wellFormed (Nat.le_refl steps) around (Nat.le_refl _))
        (leaving.strengthen ?_)).strengthen fun trail knows => ledger.enter knows opens
      rintro trail ⟨needed, isExit, knows⟩
      exact ⟨needed, isExit, ledger.weaken knows around (Nat.le_refl _) fun _ => .inl⟩
  | .branch span condition thenBranch none, block, first, frames, targets, before, after, scope,
      steps, stream, next, resolved, counted, runs, suits, pushed, matches_, continues => by
      have atHome := sound.wellFormed.mem_enclosing_self block
      rw [Resolved] at resolved
      obtain ⟨⟨ty, typed, -⟩, resolvedThen⟩ := resolved
      simp only [Runs] at runs
      obtain ⟨reads, thenRuns, skips⟩ := runs
      simp only [Stmt.localCount] at counted matches_ continues
      simp only [Stmt.heads] at suits
      simp only [pushStmt, bind_eq_ok, pure_eq_ok] at pushed
      obtain ⟨tested, isTested, done, isDone, rfl⟩ := pushed
      have appends := ((CodeStream.Appends.refl stream).addLabel.trans
        (appends_branchOn context condition false _ isTested)).trans
          (appends_pushStmt context thenBranch targets scope isDone)
      have elseOpen := appends.isOpen_label stream.nextLabel (by simp)
      have placed := continues.sameCode (CodeStream.markSource_same _ _ _)
      have acting := continues_pushStmt sound resolvedThen counted thenRuns suits isDone matches_
        (placed.place elseOpen)
      exact (continues_branchOn sound (by simp only; omega) typed reads isTested acting
        ((placed.atPlaced elseOpen.1).relax (Nat.le_refl steps) fun trail knows =>
          knowsAt_of_admits atHome (Nat.le_add_right _ _) skips knows)).addLabel
  | .branch span condition thenBranch (some elseBranch), block, first, frames, targets, before,
      after, scope, steps, stream, next, resolved, counted, runs, suits, pushed, matches_,
      continues => by
      have atHome := sound.wellFormed.mem_enclosing_self block
      rw [Resolved] at resolved
      obtain ⟨⟨ty, typed, -⟩, resolvedThen, resolvedElse⟩ := resolved
      simp only [Runs] at runs
      obtain ⟨reads, thenRuns, elseRuns⟩ := runs
      simp only [Stmt.localCount] at counted matches_ continues
      simp only [Stmt.heads, List.mem_append] at suits
      simp only [pushStmt, bind_eq_ok, pure_eq_ok] at pushed
      obtain ⟨tested, isTested, thenDone, isThenDone, done, isDone, rfl⟩ := pushed
      have thenAppends := ((CodeStream.Appends.refl stream).addLabel.trans
        (appends_branchOn context condition false _ isTested)).trans
          (appends_pushStmt context thenBranch targets scope isThenDone)
      have older : stream.nextLabel < thenDone.nextLabel :=
        (thenAppends.isOpen_label stream.nextLabel (by simp)).1
      have left : CodeStream.Appends [thenDone.nextLabel, stream.nextLabel] stream
          (if thenDone.addLabel.isTerminated = true then thenDone.addLabel
            else thenDone.addLabel.emit (.goto thenDone.nextLabel)) := by
        split
        · exact thenAppends.addLabel
        · exact thenAppends.addLabel.emit _
      have elseOpen := left.isOpen_label stream.nextLabel (by simp)
      have remain : ∀ other : Nat, other ∈ [thenDone.nextLabel] ↔
          other ∈ [thenDone.nextLabel, stream.nextLabel] ∧ other ≠ stream.nextLabel := by
        intro other
        simp only [List.mem_cons, List.not_mem_nil, or_false]
        constructor
        · rintro rfl
          exact ⟨.inl rfl, Nat.ne_of_gt older⟩
        · rintro ⟨isEnd | isElse, different⟩
          · exact isEnd
          · exact absurd isElse different
      have elseAppends := (left.placeAmong stream.nextLabel [thenDone.nextLabel] (by simp)
        remain).trans (appends_pushStmt context elseBranch targets scope isDone)
      have endOpen := elseAppends.isOpen_label thenDone.nextLabel (by simp)
      have placed := continues.sameCode (CodeStream.markSource_same _ _ _)
      have deeper : first + thenBranch.localCount + elseBranch.localCount =
          first + (thenBranch.localCount + elseBranch.localCount) := by
        omega
      have elseActing := continues_pushStmt sound resolvedElse (by rw [deeper]; exact counted)
        elseRuns (fun head member => suits head (.inr member)) isDone
        (by rw [deeper]; exact matches_) (by rw [deeper]; exact placed.place endOpen)
      have otherwise : code.Continues ledger.demand steps _
          (ledger.knows ⟨block, first⟩ (condition.definite before)) :=
        elseActing.strengthen fun trail knows =>
          ledger.later sound.wellFormed knows (Nat.le_add_right _ _)
      have leaving : code.Continues ledger.demand steps thenDone
          (ledger.knowsAt ⟨block, first + thenBranch.localCount⟩ after) := by
        have completes := (otherwise.place elseOpen).completes
        split at completes
        · next terminated =>
            rw [CodeStream.isTerminated_addLabel] at terminated
            exact .ofTerminated (completes.earlier (CodeStream.extends_addLabel thenDone)) terminated
        · refine (MethodCode.Continues.fewer (.goto completes
            ((placed.atPlaced endOpen.1)) ?_) (Nat.le_succ steps)).addLabel
          rintro trail ⟨needed, isExit, knows⟩
          exact ⟨ledger.plain rfl, needed, isExit, ledger.carries
            (ledger.later sound.wellFormed knows (by simp only; omega)) (by simp)⟩
      have thenActing := continues_pushStmt sound resolvedThen (by omega) thenRuns
        (fun head member => suits head (.inl member)) isThenDone
        (matches_.imp fun exit label leads => leads.inside sound.wellFormed (Nat.le_refl steps)
          atHome (by simp only; omega)) leaving
      exact (continues_branchOn sound (by simp only; omega) typed reads isTested thenActing
        (otherwise.atPlaced elseOpen.1)).addLabel
  | .forEach span element collection none facts, block, first, frames, targets, before, after,
      scope, steps, stream, next, resolved, counted, runs, suits, pushed, matches_, continues => by
      rw [Resolved] at resolved
      obtain ⟨inner, resolution, head⟩ := resolved
      simp only [Runs] at runs
      obtain ⟨enters, comesBack, admits⟩ := runs
      simp only [Stmt.localCount, head.introducedCount] at counted continues
      simp only [Stmt.heads, List.mem_singleton, forall_eq] at suits
      simp only [pushStmt, bind_eq_ok, pure_eq_ok] at pushed
      obtain ⟨done, isDone, rfl⟩ := pushed
      refine continues_pushLoop sound head enters suits (by omega) counted admits ?_ isDone
        (continues.sameCode (CodeStream.markSource_same _ _ _)) (fun _ => comesBack) ?_
      · intro target inner stream after isSame
        exact Except.ok.inj isSame ▸ .refl _
      · intro acts
        cases acts
  | .forEach span element collection (some action) facts, block, first, frames, targets, before,
      after, scope, steps, stream, next, resolved, counted, runs, suits, pushed, matches_,
      continues => by
      rw [Resolved] at resolved
      obtain ⟨inner, resolution, head, resolvedAction⟩ := resolved
      have around : block ∈ context.scope.enclosing inner := by
        rw [sound.wellFormed.enclosing_eq inner, head.opens.parent]
        exact List.mem_cons_of_mem _ (sound.wellFormed.mem_enclosing_self block)
      simp only [Runs] at runs
      obtain ⟨enters, admits, acts⟩ := runs
      simp only [Stmt.localCount, head.introducedCount] at counted matches_ continues
      simp only [Stmt.heads, List.mem_cons, forall_eq_or_imp] at suits
      simp only [pushStmt, bind_eq_ok, pure_eq_ok] at pushed
      obtain ⟨done, isDone, rfl⟩ := pushed
      have deeper : first + 1 + resolution.strategy.synthetics.length + action.localCount =
          first + (1 + resolution.strategy.synthetics.length + action.localCount) := by
        omega
      refine continues_pushLoop sound head enters suits.1 (by omega) counted admits
        (fun target inner => appends_pushStmt context action (target :: targets) inner) isDone
        (continues.sameCode (CodeStream.markSource_same _ _ _)) ?_ ?_
      · intro passes
        rcases acts with ⟨-, comesBack⟩ | ⟨reached, actionRuns⟩
        · exact comesBack
        · rcases passes with isEmpty | unreached
          · exact comesBack_of_isEmpty isEmpty actionRuns
          · rw [reached] at unreached
            cases unreached
      · intro isFull reached fewer isFewer entered onBreak onContinue fetched ran within isRan
          atBreak atContinue ending
        have actionRuns := (acts.resolve_left fun passedOver => by
          simp [Stmt.isEmptyAction, passedOver.1] at isFull).2
        have entersWith := element.within_enteredWith collection before
        have relaxes : FlowExit.Relaxes entered
            (facts.again (element.enteredWith collection before)) (facts.again entered) :=
          facts.again_relaxes _ _
        have framesRelax : JumpFrame.AllRelax entered
            (.loop after (facts.again (element.enteredWith collection before)) :: frames)
            (.loop after (facts.again entered) :: frames) :=
          ⟨.refl _ _, relaxes, .refl _ frames⟩
        refine continues_pushStmt sound resolvedAction (by rw [deeper]; exact counted)
          (actionRuns.relax within framesRelax relaxes) suits.2 isRan ?_ ?_
        · rw [deeper]
          refine ⟨⟨⟨block, _⟩, around, Nat.le_refl _, atBreak⟩, fun next isNext => ?_, ?_⟩
          · exact ⟨_, sound.wellFormed.mem_enclosing_self inner, Nat.le_refl _,
              atContinue next isNext⟩
          · exact matches_.imp fun exit label leads =>
              leads.inside sound.wellFormed isFewer around (Nat.le_refl _)
        · rw [deeper]
          exact ending
  | .labeled span label body, block, first, frames, targets, before, after, scope, steps, stream,
      next, resolved, counted, runs, suits, pushed, matches_, continues => by
      rw [Resolved] at resolved
      simp only [Runs] at runs
      simp only [Stmt.localCount] at counted matches_ continues
      simp only [Stmt.heads] at suits
      simp only [pushStmt, bind_eq_ok, pure_eq_ok] at pushed
      obtain ⟨done, isDone, rfl⟩ := pushed
      have appends := (CodeStream.Appends.refl stream).addLabel.trans
        (appends_pushStmt context body _ scope isDone)
      have breakOpen := appends.isOpen_label stream.nextLabel (by simp)
      have placed := continues.sameCode (CodeStream.markSource_same _ _ _)
      exact (continues_pushStmt sound resolved counted runs suits isDone
        ⟨rfl, rfl, ⟨_, sound.wellFormed.mem_enclosing_self block, Nat.le_refl _,
          placed.atPlaced breakOpen.1⟩, matches_⟩ (placed.place breakOpen)).addLabel
  | .breakTo span label, block, first, frames, targets, before, after, scope, steps, stream, next,
      resolved, counted, runs, suits, pushed, matches_, continues => by
      simp only [Runs] at runs
      simp only [pushStmt, bind_eq_ok, pure_eq_ok] at pushed
      obtain ⟨target, isTarget, rfl⟩ := pushed
      have completes := (continues.sameCode (CodeStream.markSource_same _ _ _)).completes
      exact (matches_.ofBreak isTarget).continues_goto runs completes
  | .continueTo span label, block, first, frames, targets, before, after, scope, steps, stream,
      next, resolved, counted, runs, suits, pushed, matches_, continues => by
      simp only [Runs] at runs
      simp only [pushStmt, bind_eq_ok, pure_eq_ok] at pushed
      obtain ⟨target, isTarget, rfl⟩ := pushed
      have completes := (continues.sameCode (CodeStream.markSource_same _ _ _)).completes
      exact (matches_.ofContinue runs isTarget).continues_goto runs completes
  | .returnWith span none, block, first, frames, targets, before, after, scope, steps, stream, next,
      resolved, counted, runs, suits, pushed, matches_, continues => by
      simp only [pushStmt, Except.ok.injEq] at pushed
      subst pushed
      exact .finish (continues.sameCode (CodeStream.markSource_same _ _ _)).completes rfl rfl
        fun _ _ => ledger.plain rfl
  | .returnWith span (some value), block, first, frames, targets, before, after, scope, steps,
      stream, next, resolved, counted, runs, suits, pushed, matches_, continues => by
      rw [Resolved] at resolved
      obtain ⟨-, ty, typed, -⟩ := resolved
      simp only [Runs] at runs
      simp only [pushStmt, bind_eq_ok, pure_eq_ok] at pushed
      obtain ⟨done, isDone, rfl⟩ := pushed
      exact continues_pushReturn sound counted typed runs isDone
        (continues.sameCode (CodeStream.markSource_same _ _ _)).completes
  | .empty span, block, first, frames, targets, before, after, scope, steps, stream, next, resolved,
      counted, runs, suits, pushed, matches_, continues => by
      simp only [Runs] at runs
      simp only [pushStmt, Except.ok.injEq] at pushed
      subst pushed
      exact continues.strengthen fun trail knows =>
        knowsAt_of_admits (sound.wellFormed.mem_enclosing_self block) (Nat.le_refl _) runs knows

theorem continues_pushStmts
    (sound : context.Sound strict) :
    ∀ {stmts : List Stmt} {block first : Nat} {frames : List JumpFrame} {targets : List JumpTarget}
        {before : VarSet} {after : FlowExit} {scope : ScopeId} {steps : Nat}
        {stream next : CodeStream},
      context.AllResolved strict stmts block first →
      first + Stmt.localCounts stmts ≤ context.scope.locals.size →
      context.AllRun stmts frames before after →
      (∀ head ∈ Stmt.allHeads stmts, ledger.SuitsHead head) →
      context.pushStmts stmts none targets scope stream = .ok next →
      JumpFrame.Matches (ledger.LeadsTo code steps ⟨block, first + Stmt.localCounts stmts⟩) frames
        targets →
      code.Continues ledger.demand steps next
        (ledger.knowsAt ⟨block, first + Stmt.localCounts stmts⟩ after) →
      code.Continues ledger.demand steps stream (ledger.knows ⟨block, first⟩ before)
  | [], block, first, frames, targets, before, after, scope, steps, stream, next, resolved, counted,
      runs, suits, pushed, matches_, continues => by
      simp only [AllRun] at runs
      simp only [pushStmts, Except.ok.injEq] at pushed
      subst pushed
      exact continues.strengthen fun trail knows =>
        knowsAt_of_admits (sound.wellFormed.mem_enclosing_self block) (Nat.le_refl _) runs knows
  | stmt :: rest, block, first, frames, targets, before, after, scope, steps, stream, next,
      resolved, counted, runs, suits, pushed, matches_, continues => by
      have atHome := sound.wellFormed.mem_enclosing_self block
      rw [AllResolved] at resolved
      simp only [AllRun] at runs
      obtain ⟨middle, headRuns, ends, goesOn⟩ := runs
      simp only [Stmt.localCounts] at counted matches_ continues
      simp only [Stmt.allHeads, List.mem_append] at suits
      obtain ⟨done, isDone, ran⟩ := (pushStmts_cons_eq_ok (by simp)).mp pushed
      have deeper : first + stmt.localCount + Stmt.localCounts rest =
          first + (stmt.localCount + Stmt.localCounts rest) := by
        omega
      refine continues_pushStmt sound resolved.1 (by omega) headRuns
        (fun head member => suits head (.inl member)) isDone
        (matches_.imp fun exit label leads => leads.inside sound.wellFormed (Nat.le_refl steps)
          atHome (by simp only; omega)) ?_
      cases middle with
      | none =>
          have completes := continues.completes.earlier
            (appends_pushStmts context rest _ targets scope ran).extends_
          refine ⟨completes, ?_⟩
          rintro - trail ⟨needed, isExit, -⟩
          cases isExit
      | some set =>
          refine (continues_pushStmts sound resolved.2 (by rw [deeper]; exact counted)
            (goesOn set rfl) (fun head member => suits head (.inr member)) ran
            (by rw [deeper]; exact matches_) (by rw [deeper]; exact continues)).strengthen ?_
          rintro trail ⟨needed, isExit, knows⟩
          obtain rfl := Option.some.inj isExit
          exact knows

end

end Ledger

end CodeContext

end LoopLowering
