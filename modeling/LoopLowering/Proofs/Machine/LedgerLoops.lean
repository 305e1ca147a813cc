import LoopLowering.Proofs.Machine.Ledgers

namespace LoopLowering

/-!
# Ledgers of loops

The locals that a loop introduces are assigned where it starts and stay so while
it runs. A loop goes on safely if its body does: where the loop comes back to its
body, at least one step has been taken.
-/

/-- The locals that are assigned once a loop has started, given those that are
when its collection is on the stack. -/
def LoopPlan.startedWith
    (plan : LoopPlan)
    (set : VarSet) :
    VarSet :=
  match plan.resolution.strategy with
  | .array index bound source =>
      if plan.continues then ((set.insert source).insert bound).insert index
      else set.insert source
  | .rawIterable iterator _ | .genericIterable iterator _ => set.insert iterator

/-- A loop that starts only assigns further locals. -/
theorem LoopPlan.within_startedWith
    (plan : LoopPlan)
    (set : VarSet) :
    set.Within (plan.startedWith set) := by
  simp only [startedWith]
  split
  · split
    · exact ((VarSet.within_insert _ _).trans (VarSet.within_insert _ _)).trans
        (VarSet.within_insert _ _)
    · exact VarSet.within_insert _ _
  · exact VarSet.within_insert _ _
  · exact VarSet.within_insert _ _

namespace CodeContext

/-- The locals of a loop are seen at a place. -/
structure SeesLoop
    (context : CodeContext)
    (place : Place)
    (plan : LoopPlan) :
    Prop where
  element : context.scope.Sees place.block place.count plan.element
  synthetics : ∀ id ∈ plan.resolution.strategy.synthetics,
    context.scope.Sees place.block place.count id
  index : ∀ {index bound source : LocalId},
    plan.resolution.strategy = .array index bound source → (context.localAt index).type = .int

namespace Ledger

variable
  {context : CodeContext}
  {ledger : context.Ledger}
  {code : MethodCode}
  {place : Place}
  {plan : LoopPlan}
  {set : VarSet}
  {steps : Nat}
  {stream after : CodeStream}

/-- The index of a loop over an array can be loaded where the loop has started,
if it exists in the code. A loop that never comes back does not assign it. -/
def LoadsIndex
    (ledger : context.Ledger)
    (plan : LoopPlan) :
    Prop :=
  ∀ {index bound source : LocalId},
    plan.resolution.strategy = .array index bound source →
    plan.continues = false →
    ∀ {place : Place} {set : VarSet} {slot : UInt16} {trail : Trail},
      ledger.knows place set trail →
      (context.localAt index).slot = some slot →
      ledger.demand (.load (CodeStream.kindOf context.scope index) slot) trail

/-- The start of a loop assigns the locals that it introduces. -/
theorem advances_startLoop
    (sees : context.SeesLoop place plan) :
    ledger.Advances code place (context.startLoop plan) set (plan.startedWith set) := by
  intro steps stream after started continues
  have seen := sees.synthetics
  cases strategy : plan.resolution.strategy with
  | array index bound source =>
      simp only [strategy, LoopStrategy.synthetics, List.forall_mem_cons, List.not_mem_nil,
        false_imp_iff, implies_true, and_true] at seen
      obtain ⟨indexSeen, boundSeen, sourceSeen⟩ := seen
      simp only [startLoop, strategy, bind_eq_ok] at started
      simp only [LoopPlan.startedWith, strategy] at continues
      obtain ⟨stored, isStored, started⟩ := started
      refine continues_store isStored sourceSeen ?_
      split at started
      · next comesBack =>
          simp only [comesBack, if_true] at continues
          simp only [bind_eq_ok] at started
          obtain ⟨bounded, isBounded, indexed⟩ := started
          have zeroed := continues_emit (continues_store indexed indexSeen continues) rfl
          exact continues_emit (continues_store isBounded boundSeen zeroed) rfl
      · next comesBack =>
          simp only [comesBack] at continues
          rw [pure_eq_ok] at started
          exact started ▸ continues
  | rawIterable iterator receiver | genericIterable iterator receiver =>
      simp only [strategy, LoopStrategy.synthetics, List.forall_mem_cons, List.not_mem_nil,
        false_imp_iff, implies_true, and_true] at seen
      simp only [startLoop, strategy] at started
      simp only [LoopPlan.startedWith, strategy] at continues
      exact continues_emit (continues_store started seen continues) rfl

/-- The test of an iterator goes on either way. -/
theorem continues_testIterator
    {iterator : LocalId}
    {condition : Condition}
    {label : Label}
    (tested : context.testIterator iterator condition label stream = .ok after)
    (sees : context.scope.Sees place.block place.count iterator)
    (member : set.contains iterator = true)
    (continues : code.Continues ledger.demand steps after (ledger.knows place set))
    (target : code.ContinuesAt ledger.demand steps label (ledger.knows place set)) :
    code.Continues ledger.demand (steps + 1) stream (ledger.knows place set) := by
  simp only [testIterator, bind_eq_ok, pure_eq_ok] at tested
  obtain ⟨loaded, isLoaded, rfl⟩ := tested
  have branched := continues.branch target rfl fun trail knows =>
    ⟨ledger.plain rfl, ledger.carries knows (by simp)⟩
  exact continues_load isLoaded sees member (continues_emit branched rfl)

/-- The test at the top of a loop goes on either way. -/
theorem continues_testAtTop
    {labels : LoopLabels}
    (sees : context.SeesLoop place plan)
    (isOpen : labels.test < stream.labels.size ∧ stream.offset? labels.test = none)
    (tested : context.testAtTop plan labels stream = .ok after)
    (continues : code.Continues ledger.demand steps after
      (ledger.knows place (plan.startedWith set)))
    (exit : code.ContinuesAt ledger.demand steps labels.exit
      (ledger.knows place (plan.startedWith set))) :
    code.Continues ledger.demand steps stream (ledger.knows place (plan.startedWith set)) := by
  have seen := sees.synthetics
  refine MethodCode.Continues.place ?_ isOpen
  cases strategy : plan.resolution.strategy with
  | array index bound source =>
      simp only [testAtTop, strategy, bind_eq_ok, pure_eq_ok] at tested
      obtain ⟨found, rfl, rfl⟩ := tested
      have unmarked := continues.sameCode (CodeStream.markSource_same _ _ _)
      have branched := unmarked.branch exit rfl fun trail knows =>
        ⟨ledger.plain rfl, ledger.carries knows (by simp)⟩
      exact continues_emit (branched.fewer (Nat.le_succ steps)) rfl
  | rawIterable iterator receiver | genericIterable iterator receiver =>
      simp only [strategy, LoopStrategy.synthetics, List.forall_mem_cons, List.not_mem_nil,
        false_imp_iff, implies_true, and_true] at seen
      simp only [testAtTop, strategy, bind_eq_ok, pure_eq_ok] at tested
      obtain ⟨found, isFound, rfl⟩ := tested
      have unmarked := continues.sameCode (CodeStream.markSource_same _ _ _)
      exact (continues_testIterator isFound seen (by simp [LoopPlan.startedWith, strategy])
        unmarked exit).fewer (Nat.le_succ steps)

/-- Binding the loop variable makes it known. -/
theorem advances_bindElement
    (sees : context.SeesLoop place plan) :
    ledger.Advances code place (context.bindElement plan) set (set.insert plan.element) := by
  intro steps stream after bound continues
  simp only [bindElement, bind_eq_ok, pure_eq_ok] at bound
  obtain ⟨stored, isStored, rfl⟩ := bound
  refine continues_store isStored sees.element ?_
  split at continues
  · exact continues.sameCode (CodeStream.openAssigned_same _ _ _ _)
  · exact continues

/-- The fetch of an array element loads locals of the loop. -/
theorem continues_fetchIndexed
    {index bound source : LocalId}
    (strategy : plan.resolution.strategy = .array index bound source)
    (sees : context.SeesLoop place plan)
    (loads : ledger.LoadsIndex plan)
    (fetched : context.fetchIndexed plan index source stream = .ok after)
    (continues : code.Continues ledger.demand steps after
      (ledger.knows place (plan.startedWith set))) :
    code.Continues ledger.demand steps stream (ledger.knows place (plan.startedWith set)) := by
  have seen := sees.synthetics
  simp only [strategy, LoopStrategy.synthetics, List.forall_mem_cons, List.not_mem_nil,
    false_imp_iff, implies_true, and_true] at seen
  obtain ⟨indexSeen, -, sourceSeen⟩ := seen
  obtain ⟨loaded, indexed, isLoaded, isIndexed, rfl⟩ := fetchIndexed_eq_ok.mp fetched
  have element := continues_plainly (.convertElement (.emit .refl rfl) _ _) continues
  have sourceKnown : (plan.startedWith set).contains source = true := by
    simp only [LoopPlan.startedWith, strategy]
    split <;> simp
  refine continues_load isLoaded sourceSeen sourceKnown ?_
  split at isIndexed
  · cases comesBack : plan.continues with
    | true =>
        exact continues_load isIndexed indexSeen
          (by simp [LoopPlan.startedWith, strategy, comesBack]) element
    | false =>
        obtain ⟨slot, isSlot, rfl⟩ := CodeStream.load_eq_ok.mp isIndexed
        exact element.emit rfl fun trail knows =>
          ⟨loads strategy comesBack knows isSlot, ledger.carries knows (by simp)⟩
  · rw [pure_eq_ok] at isIndexed
    subst isIndexed
    exact continues_emit element rfl

/-- The fetch of an element from an iterator loads the iterator. -/
theorem continues_fetchIterated
    {iterator : LocalId}
    (sees : context.scope.Sees place.block place.count iterator)
    (member : set.contains iterator = true)
    (fetched : context.fetchIterated plan iterator stream = .ok after)
    (continues : code.Continues ledger.demand steps after (ledger.knows place set)) :
    code.Continues ledger.demand steps stream (ledger.knows place set) := by
  simp only [fetchIterated, bind_eq_ok, pure_eq_ok] at fetched
  obtain ⟨loaded, isLoaded, rfl⟩ := fetched
  have casting : code.Continues ledger.demand steps
      (loaded.emit (context.iteratorCall "next" .object)) (ledger.knows place set) := by
    split at continues
    · exact continues
    · split at continues
      · exact continues_emit continues rfl
      · exact continues_plainly (.convertElement (.emit .refl rfl) _ _) continues
  exact continues_load isLoaded sees member (continues_emit casting rfl)

/-- The fetch of an element makes the loop variable known. -/
theorem advances_fetchElement
    (sees : context.SeesLoop place plan)
    (loads : ledger.LoadsIndex plan) :
    ledger.Advances code place (context.fetchElement plan) (plan.startedWith set)
      ((plan.startedWith set).insert plan.element) := by
  intro steps stream after fetched continues
  have seen := sees.synthetics
  have slotless : context.hasSlot plan.element = false →
      code.Continues ledger.demand steps after (ledger.knows place (plan.startedWith set)) :=
    fun slotless => continues.strengthen fun trail knows =>
      ledger.absent knows sees.element slotless
  cases strategy : plan.resolution.strategy with
  | array index bound source =>
      simp only [fetchElement, strategy] at fetched
      split at fetched
      · simp only [bind_eq_ok] at fetched
        obtain ⟨element, isElement, bound_⟩ := fetched
        exact continues_fetchIndexed strategy sees loads isElement
          (advances_bindElement sees bound_ continues)
      · next noSlot =>
          rw [pure_eq_ok] at fetched
          exact fetched ▸ slotless (by simpa using noSlot)
  | rawIterable iterator receiver | genericIterable iterator receiver =>
      simp only [strategy, LoopStrategy.synthetics, List.forall_mem_cons, List.not_mem_nil,
        false_imp_iff, implies_true, and_true] at seen
      have member : (plan.startedWith set).contains iterator = true := by
        simp [LoopPlan.startedWith, strategy]
      simp only [fetchElement, strategy, bind_eq_ok] at fetched
      obtain ⟨element, isElement, bound_⟩ := fetched
      refine continues_fetchIterated seen member isElement ?_
      split at bound_
      · exact advances_bindElement sees bound_ continues
      · next noSlot =>
          rw [pure_eq_ok] at bound_
          subst bound_
          exact continues_emit (slotless (by simpa using noSlot)) rfl

/-- The test at the bottom of a loop goes on either way, takes a step to the
action, and is where the loop is entered and continued. -/
theorem continues_testAtBottom
    {opened : List Nat}
    {before : CodeStream}
    {labels : LoopLabels}
    {next : Label}
    (sees : context.SeesLoop place plan)
    (comesBack : plan.continues = true)
    (appends : CodeStream.Appends opened before stream)
    (nextOpen : next ∈ opened)
    (testOpen : labels.test ∈ opened)
    (differs : labels.test ≠ next)
    (tested : context.testAtBottom plan labels next stream = .ok after)
    (continues : code.Continues ledger.demand steps after
      (ledger.knows place (plan.startedWith set)))
    (action : code.ContinuesAt ledger.demand steps labels.action
      (ledger.knows place (plan.startedWith set))) :
    code.Continues ledger.demand (steps + 1) stream (ledger.knows place (plan.startedWith set)) ∧
      code.ContinuesAt ledger.demand (steps + 1) labels.test
        (ledger.knows place (plan.startedWith set)) ∧
      code.ContinuesAt ledger.demand (steps + 1) next
        (ledger.knows place (plan.startedWith set)) := by
  have seen := sees.synthetics
  have nextIsOpen := appends.isOpen_label next nextOpen
  have remain : ∀ other : Nat, other ∈ opened.filter (· ≠ next) ↔ other ∈ opened ∧ other ≠ next := by
    simp
  have placed := appends.placeAmong next (opened.filter (· ≠ next)) nextOpen remain
  have testRemains : labels.test ∈ opened.filter (· ≠ next) := by
    simp [testOpen, differs]
  cases strategy : plan.resolution.strategy with
  | array index bound source =>
      simp only [strategy, LoopStrategy.synthetics, List.forall_mem_cons, List.not_mem_nil,
        false_imp_iff, implies_true, and_true] at seen
      obtain ⟨indexSeen, boundSeen, -⟩ := seen
      have indexKnown : (plan.startedWith set).contains index = true := by
        simp [LoopPlan.startedWith, strategy, comesBack]
      have boundKnown : (plan.startedWith set).contains bound = true := by
        simp [LoopPlan.startedWith, strategy, comesBack]
      obtain ⟨moved, indexed, bounded, isMoved, isIndexed, isBounded, rfl⟩ :=
        (testAtBottom_array_eq_ok strategy).mp tested
      have branched := (continues.sameCode (CodeStream.markSource_same _ _ _)).branch action rfl
        fun trail knows => ⟨ledger.plain rfl, ledger.carries knows (by simp)⟩
      have testing := continues_load isIndexed indexSeen indexKnown
        (continues_load isBounded boundSeen boundKnown branched)
      have movedAppends : CodeStream.Appends (opened.filter (· ≠ next)) before moved := by
        split at isMoved
        · exact placed.increment isMoved
        · rw [pure_eq_ok] at isMoved
          exact isMoved ▸ placed
      have testIsOpen := movedAppends.isOpen_label labels.test testRemains
      have moving : code.Continues ledger.demand (steps + 1) (stream.place next)
          (ledger.knows place (plan.startedWith set)) := by
        split at isMoved
        · exact continues_increment isMoved indexSeen (sees.index strategy) indexKnown
            (testing.place testIsOpen)
        · rw [pure_eq_ok] at isMoved
          subst isMoved
          exact testing.place testIsOpen
      exact ⟨moving.place nextIsOpen, testing.atPlaced testIsOpen.1, moving.atPlaced nextIsOpen.1⟩
  | rawIterable iterator receiver | genericIterable iterator receiver =>
      simp only [strategy, LoopStrategy.synthetics, List.forall_mem_cons, List.not_mem_nil,
        false_imp_iff, implies_true, and_true] at seen
      simp only [testAtBottom, strategy, bind_eq_ok, pure_eq_ok] at tested
      obtain ⟨found, isFound, rfl⟩ := tested
      have testIsOpen := placed.isOpen_label labels.test testRemains
      have testing := continues_testIterator isFound seen
        (by simp [LoopPlan.startedWith, strategy])
        (continues.sameCode (CodeStream.markSource_same _ _ _)) action
      have moving := testing.place testIsOpen
      exact ⟨moving.place nextIsOpen, testing.atPlaced testIsOpen.1, moving.atPlaced nextIsOpen.1⟩

/-- The code of a loop after its collection goes on safely if its body does: the
body goes on where the loop is left, and where it comes back if it does. -/
theorem continues_iteration
    {collection : Expr}
    {body : JumpTarget → CodeStep}
    {left : Knowledge}
    (iteration : context.Iteration plan collection body stream after)
    (wellFormed : context.scope.WellFormed)
    (complete : ∀ target, (body target).Appends)
    (sees : context.SeesLoop place plan)
    (loads : ledger.LoadsIndex plan)
    (exits : ∀ trail, ledger.knows place (plan.startedWith set) trail → left trail)
    (continues : code.Continues ledger.demand steps after left)
    (runs : ∀ fewer ≤ steps, ∀ {onBreak : Label} {onContinue : Option Label}
      {fetched ran : CodeStream},
      body (.loop onBreak onContinue) fetched = .ok ran →
      code.ContinuesAt ledger.demand fewer onBreak left →
      (∀ next, onContinue = some next → plan.continues = true ∧
        code.ContinuesAt ledger.demand fewer next
          (ledger.knows place ((plan.startedWith set).insert plan.element))) →
      code.Continues ledger.demand fewer ran (fun trail => plan.continues = true ∧
        ledger.knows place ((plan.startedWith set).insert plan.element) trail) →
      code.Continues ledger.demand fewer fetched
        (ledger.knows place ((plan.startedWith set).insert plan.element))) :
    code.Continues ledger.demand steps iteration.pushed (ledger.knows place set) := by
  obtain ⟨pushed, started, entered, fetched, ran, repeated, labels, labeled, -, isStarted,
    isLabeled, isEntered, isFetched, isRan, isRepeated, rfl⟩ := iteration
  refine advances_startLoop sees isStarted ?_
  have body := ((appends_fetchElement isFetched).trans (complete _ isRan)).sameCode
    (sameCode_closeBody context plan ran)
  have forgets : ∀ trail, ledger.knows place ((plan.startedWith set).insert plan.element) trail →
      ledger.knows place (plan.startedWith set) trail := fun trail knows =>
    ledger.within wellFormed knows (VarSet.within_insert _ _)
  have sameRepeated : repeated.SameCode (context.settleRanges plan
      ((repeated.closeWhere plan.resolution.strategy.synthetics.contains).exitScope context.scope
        plan.scope)) :=
    CodeStream.SameCode.trans ⟨rfl, rfl⟩ (sameCode_settleRanges context plan _)
  cases comesBack : plan.continues with
  | true =>
      simp only [LoopLabels.made, comesBack, if_true, Prod.mk.injEq] at isLabeled
      obtain ⟨rfl, rfl⟩ := isLabeled
      simp only [enterLoop, Except.ok.injEq] at isEntered
      subst isEntered
      have made := ((((CodeStream.Appends.refl started).addLabel).addLabel).addLabel).addLabel
      simp only [CodeStream.nextLabel_addLabel] at made
      have jumped := made.emit (.goto (started.nextLabel + 1))
      have acted := (jumped.placeAmong started.nextLabel
        [started.nextLabel + 3, started.nextLabel + 2, started.nextLabel + 1] (by simp) (by
          simp; omega)).trans body
      have repeats := appends_testAtBottom acted [started.nextLabel + 2, started.nextLabel + 1]
        [started.nextLabel + 2] (by simp) (by simp; omega) (by simp) (by simp; omega) isRepeated
      have exitOpen := (repeats.sameCode sameRepeated).isOpen_label (started.nextLabel + 2)
        (by simp)
      have exit := continues.atPlaced exitOpen.1
      have leaving := ((continues.place exitOpen).sameCode sameRepeated).strengthen exits
      have bottom := fun {fewer : Nat} (isFewer : fewer ≤ steps)
          (atAction : code.ContinuesAt ledger.demand fewer started.nextLabel
            (ledger.knows place (plan.startedWith set))) =>
        continues_testAtBottom sees comesBack acted (by simp) (by simp) (by simp) isRepeated
          (leaving.fewer isFewer) atAction
      have actionOpen := jumped.isOpen_label started.nextLabel (by simp)
      have completes := leaving.completes.earlier (body.extends_.trans
        (extends_testAtBottom acted (by simp) (by simp) (by simp) isRepeated))
      -- Coming back to the action has taken a step, so the round before has one step more.
      have looping : code.Continues ledger.demand steps _
          (ledger.knows place (plan.startedWith set)) := .loop completes fun fewer isFewer round => by
        obtain ⟨ending, -, onContinue⟩ :=
          bottom (Nat.le_of_lt isFewer) (round.atPlaced actionOpen.1)
        refine advances_fetchElement sees loads isFetched (runs _ isFewer isRan
          (exit.relax isFewer fun _ knows => knows) ?_ ?_)
        · rintro next isNext
          obtain rfl := Option.some.inj isNext
          exact ⟨comesBack, onContinue.relax (Nat.le_refl _) forgets⟩
        · exact (ending.sameCode (sameCode_closeBody context plan ran)).strengthen
            fun trail known => forgets trail known.2
      obtain ⟨-, atTest, -⟩ := bottom (Nat.le_refl steps) (looping.atPlaced actionOpen.1)
      have entering := continues_goto (looping.place actionOpen).completes
        (atTest.relax (Nat.le_succ steps) fun _ knows => knows)
      exact (entering.fewer (Nat.le_succ steps)).addLabel.addLabel.addLabel.addLabel
  | false =>
      simp only [LoopLabels.made, comesBack, Bool.false_eq_true, if_false, Prod.mk.injEq]
        at isLabeled
      obtain ⟨rfl, rfl⟩ := isLabeled
      simp only [enterLoop] at isEntered
      simp only [pure_eq_ok] at isRepeated
      subst isRepeated
      have made := (((CodeStream.Appends.refl started).addLabel).addLabel).addLabel
      simp only [CodeStream.nextLabel_addLabel] at made
      have tested := appends_testAtTop made [started.nextLabel + 2, started.nextLabel] (by simp) (by
        simp; omega) isEntered
      have acted := (tested.placeAmong started.nextLabel [started.nextLabel + 2] (by simp) (by
        simp; omega)).trans body
      have exitOpen := (acted.sameCode sameRepeated).isOpen_label (started.nextLabel + 2)
        (by simp)
      have exit := continues.atPlaced exitOpen.1
      have leaving := (continues.place exitOpen).sameCode sameRepeated
      have ending := (leaving.sameCode (sameCode_closeBody context plan ran)).completes
      have acting := advances_fetchElement sees loads isFetched (runs steps (Nat.le_refl steps)
        isRan exit (by simp) ⟨ending, by simp [comesBack]⟩)
      have testOpen := made.isOpen_label (started.nextLabel + 1) (by simp)
      exact (continues_testAtTop sees testOpen isEntered
        (acting.place (tested.isOpen_label started.nextLabel (by simp)))
        (exit.relax (Nat.le_refl steps) exits)).addLabel.addLabel.addLabel

end Ledger

end CodeContext

end LoopLowering
