import LoopLowering.Code.Loops
import LoopLowering.Proofs.Code.Emission
import LoopLowering.Proofs.Code.Expressions

namespace LoopLowering

/-!
# Steps of loops

The code of a loop consists of pieces: its collection, its start, its entry, the
fetch of an element, its body, and the test at its bottom if it comes back.
Each piece is complete but for the branch targets of the loop, and these are
placed as the pieces follow each other.
-/

namespace CodeStream

@[simp] theorem nextLabel_addLabel
    (code : CodeStream) :
    code.addLabel.nextLabel = code.nextLabel + 1 := by
  simp [nextLabel, addLabel]

/-- Two streams with the same instructions and the same branch targets. -/
def SameCode
    (before after : CodeStream) :
    Prop :=
  after.instructions = before.instructions ∧ after.labels = before.labels

theorem SameCode.trans
    {first second third : CodeStream}
    (earlier : first.SameCode second)
    (later : second.SameCode third) :
    first.SameCode third :=
  ⟨later.1.trans earlier.1, later.2.trans earlier.2⟩

namespace Appends

variable
  {opened : List Nat}
  {before code after : CodeStream}

/-- The same code may follow. -/
theorem sameCode
    (appends : Appends opened before code)
    (same : code.SameCode after) :
    Appends opened before after :=
  appends.same same.1 same.2

/-- An open branch target may be placed, which leaves the others open. -/
theorem placeAmong
    (appends : Appends opened before code)
    (label : Nat)
    (others : List Nat)
    (isOpen : label ∈ opened)
    (remain : ∀ other, other ∈ others ↔ other ∈ opened ∧ other ≠ label) :
    Appends others before (code.place label) :=
  appends.place isOpen remain

end Appends

end CodeStream

namespace LoopLabels

/-- The branch targets of a loop that are open in its body. -/
def outward
    (labels : LoopLabels) :
    List Nat :=
  match labels.next with
  | some next => [next, labels.exit, labels.test]
  | none => [labels.exit]

variable
  {continues : Bool}
  {labels : LoopLabels}
  {code labeled : CodeStream}

/-- The branch targets of a loop are the next ones. -/
theorem numbers
    (isLabeled : made continues code = (labels, labeled)) :
    labels.action = code.nextLabel ∧ labels.test = code.nextLabel + 1 ∧
      labels.exit = code.nextLabel + 2 ∧
      labels.next = if continues then some (code.nextLabel + 3) else none := by
  unfold made at isLabeled
  split at isLabeled
  · cases isLabeled
    simp_all
  · cases isLabeled
    simp_all

/-- The branch targets of a loop are those that are made meanwhile. -/
theorem size_made
    (isLabeled : made continues code = (labels, labeled)) :
    labeled.labels.size = (labels.next.getD labels.exit : Nat) + 1 := by
  unfold made at isLabeled
  split at isLabeled
  · cases isLabeled
    simp [CodeStream.addLabel, CodeStream.nextLabel]
  · cases isLabeled
    simp [CodeStream.addLabel, CodeStream.nextLabel]

/-- The test of a loop is none of its other branch targets. -/
theorem ne_test
    (isLabeled : made continues code = (labels, labeled)) :
    labels.action ≠ labels.test ∧ labels.exit ≠ labels.test ∧ labels.next ≠ some labels.test := by
  unfold made at isLabeled
  split at isLabeled
  · cases isLabeled
    simp [CodeStream.nextLabel]
  · cases isLabeled
    simp [CodeStream.nextLabel]

/-- The branch targets of a loop are made together. -/
theorem appends_made
    (isLabeled : made continues code = (labels, labeled)) :
    CodeStream.Appends (labels.next.toList ++ [labels.exit, labels.test, labels.action]) code
      labeled := by
  unfold made at isLabeled
  split at isLabeled
  · have made := ((((CodeStream.Appends.refl code).addLabel).addLabel).addLabel).addLabel
    simp only [CodeStream.nextLabel_addLabel] at made
    cases isLabeled
    exact made
  · have made := (((CodeStream.Appends.refl code).addLabel).addLabel).addLabel
    simp only [CodeStream.nextLabel_addLabel] at made
    cases isLabeled
    exact made

end LoopLabels

namespace CodeContext

open CodeStream

variable
  {context : CodeContext}
  {plan : LoopPlan}
  {code after : CodeStream}

/-- The test of an iterator is a complete piece of code. -/
theorem appends_testIterator
    {opened : List Nat}
    {before : CodeStream}
    (appends : Appends opened before code)
    {iterator : LocalId}
    {condition : Condition}
    {label : Label}
    (tested : context.testIterator iterator condition label code = .ok after) :
    Appends opened before after := by
  simp only [testIterator, bind_eq_ok, pure_eq_ok] at tested
  obtain ⟨loaded, isLoaded, rfl⟩ := tested
  exact ((appends.load isLoaded).emit _).emit _

/-- The start of a loop is a complete piece of code. -/
theorem appends_startLoop :
    CodeStep.Appends (context.startLoop plan) := by
  intro code after started
  simp only [startLoop] at started
  split at started
  · simp only [bind_eq_ok] at started
    obtain ⟨stored, isStored, started⟩ := started
    have first := (Appends.refl code).store isStored
    split at started
    · simp only [bind_eq_ok] at started
      obtain ⟨bounded, isBounded, indexed⟩ := started
      exact ((((first.emit _).store isBounded).emit _).store indexed)
    · rw [pure_eq_ok] at started
      exact started ▸ first
  · exact ((Appends.refl code).emit _).store started
  · exact ((Appends.refl code).emit _).store started

/-- An array element can be fetched if the array and the index can be loaded. -/
theorem fetchIndexed_eq_ok
    {index source : LocalId} :
    context.fetchIndexed plan index source code = .ok after ↔
      ∃ loaded indexed, code.load context.scope source = .ok loaded ∧
        (if context.hasSlot index then loaded.load context.scope index
          else pure (loaded.emit (.intConst 0))) = .ok indexed ∧
        (indexed.emit (.arrayLoad (.ofTy plan.resolution.elementType))).convertElement
          context.table plan.resolution.conversion = after := by
  cases slotted : context.hasSlot index <;>
    simp only [fetchIndexed, slotted, bind_eq_ok, pure_eq_ok, Bool.false_eq_true, if_false,
      if_true, exists_and_left]

/-- The fetch of an array element is a complete piece of code. -/
theorem appends_fetchIndexed
    {index source : LocalId} :
    CodeStep.Appends (context.fetchIndexed plan index source) := by
  intro code after fetched
  obtain ⟨loaded, indexed, isLoaded, isIndexed, rfl⟩ := fetchIndexed_eq_ok.mp fetched
  have first := (Appends.refl code).load isLoaded
  refine Appends.convertElement (Appends.emit ?_ _) _ _
  split at isIndexed
  · exact first.load isIndexed
  · rw [pure_eq_ok] at isIndexed
    exact isIndexed ▸ first.emit _

/-- The fetch of an element from an iterator is a complete piece of code. -/
theorem appends_fetchIterated
    {iterator : LocalId} :
    CodeStep.Appends (context.fetchIterated plan iterator) := by
  intro code after fetched
  simp only [fetchIterated, bind_eq_ok, pure_eq_ok] at fetched
  obtain ⟨loaded, isLoaded, rfl⟩ := fetched
  have first := ((Appends.refl code).load isLoaded).emit
    (context.iteratorCall "next" .object)
  split
  · exact first
  · split
    · exact first.emit _
    · exact (first.emit _).convertElement _ _

/-- Binding the loop variable is a complete piece of code. -/
theorem appends_bindElement :
    CodeStep.Appends (context.bindElement plan) := by
  intro code after bound
  simp only [bindElement, bind_eq_ok, pure_eq_ok] at bound
  obtain ⟨stored, isStored, rfl⟩ := bound
  have first := (Appends.refl code).store isStored
  split
  · exact first.sameCode (openAssigned_same _ _ _ _)
  · exact first

/-- The fetch of an element is a complete piece of code. -/
theorem appends_fetchElement :
    CodeStep.Appends (context.fetchElement plan) := by
  intro code after fetched
  simp only [fetchElement] at fetched
  split at fetched
  · split at fetched
    · simp only [bind_eq_ok] at fetched
      obtain ⟨element, isElement, bound⟩ := fetched
      exact (appends_fetchIndexed isElement).trans (appends_bindElement bound)
    · rw [pure_eq_ok] at fetched
      exact fetched ▸ .refl code
  all_goals
    simp only [bind_eq_ok] at fetched
    obtain ⟨element, isElement, bound⟩ := fetched
    split at bound
    · exact (appends_fetchIterated isElement).trans (appends_bindElement bound)
    · rw [pure_eq_ok] at bound
      exact bound ▸ (appends_fetchIterated isElement).emit _

/-- Ending the ranges of a body changes no code. -/
theorem sameCode_closeBody
    (context : CodeContext)
    (plan : LoopPlan)
    (code : CodeStream) :
    code.SameCode (context.closeBody plan code) := by
  simp only [closeBody]
  split <;> exact ⟨rfl, rfl⟩

/-- Settling the ranges after a loop changes no code. -/
theorem sameCode_settleRanges
    (context : CodeContext)
    (plan : LoopPlan)
    (code : CodeStream) :
    code.SameCode (context.settleRanges plan code) := by
  simp only [settleRanges]
  split
  · exact openAssigned_same _ _ _ _
  · exact ⟨rfl, rfl⟩

/-- Ending the ranges of a loop changes no code. -/
theorem sameCode_leaveLoop
    (context : CodeContext)
    (plan : LoopPlan)
    (code : CodeStream) :
    code.SameCode (context.settleRanges plan
      ((code.closeWhere plan.resolution.strategy.synthetics.contains).exitScope context.scope
        plan.scope)) :=
  SameCode.trans ⟨rfl, rfl⟩ (sameCode_settleRanges context plan
    ((code.closeWhere plan.resolution.strategy.synthetics.contains).exitScope context.scope
      plan.scope))

/-- The pieces of the code of a loop. -/
structure Iteration
    (context : CodeContext)
    (plan : LoopPlan)
    (collection : Expr)
    (body : JumpTarget → CodeStep)
    (code after : CodeStream) where
  pushed : CodeStream
  started : CodeStream
  entered : CodeStream
  fetched : CodeStream
  ran : CodeStream
  repeated : CodeStream
  labels : LoopLabels
  labeled : CodeStream
  isPushed : context.pushExpr collection true code = .ok pushed
  isStarted : context.startLoop plan pushed = .ok started
  isLabeled : LoopLabels.made plan.continues started = (labels, labeled)
  isEntered : context.enterLoop plan labels labeled = .ok entered
  isFetched : context.fetchElement plan (entered.place labels.action) = .ok fetched
  isRan : body (.loop labels.exit labels.next) fetched = .ok ran
  isRepeated :
    (match labels.next with
    | some next => context.testAtBottom plan labels next (context.closeBody plan ran)
    | none => pure (context.closeBody plan ran)) = .ok repeated
  isAfter : (context.settleRanges plan
    ((repeated.closeWhere plan.resolution.strategy.synthetics.contains).exitScope context.scope
      plan.scope)).place labels.exit = after

/-- The test of an array loop at the bottom compares the index with the bound. -/
theorem testAtBottom_array_eq_ok
    {labels : LoopLabels}
    {next : Label}
    {index bound source : LocalId}
    (strategy : plan.resolution.strategy = .array index bound source) :
    context.testAtBottom plan labels next code = .ok after ↔ ∃ moved indexed bounded,
      (if !plan.hasEmptyAction || context.hasSlot plan.element then
          (code.place next).increment context.scope index 1
        else pure (code.place next)) = .ok moved ∧
        (moved.place labels.test).load context.scope index = .ok indexed ∧
        indexed.load context.scope bound = .ok bounded ∧
        (bounded.emit (.branchIfInts .lt labels.action)).markSource (code.place next).position
          plan.elementSpan = after := by
  cases moves : !plan.hasEmptyAction || context.hasSlot plan.element <;>
    simp only [testAtBottom, strategy, moves, bind_eq_ok, pure_eq_ok, Bool.false_eq_true, if_false,
      if_true, exists_and_left, exists_eq_left']

/-- The code of a loop has its pieces. -/
theorem exists_iteration
    {collection : Expr}
    {body : JumpTarget → CodeStep}
    (iterated : context.pushIteration plan collection body code = .ok after) :
    Nonempty (context.Iteration plan collection body code after) := by
  simp only [pushIteration, bind_eq_ok] at iterated
  obtain ⟨pushed, isPushed, started, isStarted, iterated⟩ := iterated
  generalize isLabeled : LoopLabels.made plan.continues started = made at iterated
  obtain ⟨labels, labeled⟩ := made
  obtain ⟨entered, isEntered, fetched, isFetched, ran, isRan, iterated⟩ := iterated
  cases next : labels.next with
  | none =>
      simp only [next, bind_eq_ok, pure_eq_ok] at iterated
      obtain ⟨repeated, isRepeated, isAfter⟩ := iterated
      exact ⟨⟨pushed, started, entered, fetched, ran, repeated, labels, labeled, isPushed,
        isStarted, isLabeled, isEntered, isFetched, isRan, by rw [next, isRepeated]; rfl, isAfter⟩⟩
  | some label =>
      simp only [next, bind_eq_ok, pure_eq_ok] at iterated
      obtain ⟨repeated, isRepeated, isAfter⟩ := iterated
      exact ⟨⟨pushed, started, entered, fetched, ran, repeated, labels, labeled, isPushed,
        isStarted, isLabeled, isEntered, isFetched, isRan, by rw [next]; exact isRepeated,
        isAfter⟩⟩

/-- The test at the top of a loop places its branch target. -/
theorem appends_testAtTop
    {opened : List Nat}
    {before : CodeStream}
    (appends : Appends opened before code)
    {labels : LoopLabels}
    (others : List Nat)
    (isOpen : labels.test ∈ opened)
    (remain : ∀ other, other ∈ others ↔ other ∈ opened ∧ other ≠ labels.test)
    (tested : context.testAtTop plan labels code = .ok after) :
    Appends others before after := by
  have placed := appends.placeAmong labels.test others isOpen remain
  cases strategy : plan.resolution.strategy with
  | array index bound source =>
      simp only [testAtTop, strategy, bind_eq_ok, pure_eq_ok] at tested
      obtain ⟨found, rfl, rfl⟩ := tested
      exact ((placed.emit _).emit _).sameCode (markSource_same _ _ _)
  | rawIterable iterator receiver | genericIterable iterator receiver =>
      simp only [testAtTop, strategy, bind_eq_ok, pure_eq_ok] at tested
      obtain ⟨found, isFound, rfl⟩ := tested
      exact (appends_testIterator placed isFound).sameCode (markSource_same _ _ _)

/-- The test at the bottom of a loop places its branch target and the one at
which the loop is continued. -/
theorem appends_testAtBottom
    {opened : List Nat}
    {before : CodeStream}
    (appends : Appends opened before code)
    {labels : LoopLabels}
    {next : Label}
    (middle others : List Nat)
    (nextOpen : next ∈ opened)
    (remainMiddle : ∀ other, other ∈ middle ↔ other ∈ opened ∧ other ≠ next)
    (testOpen : labels.test ∈ middle)
    (remain : ∀ other, other ∈ others ↔ other ∈ middle ∧ other ≠ labels.test)
    (tested : context.testAtBottom plan labels next code = .ok after) :
    Appends others before after := by
  have placed := appends.placeAmong next middle nextOpen remainMiddle
  cases strategy : plan.resolution.strategy with
  | array index bound source =>
      obtain ⟨moved, indexed, bounded, isMoved, isIndexed, isBounded, rfl⟩ :=
        (testAtBottom_array_eq_ok strategy).mp tested
      have movedAppends : Appends middle before moved := by
        split at isMoved
        · exact placed.increment isMoved
        · rw [pure_eq_ok] at isMoved
          exact isMoved ▸ placed
      have testPlaced := movedAppends.placeAmong labels.test others testOpen remain
      exact (((testPlaced.load isIndexed).load isBounded).emit _).sameCode (markSource_same _ _ _)
  | rawIterable iterator receiver | genericIterable iterator receiver =>
      simp only [testAtBottom, strategy, bind_eq_ok, pure_eq_ok] at tested
      obtain ⟨found, isFound, rfl⟩ := tested
      exact (appends_testIterator (placed.placeAmong labels.test others testOpen remain)
        isFound).sameCode (markSource_same _ _ _)

/-- The test at the bottom of a loop extends what is there where the loop is
continued. -/
theorem extends_place_testAtBottom
    {opened : List Nat}
    {before : CodeStream}
    {labels : LoopLabels}
    {next : Label}
    (appends : Appends opened before code)
    (nextOpen : next ∈ opened)
    (testOpen : labels.test ∈ opened)
    (differs : labels.test ≠ next)
    (tested : context.testAtBottom plan labels next code = .ok after) :
    (code.place next).Extends after := by
  have remain : ∀ other : Nat, other ∈ opened.filter (· ≠ next) ↔ other ∈ opened ∧ other ≠ next := by
    simp
  have placed := appends.placeAmong next (opened.filter (· ≠ next)) nextOpen remain
  have testRemains : labels.test ∈ opened.filter (· ≠ next) := by
    simp [testOpen, differs]
  cases strategy : plan.resolution.strategy with
  | array index bound source =>
      obtain ⟨moved, indexed, bounded, isMoved, isIndexed, isBounded, rfl⟩ :=
        (testAtBottom_array_eq_ok strategy).mp tested
      have moves : Appends [] (code.place next) moved := by
        split at isMoved
        · exact (Appends.refl _).increment isMoved
        · rw [pure_eq_ok] at isMoved
          exact isMoved ▸ .refl _
      have testIsOpen := (placed.trans moves).isOpen_label labels.test testRemains
      have compares := (((Appends.refl (moved.place labels.test)).load isIndexed).load
        isBounded).emit (.branchIfInts .lt labels.action)
      exact (moves.extends_.trans (extends_place testIsOpen.2)).trans
        (compares.sameCode (markSource_same _ _ _)).extends_
  | rawIterable iterator receiver | genericIterable iterator receiver =>
      simp only [testAtBottom, strategy, bind_eq_ok, pure_eq_ok] at tested
      obtain ⟨found, isFound, rfl⟩ := tested
      exact (extends_place (placed.isOpen_label labels.test testRemains).2).trans
        ((appends_testIterator (.refl _) isFound).sameCode
          (markSource_same _ _ _)).extends_

/-- The test at the bottom of a loop extends the code of its body. -/
theorem extends_testAtBottom
    {opened : List Nat}
    {before : CodeStream}
    {labels : LoopLabels}
    {next : Label}
    (appends : Appends opened before code)
    (nextOpen : next ∈ opened)
    (testOpen : labels.test ∈ opened)
    (differs : labels.test ≠ next)
    (tested : context.testAtBottom plan labels next code = .ok after) :
    code.Extends after :=
  (extends_place (appends.isOpen_label next nextOpen).2).trans
    (extends_place_testAtBottom appends nextOpen testOpen differs tested)

namespace Iteration

variable
  {collection : Expr}
  {body : JumpTarget → CodeStep}

/-- A loop is started after its collection. -/
theorem appends_started
    (iteration : context.Iteration plan collection body code after) :
    CodeStream.Appends [] code iteration.started :=
  (appends_pushExpr context collection true iteration.isPushed).trans
    (appends_startLoop iteration.isStarted)

/-- A loop is entered with its branch targets made. One that lets the loop test
at its top is placed there. -/
theorem appends_entered
    (iteration : context.Iteration plan collection body code after) :
    CodeStream.Appends (iteration.labels.outward ++ [iteration.labels.action]) iteration.started
      iteration.entered := by
  have made := LoopLabels.appends_made iteration.isLabeled
  have isEntered := iteration.isEntered
  obtain ⟨isAction, isTest, isExit, isNext⟩ := LoopLabels.numbers iteration.isLabeled
  cases continues : plan.continues with
  | true =>
      simp only [continues, if_true] at isNext
      simp only [enterLoop, isNext, Except.ok.injEq] at isEntered
      rw [← isEntered]
      simp only [LoopLabels.outward, isNext, isAction, isTest, isExit, Option.toList] at made ⊢
      exact made.emit _
  | false =>
      simp only [continues, Bool.false_eq_true, if_false] at isNext
      simp only [enterLoop, isNext] at isEntered
      refine appends_testAtTop made _ (by simp) ?_ isEntered
      simp only [LoopLabels.outward, isNext, isAction, isTest, isExit, Option.toList,
        List.nil_append, List.cons_append, List.mem_cons, List.not_mem_nil, or_false]
      omega

/-- The branch targets of a loop are made where its body is entered. -/
theorem size_labeled_le
    (iteration : context.Iteration plan collection body code after) :
    iteration.labeled.labels.size ≤ iteration.entered.labels.size := by
  rw [LoopLabels.size_made iteration.isLabeled]
  have isMade : ∀ {label : Nat}, label ∈ iteration.labels.outward →
      label + 1 ≤ iteration.entered.labels.size := by
    intro label member
    have isOpen := (iteration.appends_entered.isOpen label (by simp [member])).2
    exact (Array.getElem?_eq_some_iff.mp isOpen).1
  cases next : iteration.labels.next with
  | none =>
      exact isMade (by simp [LoopLabels.outward, next])
  | some label =>
      exact isMade (by simp [LoopLabels.outward, next])

/-- The body of a loop is entered where its branch target is placed. -/
theorem appends_action
    (iteration : context.Iteration plan collection body code after) :
    CodeStream.Appends iteration.labels.outward iteration.started
      (iteration.entered.place iteration.labels.action) := by
  obtain ⟨isAction, isTest, isExit, isNext⟩ := LoopLabels.numbers iteration.isLabeled
  refine iteration.appends_entered.placeAmong iteration.labels.action _ (by simp) ?_
  cases continues : plan.continues with
  | true =>
      simp only [continues, if_true] at isNext
      simp only [LoopLabels.outward, isNext, isAction, isTest, isExit, List.nil_append,
        List.cons_append, List.mem_cons, List.not_mem_nil, or_false]
      omega
  | false =>
      simp only [continues, Bool.false_eq_true, if_false] at isNext
      simp only [LoopLabels.outward, isNext, isAction, isExit, List.nil_append, List.cons_append,
        List.mem_cons, List.not_mem_nil, or_false]
      omega

/-- The body of a loop leaves the branch targets that lead out of it open. -/
theorem appends_ran
    (iteration : context.Iteration plan collection body code after)
    (complete : ∀ target, (body target).Appends) :
    CodeStream.Appends iteration.labels.outward iteration.started iteration.ran :=
  (iteration.appends_action.trans (appends_fetchElement iteration.isFetched)).trans
    (complete _ iteration.isRan)

/-- The branch targets that are made where the body of a loop is entered are made
where it is left. -/
theorem size_entered_le
    (iteration : context.Iteration plan collection body code after)
    (complete : ∀ target, (body target).Appends) :
    iteration.entered.labels.size ≤ iteration.ran.labels.size := by
  have appends := (appends_fetchElement iteration.isFetched).trans (complete _ iteration.isRan)
  simpa [place] using appends.labelCount

/-- The end of a loop leaves no branch target but its exit open. -/
theorem appends_repeated
    (iteration : context.Iteration plan collection body code after)
    (complete : ∀ target, (body target).Appends) :
    CodeStream.Appends [iteration.labels.exit] iteration.started iteration.repeated := by
  have closed := (iteration.appends_ran complete).sameCode
    (sameCode_closeBody context plan iteration.ran)
  have isLabeled := iteration.isLabeled
  have isRepeated := iteration.isRepeated
  cases continues : plan.continues with
  | true =>
      simp only [LoopLabels.made, continues, if_true, Prod.mk.injEq] at isLabeled
      rw [← isLabeled.1] at closed isRepeated ⊢
      exact appends_testAtBottom closed
        [iteration.started.nextLabel + 2, iteration.started.nextLabel + 1] _
        (by simp [LoopLabels.outward]) (by simp [LoopLabels.outward]; omega) (by simp)
        (by simp; omega) isRepeated
  | false =>
      simp only [LoopLabels.made, continues, Bool.false_eq_true, if_false, Prod.mk.injEq]
        at isLabeled
      rw [← isLabeled.1] at closed isRepeated ⊢
      rw [pure_eq_ok] at isRepeated
      exact isRepeated ▸ closed

/-- The code of a loop extends that of its body. -/
theorem extends_ran
    (iteration : context.Iteration plan collection body code after)
    (complete : ∀ target, (body target).Appends) :
    iteration.ran.Extends after := by
  have closed := (iteration.appends_ran complete).sameCode
    (sameCode_closeBody context plan iteration.ran)
  have isRepeated := iteration.isRepeated
  have bottom : (context.closeBody plan iteration.ran).Extends iteration.repeated := by
    cases next : iteration.labels.next with
    | none =>
        simp only [next, pure_eq_ok] at isRepeated
        exact isRepeated ▸ .refl _
    | some label =>
        simp only [next] at isRepeated
        have differs := (LoopLabels.ne_test iteration.isLabeled).2.2
        exact extends_testAtBottom closed (by simp [LoopLabels.outward, next])
          (by simp [LoopLabels.outward, next]) (fun same => differs (same ▸ next)) isRepeated
  have sameCode := sameCode_leaveLoop context plan iteration.repeated
  have exitOpen := (((iteration.appends_repeated complete).sameCode sameCode).isOpen_label
    iteration.labels.exit (by simp)).2
  have placed := extends_place exitOpen
  rw [iteration.isAfter] at placed
  have closes := ((Appends.refl iteration.ran).sameCode
    (sameCode_closeBody context plan iteration.ran)).extends_
  have leaves := ((Appends.refl iteration.repeated).sameCode sameCode).extends_
  exact ((closes.trans bottom).trans leaves).trans placed

/-- A loop leaves no branch target open. -/
theorem appends_after
    (iteration : context.Iteration plan collection body code after)
    (complete : ∀ target, (body target).Appends) :
    CodeStream.Appends [] code after := by
  have left := ((iteration.appends_repeated complete).sameCode
    (sameCode_leaveLoop context plan _)).placeAmong iteration.labels.exit [] (by simp) (by simp)
  rw [iteration.isAfter] at left
  exact iteration.appends_started.trans left

end Iteration

/-- The code of a loop that does something is complete. -/
theorem appends_pushIteration
    {collection : Expr}
    {body : JumpTarget → CodeStep}
    (complete : ∀ target, (body target).Appends) :
    CodeStep.Appends (context.pushIteration plan collection body) := by
  intro code after iterated
  obtain ⟨iteration⟩ := exists_iteration iterated
  exact iteration.appends_after complete

/-- The code of a loop that only evaluates its collection is complete. -/
theorem appends_pushEffects
    {collection : Expr} :
    CodeStep.Appends (context.pushEffects plan collection) := by
  intro code after pushed
  simp only [pushEffects, bind_eq_ok, pure_eq_ok] at pushed
  obtain ⟨ran, isRan, rfl⟩ := pushed
  exact ((appends_pushExpr context collection false isRan).sameCode ⟨rfl, rfl⟩).sameCode
    (sameCode_settleRanges context plan _)

/-- The code of a planned loop is complete. -/
theorem appends_pushPlanned
    {span : Span}
    {collection : Expr}
    {body : JumpTarget → CodeStep}
    (complete : ∀ target, (body target).Appends) :
    CodeStep.Appends (context.pushPlanned plan span collection body) := by
  intro code after planned
  simp only [pushPlanned] at planned
  split at planned
  · simp only [bind_eq_ok, pure_eq_ok] at planned
    obtain ⟨done, isDone, rfl⟩ := planned
    exact (appends_pushEffects isDone).sameCode (markSource_same _ _ _)
  · simp only [bind_eq_ok, pure_eq_ok] at planned
    obtain ⟨done, isDone, rfl⟩ := planned
    exact (appends_pushIteration complete isDone).sameCode (markSource_same _ _ _)

/-- The code of a loop is complete. -/
theorem appends_pushLoop
    {span : Span}
    {element : LocalDecl}
    {collection : Expr}
    {action : Option Stmt}
    {facts : LoopFacts}
    {outer : ScopeId}
    {pushAction : JumpTarget → ScopeId → CodeStep}
    (complete : ∀ target scope, (pushAction target scope).Appends) :
    CodeStep.Appends (context.pushLoop span element collection action facts outer pushAction) := by
  intro code after looped
  simp only [pushLoop] at looped
  split at looped
  · split at looped
    · exact Except.ok.inj looped ▸ .refl code
    · cases looped
    · cases looped
    · cases looped
    · refine appends_pushPlanned ?_ looped
      intro target before done ran
      split at ran
      · exact complete target _ ran
      · exact Except.ok.inj ran ▸ .refl before
  · exact Except.ok.inj looped ▸ .refl code

/-- The locals that the code of a loop needs have slots. -/
def HasLoopSlots
    (context : CodeContext)
    (strategy : LoopStrategy)
    (continues : Bool) :
    Prop :=
  match strategy with
  | .array index bound source =>
      context.hasSlot source = true ∧
        (continues = true → context.hasSlot index = true ∧ context.hasSlot bound = true)
  | .rawIterable iterator _ | .genericIterable iterator _ => context.hasSlot iterator = true

/-- A local with a slot can be loaded. -/
theorem exists_load
    {id : LocalId}
    (hasSlot : context.hasSlot id = true)
    (code : CodeStream) :
    ∃ after, code.load context.scope id = .ok after := by
  obtain ⟨slot, isSlot⟩ := Option.isSome_iff_exists.mp hasSlot
  exact ⟨_, load_eq_ok.mpr ⟨slot, isSlot, rfl⟩⟩

/-- A local with a slot can be stored to. -/
theorem exists_store
    {id : LocalId}
    (hasSlot : context.hasSlot id = true)
    (keep : Bool)
    (code : CodeStream) :
    ∃ after, code.store context.scope id keep = .ok after := by
  obtain ⟨slot, isSlot⟩ := Option.isSome_iff_exists.mp hasSlot
  exact ⟨_, store_eq_ok.mpr ⟨slot, isSlot, rfl⟩⟩

/-- A local with a slot can be added to. -/
theorem exists_increment
    {id : LocalId}
    (hasSlot : context.hasSlot id = true)
    (delta : Int16)
    (code : CodeStream) :
    ∃ after, code.increment context.scope id delta = .ok after := by
  obtain ⟨slot, isSlot⟩ := Option.isSome_iff_exists.mp hasSlot
  exact ⟨_, increment_eq_ok.mpr ⟨slot, isSlot, rfl⟩⟩

/-- An iterator with a slot can be tested. -/
theorem exists_testIterator
    {iterator : LocalId}
    (hasSlot : context.hasSlot iterator = true)
    (condition : Condition)
    (label : Label)
    (code : CodeStream) :
    ∃ after, context.testIterator iterator condition label code = .ok after := by
  simp only [testIterator]
  exact exists_bind (exists_load hasSlot code) fun loaded => exists_pure _

/-- A loop whose locals have slots can be started. -/
theorem exists_startLoop
    (slots : context.HasLoopSlots plan.resolution.strategy plan.continues) :
    CodeStep.Succeeds (context.startLoop plan) := by
  intro code
  cases strategy : plan.resolution.strategy with
  | array index bound source =>
      rw [strategy] at slots
      simp only [startLoop, strategy]
      refine exists_bind (exists_store slots.1 true code) fun stored => ?_
      split
      · next continues =>
          obtain ⟨indexSlot, boundSlot⟩ := slots.2 continues
          exact exists_bind (exists_store boundSlot false _) fun bounded =>
            exists_store indexSlot false _
      · exact exists_pure stored
  | rawIterable iterator receiver | genericIterable iterator receiver =>
      rw [strategy] at slots
      simp only [startLoop, strategy]
      exact exists_store slots false _

/-- A loop whose locals have slots can be tested at its top. -/
theorem exists_testAtTop
    (slots : context.HasLoopSlots plan.resolution.strategy plan.continues)
    (labels : LoopLabels) :
    CodeStep.Succeeds (context.testAtTop plan labels) := by
  intro code
  cases strategy : plan.resolution.strategy with
  | array index bound source =>
      simp only [testAtTop, strategy]
      exact exists_bind (exists_pure _) fun tested => exists_pure _
  | rawIterable iterator receiver | genericIterable iterator receiver =>
      rw [strategy] at slots
      simp only [testAtTop, strategy]
      exact exists_bind (exists_testIterator slots _ _ _) fun tested => exists_pure _

/-- A loop whose locals have slots can be entered. -/
theorem exists_enterLoop
    (slots : context.HasLoopSlots plan.resolution.strategy plan.continues)
    (labels : LoopLabels) :
    CodeStep.Succeeds (context.enterLoop plan labels) := by
  intro code
  simp only [enterLoop]
  split
  · exact exists_pure _
  · exact exists_testAtTop slots labels code

/-- The loop variable can be bound if it has a slot. -/
theorem exists_bindElement
    (hasSlot : context.hasSlot plan.element = true) :
    CodeStep.Succeeds (context.bindElement plan) := by
  intro code
  simp only [bindElement]
  exact exists_bind (exists_store hasSlot false code) fun stored => exists_pure _

/-- An array element can be fetched if the array has a slot. -/
theorem exists_fetchIndexed
    {source : LocalId}
    (hasSlot : context.hasSlot source = true)
    (index : LocalId) :
    CodeStep.Succeeds (context.fetchIndexed plan index source) := by
  intro code
  obtain ⟨loaded, isLoaded⟩ := exists_load hasSlot code
  have indexes : ∃ indexed, (if context.hasSlot index then loaded.load context.scope index
      else pure (loaded.emit (.intConst 0))) = .ok indexed := by
    split
    · next indexSlot =>
        exact exists_load indexSlot loaded
    · exact exists_pure _
  obtain ⟨indexed, isIndexed⟩ := indexes
  exact ⟨_, fetchIndexed_eq_ok.mpr ⟨loaded, indexed, isLoaded, isIndexed, rfl⟩⟩

/-- An element can be fetched from an iterator that has a slot. -/
theorem exists_fetchIterated
    {iterator : LocalId}
    (hasSlot : context.hasSlot iterator = true) :
    CodeStep.Succeeds (context.fetchIterated plan iterator) := by
  intro code
  simp only [fetchIterated]
  exact exists_bind (exists_load hasSlot code) fun loaded => exists_pure _

/-- An element of a loop whose locals have slots can be fetched. -/
theorem exists_fetchElement
    (slots : context.HasLoopSlots plan.resolution.strategy plan.continues) :
    CodeStep.Succeeds (context.fetchElement plan) := by
  intro code
  cases strategy : plan.resolution.strategy with
  | array index bound source =>
      rw [strategy] at slots
      simp only [fetchElement, strategy]
      split
      · next hasSlot =>
          exact exists_bind (exists_fetchIndexed slots.1 index code) fun fetched =>
            exists_bindElement hasSlot fetched
      · exact exists_pure code
  | rawIterable iterator receiver | genericIterable iterator receiver =>
      rw [strategy] at slots
      simp only [fetchElement, strategy]
      refine exists_bind (exists_fetchIterated slots code) fun fetched => ?_
      split
      · next hasSlot =>
          exact exists_bindElement hasSlot fetched
      · exact exists_pure _

/-- A loop that comes back and whose locals have slots can be tested at its
bottom. -/
theorem exists_testAtBottom
    (slots : context.HasLoopSlots plan.resolution.strategy plan.continues)
    (continues : plan.continues = true)
    (labels : LoopLabels)
    (next : Label) :
    CodeStep.Succeeds (context.testAtBottom plan labels next) := by
  intro code
  cases strategy : plan.resolution.strategy with
  | array index bound source =>
      rw [strategy] at slots
      obtain ⟨indexSlot, boundSlot⟩ := slots.2 continues
      have moves : ∃ moved, (if !plan.hasEmptyAction || context.hasSlot plan.element then
          (code.place next).increment context.scope index 1
        else pure (code.place next)) = .ok moved := by
        split
        · exact exists_increment indexSlot 1 _
        · exact exists_pure _
      obtain ⟨moved, isMoved⟩ := moves
      obtain ⟨indexed, isIndexed⟩ := exists_load indexSlot (moved.place labels.test)
      obtain ⟨bounded, isBounded⟩ := exists_load boundSlot indexed
      exact ⟨_, (testAtBottom_array_eq_ok strategy).mpr
        ⟨moved, indexed, bounded, isMoved, isIndexed, isBounded, rfl⟩⟩
  | rawIterable iterator receiver | genericIterable iterator receiver =>
      rw [strategy] at slots
      simp only [testAtBottom, strategy]
      exact exists_bind (exists_testIterator slots _ _ _) fun tested => exists_pure _

/-- A loop has code if its collection, its locals and its body have. -/
theorem exists_pushIteration
    {collection : Expr}
    {body : JumpTarget → CodeStep}
    (pushes : (context.pushExpr collection true).Succeeds)
    (slots : context.HasLoopSlots plan.resolution.strategy plan.continues)
    (runs : ∀ onBreak onContinue,
      onContinue.isSome = plan.continues → (body (.loop onBreak onContinue)).Succeeds) :
    CodeStep.Succeeds (context.pushIteration plan collection body) := by
  intro code
  simp only [pushIteration]
  refine exists_bind (pushes code) fun pushed => ?_
  refine exists_bind (exists_startLoop slots pushed) fun started => ?_
  cases continues : plan.continues with
  | true =>
      simp only [LoopLabels.made, if_true]
      refine exists_bind (exists_enterLoop slots _ _) fun entered => ?_
      refine exists_bind (exists_fetchElement slots _) fun fetched => ?_
      refine exists_bind (runs _ _ (by simp [continues]) fetched) fun ran => ?_
      exact exists_bind (exists_testAtBottom slots continues _ _ _) fun repeated => exists_pure _
  | false =>
      simp only [LoopLabels.made, Bool.false_eq_true, if_false]
      refine exists_bind (exists_enterLoop slots _ _) fun entered => ?_
      refine exists_bind (exists_fetchElement slots _) fun fetched => ?_
      refine exists_bind (runs _ _ (by simp [continues]) fetched) fun ran => ?_
      exact exists_bind (exists_pure _) fun repeated => exists_pure _

/-- Whether only the collection of a loop is evaluated, because the loop does
nothing with its elements. -/
def isIdle
    (context : CodeContext)
    (plan : LoopPlan) :
    Bool :=
  plan.hasEmptyAction && !context.hasSlot plan.element && plan.resolution.strategy.isArray

/-- A planned loop has code if what it needs has. -/
theorem exists_pushPlanned
    {span : Span}
    {collection : Expr}
    {body : JumpTarget → CodeStep}
    (pushes : (context.pushExpr collection !(context.isIdle plan)).Succeeds)
    (iterates : context.isIdle plan = false →
      context.HasLoopSlots plan.resolution.strategy plan.continues ∧
        ∀ onBreak onContinue,
          onContinue.isSome = plan.continues → (body (.loop onBreak onContinue)).Succeeds) :
    CodeStep.Succeeds (context.pushPlanned plan span collection body) := by
  intro code
  cases idle : context.isIdle plan with
  | true =>
      have idles := idle
      simp only [isIdle] at idles
      simp only [pushPlanned, idles, if_true, pushEffects]
      rw [idle] at pushes
      exact exists_bind (exists_bind (pushes code) fun ran => exists_pure _) fun done =>
        exists_pure _
  | false =>
      have idles := idle
      simp only [isIdle] at idles
      simp only [pushPlanned, idles, Bool.false_eq_true, if_false]
      rw [idle] at pushes
      obtain ⟨slots, runs⟩ := iterates idle
      exact exists_bind (exists_pushIteration pushes slots runs code) fun done => exists_pure _

end CodeContext

end LoopLowering
