import LoopLowering.Proofs.Code.Conversions
import LoopLowering.Proofs.Code.LoopSteps
import LoopLowering.Proofs.Machine.BalancedCode

namespace LoopLowering

/-!
# Balanced loops

The code of a loop finds its operands on every path, and the stack at its branch
targets is the one at its start. Only the test at the top of a loop over an array
finds the array there.
-/

/-- A machine reads the descriptors that the code of loops refers to as they were
written. -/
structure DescriptorReader.ReadsLoops
    (read : DescriptorReader)
    (table : ClassTable) :
    Prop extends read.Reads table where
  iterator : read (table.methodDescriptor ⟨[], .named "Iterator"⟩) = some ⟨[], some .reference⟩
  hasNext : read (table.methodDescriptor ⟨[], .boolean⟩) = some ⟨[], some .int⟩
  next : read (table.methodDescriptor ⟨[], .object⟩) = some ⟨[], some .reference⟩

namespace CodeContext

/-- The locals of a loop have the kinds of values that the loop puts there, and
its elements convert to its variable. -/
structure SuitsKinds
    (context : CodeContext)
    (plan : LoopPlan) :
    Prop where
  array : ∀ {index bound source : LocalId},
    plan.resolution.strategy = .array index bound source →
    CodeStream.kindOf context.scope index = .int ∧ CodeStream.kindOf context.scope bound = .int ∧
      CodeStream.kindOf context.scope source = .reference
  iterator : ∀ {id : LocalId},
    plan.resolution.strategy.synthetics = [id] →
    CodeStream.kindOf context.scope id = .reference
  isValue : plan.resolution.elementType.isValue false = true
  declared : (context.localAt plan.element).type.isValue false = true
  conversion : plan.resolution.conversion =
    .between plan.resolution.elementType (context.localAt plan.element).type
  converts : context.table.converts plan.resolution.elementType
    (context.localAt plan.element).type = true

/-- Whether a loop stores or drops just what it fetches. What it gets from an
iterator is a reference and not a primitive element, which only matters if it is
taken for one; and it drops one word, also where a converted element has two. -/
def fetchesFit
    (context : CodeContext)
    (plan : LoopPlan) :
    Bool :=
  plan.resolution.strategy.isArray || (context.localAt plan.element).type.isObject ||
    if context.hasSlot plan.element then
      !plan.resolution.elementType.isPrimitive
    else
      plan.resolution.conversion == .none ||
        (!plan.resolution.elementType.isPrimitive &&
          !(CodeStream.kindOf context.scope plan.element).isWide)

end CodeContext

namespace CodeStream

variable
  {read : DescriptorReader}
  {table : ClassTable}
  {kinds : KindStack}
  {code middle after : CodeStream}

/-- An element that converts to a variable may be converted to it. -/
theorem Delivers.convertElement
    (reads : read.Reads table)
    {element declared : Ty}
    (isValue : element.isValue false = true)
    (converts : table.converts element declared = true)
    (delivers : Delivers read (.ofTy element :: kinds) code middle) :
    Delivers read (.ofTy declared :: kinds) code
      (middle.convertElement table (.between element declared)) := by
  cases isElement : element.primitive? with
  | some source =>
      obtain rfl := Ty.eq_of_primitive? isElement
      cases isDeclared : declared.primitive? with
      | some target =>
          obtain rfl := Ty.eq_of_primitive? isDeclared
          rw [ElementConversion.between_primitives]
          split
          · next same =>
              exact same ▸ delivers
          · exact delivers.convert target
      | none =>
          rw [ValueKind.ofTy_eq_reference isDeclared]
          rcases ElementConversion.between_boxed source isDeclared with isBoxing | isBoxing
          all_goals
            rw [isBoxing]
            exact delivers.box reads
  | none =>
      rw [ValueKind.ofTy_eq_reference isElement] at delivers
      cases isDeclared : declared.primitive? with
      | some target =>
          obtain rfl := Ty.eq_of_primitive? isDeclared
          obtain ⟨given, unboxes⟩ := ClassTable.unboxed?_of_converts
            (Ty.IsResult.ne_unknown (.inr (.inr isValue))) isElement converts
          rw [ElementConversion.between_unboxed isElement unboxes]
          exact (delivers.unbox reads given).convert target
      | none =>
          rw [ValueKind.ofTy_eq_reference isDeclared,
            ElementConversion.between_references isElement isDeclared]
          exact delivers

end CodeStream

namespace CodeContext

open CodeStream

variable
  {context : CodeContext}
  {plan : LoopPlan}
  {read : DescriptorReader}
  {code after : CodeStream}

/-- The fetch of an array element delivers a value for the loop variable. -/
theorem delivers_fetchIndexed
    (suits : context.SuitsKinds plan)
    (reads : read.ReadsLoops context.table)
    {index bound source : LocalId}
    (strategy : plan.resolution.strategy = .array index bound source)
    (fetched : context.fetchIndexed plan index source code = .ok after) :
    Delivers read [kindOf context.scope plan.element] code after := by
  obtain ⟨loaded, indexed, isLoaded, isIndexed, rfl⟩ := fetchIndexed_eq_ok.mp fetched
  obtain ⟨indexKind, -, sourceKind⟩ := suits.array strategy
  have onSource : Delivers read [.reference] code loaded := by
    have loads := (Delivers.refl read code).load isLoaded
    rwa [sourceKind] at loads
  have onIndex : Delivers read [.int, .reference] code indexed := by
    split at isIndexed
    · have loads := onSource.load isIndexed
      rwa [indexKind] at loads
    · rw [pure_eq_ok] at isIndexed
      exact isIndexed ▸ onSource.constant 0
  have onElement : Delivers read [.ofTy plan.resolution.elementType] code
      (indexed.emit (.arrayLoad (.ofTy plan.resolution.elementType))) := by
    refine onIndex.emit ?_ rfl rfl
    simp [Instruction.effect, popKinds, ArrayKind.valueKind_ofTy]
  rw [suits.conversion]
  exact onElement.convertElement reads.toReads suits.isValue suits.converts

/-- An iterator hands out references. -/
theorem delivers_next
    (reads : read.ReadsLoops context.table)
    {iterator : LocalId}
    (iteratorKind : kindOf context.scope iterator = .reference)
    {loaded : CodeStream}
    (isLoaded : code.load context.scope iterator = .ok loaded) :
    Delivers read [.reference] code (loaded.emit (context.iteratorCall "next" .object)) := by
  have onIterator : Delivers read [.reference] code loaded := by
    have loads := (Delivers.refl read code).load isLoaded
    rwa [iteratorKind] at loads
  refine onIterator.emit ?_ rfl rfl
  simp [iteratorCall, Instruction.effect, reads.next, popKinds]

/-- The fetch of an element from an iterator delivers a reference if the element
is not converted. -/
theorem delivers_fetchIterated_unconverted
    (reads : read.ReadsLoops context.table)
    (unconverted : (context.localAt plan.element).type.isObject = true ∨
      plan.resolution.conversion = .none)
    {iterator : LocalId}
    (iteratorKind : kindOf context.scope iterator = .reference)
    (fetched : context.fetchIterated plan iterator code = .ok after) :
    Delivers read [.reference] code after := by
  simp only [fetchIterated, bind_eq_ok, pure_eq_ok] at fetched
  obtain ⟨loaded, isLoaded, rfl⟩ := fetched
  have onElement := delivers_next reads iteratorKind isLoaded
  split
  · exact onElement
  · next notObject =>
      rw [if_pos (unconverted.resolve_left notObject)]
      exact onElement.emit rfl rfl rfl

/-- A reference that needs no conversion is for a variable that holds
references. -/
theorem SuitsKinds.kind_of_unconverted
    (suits : context.SuitsKinds plan)
    (isReference : plan.resolution.elementType.primitive? = none)
    (unconverted : plan.resolution.conversion = .none) :
    kindOf context.scope plan.element = .reference := by
  refine ValueKind.ofTy_eq_reference ?_
  cases isPrimitive : (context.localAt plan.element).type.primitive? with
  | none =>
      exact isPrimitive
  | some target =>
      have converts := suits.converts
      have conversion := suits.conversion
      rw [Ty.eq_of_primitive? isPrimitive] at converts conversion
      obtain ⟨given, unboxes⟩ := ClassTable.unboxed?_of_converts
        (Ty.IsResult.ne_unknown (.inr (.inr suits.isValue))) isReference converts
      rw [unconverted, ElementConversion.between_unboxed isReference unboxes] at conversion
      cases conversion

/-- The fetch of an element from an iterator delivers a value for the loop
variable, if the element is a reference or the variable an object. -/
theorem delivers_fetchIterated
    (suits : context.SuitsKinds plan)
    (reads : read.ReadsLoops context.table)
    (isReference : (context.localAt plan.element).type.isObject = true ∨
      plan.resolution.elementType.primitive? = none)
    {iterator : LocalId}
    (iteratorKind : kindOf context.scope iterator = .reference)
    (fetched : context.fetchIterated plan iterator code = .ok after) :
    Delivers read [kindOf context.scope plan.element] code after := by
  by_cases isObject : (context.localAt plan.element).type.isObject = true
  · have isDeclared : kindOf context.scope plan.element = .reference :=
      ValueKind.ofTy_eq_reference (Ty.primitive?_of_isObject isObject)
    rw [isDeclared]
    exact delivers_fetchIterated_unconverted reads (.inl isObject) iteratorKind fetched
  · have isElement := isReference.resolve_left isObject
    by_cases unconverted : plan.resolution.conversion = .none
    · rw [suits.kind_of_unconverted isElement unconverted]
      exact delivers_fetchIterated_unconverted reads (.inr unconverted) iteratorKind fetched
    · simp only [fetchIterated, bind_eq_ok, pure_eq_ok, isObject, unconverted, if_false]
        at fetched
      obtain ⟨loaded, isLoaded, rfl⟩ := fetched
      have asElement : Delivers read [.ofTy plan.resolution.elementType] code
          ((loaded.emit (context.iteratorCall "next" .object)).emit
            (.checkCast (context.table.referenceName plan.resolution.elementType))) := by
        rw [ValueKind.ofTy_eq_reference isElement]
        exact (delivers_next reads iteratorKind isLoaded).emit rfl rfl rfl
      have converted := asElement.convertElement reads.toReads suits.isValue suits.converts
      rw [← suits.conversion] at converted
      exact converted

/-- An element that a loop has stored is gone from the stack. -/
theorem delivers_bindElement
    {element : CodeStream}
    (delivers : Delivers read [kindOf context.scope plan.element] code element)
    (bound : context.bindElement plan element = .ok after) :
    Delivers read [] code after := by
  simp only [bindElement, bind_eq_ok, pure_eq_ok] at bound
  obtain ⟨stored, isStored, rfl⟩ := bound
  have stores := delivers.store isStored
  split
  · exact stores.same (openAssigned_same _ _ _ _).1 (openAssigned_same _ _ _ _).2
  · exact stores

/-- The fetch of an element leaves nothing: it stores the element or drops it. -/
theorem delivers_fetchElement
    (suits : context.SuitsKinds plan)
    (reads : read.ReadsLoops context.table)
    (fits : context.fetchesFit plan = true)
    (fetched : context.fetchElement plan code = .ok after) :
    Delivers read [] code after := by
  cases strategy : plan.resolution.strategy with
  | array index bound source =>
      simp only [fetchElement, strategy] at fetched
      split at fetched
      · simp only [bind_eq_ok] at fetched
        obtain ⟨element, isElement, bound⟩ := fetched
        exact delivers_bindElement (delivers_fetchIndexed suits reads strategy isElement) bound
      · rw [pure_eq_ok] at fetched
        exact fetched ▸ .refl read code
  | rawIterable iterator receiver | genericIterable iterator receiver =>
      have iteratorKind : kindOf context.scope iterator = .reference :=
        suits.iterator (by simp only [strategy, LoopStrategy.synthetics])
      simp only [fetchesFit, strategy, LoopStrategy.isArray, Bool.false_or, Bool.or_eq_true] at fits
      simp only [fetchElement, strategy, bind_eq_ok] at fetched
      obtain ⟨element, isElement, bound⟩ := fetched
      have notPrimitive : (!plan.resolution.elementType.isPrimitive) = true →
          plan.resolution.elementType.primitive? = none := by
        simp [Ty.isPrimitive_eq_isSome]
      split at bound
      · next hasSlot =>
          rw [if_pos hasSlot] at fits
          exact delivers_bindElement (delivers_fetchIterated suits reads
            (fits.imp_right notPrimitive) iteratorKind isElement) bound
      · next slotless =>
          rw [if_neg slotless] at fits
          simp only [Bool.or_eq_true, beq_iff_eq, Bool.and_eq_true] at fits
          rw [pure_eq_ok] at bound
          subst bound
          rcases fits with isObject | unconverted | ⟨isReference, isNarrow⟩
          · exact (delivers_fetchIterated_unconverted reads (.inl isObject) iteratorKind
              isElement).emit rfl rfl rfl
          · exact (delivers_fetchIterated_unconverted reads (.inr unconverted) iteratorKind
              isElement).emit rfl rfl rfl
          · have delivers := delivers_fetchIterated suits reads
              (.inr (notPrimitive isReference)) iteratorKind isElement
            exact delivers.emit (by simpa [Instruction.effect] using isNarrow) rfl rfl

/-- What the test of a loop finds on the stack: the array, if the loop tests at
its top. -/
def testKinds
    (plan : LoopPlan) :
    KindStack :=
  if plan.resolution.strategy.isArray && !plan.continues then [.reference] else []

section Guided

variable
  {expects : StackRelation}
  {entry : KindStack}
  {before : CodeStream}

/-- The start of a loop keeps its collection in locals, and an array on the
stack for a test at the top. -/
theorem guided_startLoop
    (suits : context.SuitsKinds plan)
    (reads : read.ReadsLoops context.table)
    (guided : Guided read expects entry [.reference] before code)
    (started : context.startLoop plan code = .ok after) :
    Guided read expects entry (testKinds plan) before after := by
  cases strategy : plan.resolution.strategy with
  | array index bound source =>
      obtain ⟨indexKind, boundKind, sourceKind⟩ := suits.array strategy
      simp only [startLoop, strategy, bind_eq_ok] at started
      obtain ⟨stored, isStored, started⟩ := started
      have stores := Guided.storeKept (sourceKind ▸ guided) isStored
      rw [sourceKind] at stores
      simp only [testKinds, strategy, LoopStrategy.isArray, Bool.true_and]
      split at started
      · next comesBack =>
          simp only [bind_eq_ok] at started
          obtain ⟨bounded, isBounded, indexed⟩ := started
          have measured : Guided read expects entry [.int] before (stored.emit .arrayLength) :=
            stores.emitPlain rfl rfl
          have bounds := Guided.store (boundKind ▸ measured) isBounded
          have zeroed : Guided read expects entry [.int] before (bounded.emit (.intConst 0)) :=
            bounds.emitPlain rfl rfl
          simpa [comesBack] using Guided.store (indexKind ▸ zeroed) indexed
      · next comesBack =>
          rw [pure_eq_ok] at started
          simpa [comesBack] using started ▸ stores
  | rawIterable iterator receiver | genericIterable iterator receiver =>
      have iteratorKind : CodeStream.kindOf context.scope iterator = .reference :=
        suits.iterator (by simp only [strategy, LoopStrategy.synthetics])
      simp only [startLoop, strategy] at started
      have noKinds : testKinds plan = [] := by
        simp [testKinds, strategy, LoopStrategy.isArray]
      have notStatic : context.invokeKind receiver ≠ .static := by
        unfold invokeKind
        split <;> decide
      rw [noKinds]
      refine Guided.store (iteratorKind ▸ guided.emitPlain ?_ rfl) started
      simp [Instruction.effect, reads.iterator, notStatic, popKinds]

/-- The test of an iterator leaves the stack as it is, also where it branches. -/
theorem guided_testIterator
    (reads : read.ReadsLoops context.table)
    {iterator : LocalId}
    (iteratorKind : kindOf context.scope iterator = .reference)
    (guided : Guided read expects entry [] before code)
    {condition : Condition}
    {label : Label}
    (made : label < code.labels.size)
    (expected : expects label [])
    (tested : context.testIterator iterator condition label code = .ok after) :
    Guided read expects entry [] before after := by
  simp only [testIterator, bind_eq_ok, pure_eq_ok] at tested
  obtain ⟨loaded, isLoaded, rfl⟩ := tested
  have sameLabels : loaded.labels = code.labels := by
    obtain ⟨slot, -, rfl⟩ := load_eq_ok.mp isLoaded
    rfl
  have loads := guided.load isLoaded
  rw [iteratorKind] at loads
  have asks : Guided read expects entry [.int] before
      (loaded.emit (context.iteratorCall "hasNext" .boolean)) := by
    refine loads.emitPlain ?_ rfl
    simp [iteratorCall, Instruction.effect, reads.hasNext, popKinds]
  refine asks.emit rfl (fun _ => rfl) fun target isTarget => ?_
  simp only [Instruction.target?, Option.some.injEq] at isTarget
  subst isTarget
  refine ⟨?_, expected⟩
  change label < loaded.labels.size
  rwa [sameLabels]

/-- The test at the top of a loop takes the array that the start of the loop has
left there. -/
theorem guided_testAtTop
    (suits : context.SuitsKinds plan)
    (reads : read.ReadsLoops context.table)
    (passesOnce : plan.continues = false)
    {labels : LoopLabels}
    (guided : Guided read expects entry (testKinds plan) before code)
    (testOpen : code.IsOpen labels.test)
    (expectsTest : ∀ {stack : KindStack}, expects labels.test stack → stack = testKinds plan)
    (exitMade : labels.exit < code.labels.size)
    (expectsExit : expects labels.exit [])
    (tested : context.testAtTop plan labels code = .ok after) :
    Guided read expects entry [] before after := by
  have placed := guided.place testOpen expectsTest
  have stillMade : labels.exit < (code.place labels.test).labels.size := by
    simpa [place] using exitMade
  cases strategy : plan.resolution.strategy with
  | array index bound source =>
      have isArray : testKinds plan = [.reference] := by
        simp [testKinds, strategy, LoopStrategy.isArray, passesOnce]
      rw [isArray] at placed
      simp only [testAtTop, strategy, bind_eq_ok, pure_eq_ok] at tested
      obtain ⟨found, rfl, rfl⟩ := tested
      refine Guided.same ?_ (markSource_same _ _ _).1 (markSource_same _ _ _).2
      have measured : Guided read expects entry [.int] before
          ((code.place labels.test).emit .arrayLength) := placed.emitPlain rfl rfl
      refine measured.emit rfl (fun _ => rfl) fun target isTarget => ?_
      simp only [Instruction.target?, Option.some.injEq] at isTarget
      subst isTarget
      exact ⟨stillMade, expectsExit⟩
  | rawIterable iterator receiver | genericIterable iterator receiver =>
      have noKinds : testKinds plan = [] := by
        simp [testKinds, strategy, LoopStrategy.isArray]
      rw [noKinds] at placed
      simp only [testAtTop, strategy, bind_eq_ok, pure_eq_ok] at tested
      obtain ⟨found, isFound, rfl⟩ := tested
      refine Guided.same ?_ (markSource_same _ _ _).1 (markSource_same _ _ _).2
      exact guided_testIterator reads
        (suits.iterator (by simp only [strategy, LoopStrategy.synthetics])) placed stillMade
        expectsExit isFound

/-- A loop that comes back is entered by a branch to its test, and any other one
by the test itself. -/
theorem guided_enterLoop
    (suits : context.SuitsKinds plan)
    (reads : read.ReadsLoops context.table)
    {labels : LoopLabels}
    (comesBack : labels.next.isSome = plan.continues)
    (guided : Guided read expects entry (testKinds plan) before code)
    (testOpen : code.IsOpen labels.test)
    (expectsTest : ∀ {stack : KindStack}, expects labels.test stack ↔ stack = testKinds plan)
    (exitMade : labels.exit < code.labels.size)
    (expectsExit : expects labels.exit [])
    (entered : context.enterLoop plan labels code = .ok after) :
    Guided read expects entry [] before after := by
  cases next : labels.next with
  | some next =>
      have noKinds : testKinds plan = [] := by
        simp [testKinds, ← comesBack, next]
      rw [noKinds] at guided expectsTest
      simp only [enterLoop, next, Except.ok.injEq] at entered
      rw [← entered]
      refine guided.emit rfl (fun _ => rfl) fun target isTarget => ?_
      simp only [Instruction.target?, Option.some.injEq] at isTarget
      subst isTarget
      exact ⟨(Array.getElem?_eq_some_iff.mp testOpen).1, expectsTest.mpr rfl⟩
  | none =>
      simp only [enterLoop, next] at entered
      exact guided_testAtTop suits reads (by rw [← comesBack, next]; rfl) guided testOpen
        expectsTest.mp exitMade expectsExit entered

/-- A loop that comes back moves on, tests, and branches to its body. -/
theorem guided_testAtBottom
    (suits : context.SuitsKinds plan)
    (reads : read.ReadsLoops context.table)
    {labels : LoopLabels}
    {next : Label}
    (guided : Guided read expects entry [] before code)
    (nextOpen : code.IsOpen next)
    (expectsNext : ∀ {stack : KindStack}, expects next stack → stack = [])
    (testOpen : code.IsOpen labels.test)
    (different : next ≠ labels.test)
    (expectsTest : ∀ {stack : KindStack}, expects labels.test stack → stack = [])
    (actionMade : labels.action < code.labels.size)
    (expectsAction : expects labels.action [])
    (tested : context.testAtBottom plan labels next code = .ok after) :
    Guided read expects entry [] before after := by
  have placed := guided.place nextOpen expectsNext
  have stillOpen : ∀ {moved : CodeStream}, moved.labels = (code.place next).labels →
      moved.IsOpen labels.test := by
    intro moved sameLabels
    rw [CodeStream.IsOpen, sameLabels, labels_place different]
    exact testOpen
  have stillMade : ∀ {moved : CodeStream}, moved.labels = (code.place next).labels →
      labels.action < (moved.place labels.test).labels.size := by
    intro moved sameLabels
    simpa [place, sameLabels] using actionMade
  cases strategy : plan.resolution.strategy with
  | array index bound source =>
      obtain ⟨indexKind, boundKind, -⟩ := suits.array strategy
      obtain ⟨moved, indexed, bounded, isMoved, isIndexed, isBounded, rfl⟩ :=
        (testAtBottom_array_eq_ok strategy).mp tested
      refine Guided.same ?_ (markSource_same _ _ _).1 (markSource_same _ _ _).2
      have moves : Guided read expects entry [] before moved ∧
          moved.labels = (code.place next).labels := by
        split at isMoved
        · obtain ⟨slot, -, rfl⟩ := increment_eq_ok.mp isMoved
          exact ⟨placed.emitPlain rfl rfl, rfl⟩
        · rw [pure_eq_ok] at isMoved
          exact isMoved ▸ ⟨placed, rfl⟩
      have loads := ((moves.1.place (stillOpen moves.2) expectsTest).load isIndexed).load isBounded
      rw [indexKind, boundKind] at loads
      have sameLabels : bounded.labels = (moved.place labels.test).labels := by
        obtain ⟨slot, -, rfl⟩ := load_eq_ok.mp isIndexed
        obtain ⟨other, -, rfl⟩ := load_eq_ok.mp isBounded
        rfl
      refine loads.emit rfl (fun _ => rfl) fun target isTarget => ?_
      simp only [Instruction.target?, Option.some.injEq] at isTarget
      subst isTarget
      exact ⟨sameLabels ▸ stillMade moves.2, expectsAction⟩
  | rawIterable iterator receiver | genericIterable iterator receiver =>
      simp only [testAtBottom, strategy, bind_eq_ok, pure_eq_ok] at tested
      obtain ⟨found, isFound, rfl⟩ := tested
      refine Guided.same ?_ (markSource_same _ _ _).1 (markSource_same _ _ _).2
      exact guided_testIterator reads
        (suits.iterator (by simp only [strategy, LoopStrategy.synthetics]))
        (placed.place (stillOpen rfl) expectsTest) (stillMade rfl) expectsAction isFound

end Guided

namespace Iteration

variable
  {collection : Expr}
  {body : JumpTarget → CodeStep}

/-- The stacks that the branch targets of a loop expect, and those of the
statements around it. -/
def expects
    (iteration : context.Iteration plan collection body code after) :
    StackRelation :=
  fun label stack =>
    if iteration.started.labels.size ≤ label then
      label < iteration.labeled.labels.size ∧
        stack = if label = iteration.labels.test then testKinds plan else []
    else
      code.IsOpen label ∧ stack = []

/-- A branch target that is made when a loop is entered expects the stack at the
start of the loop, except for the test. -/
theorem expects_made
    (iteration : context.Iteration plan collection body code after)
    {label : Nat}
    (member : label ∈ iteration.labels.next.toList ++
      [iteration.labels.exit, iteration.labels.test, iteration.labels.action])
    (stack : KindStack) :
    iteration.expects label stack ↔
      stack = if label = iteration.labels.test then testKinds plan else [] := by
  obtain ⟨made, isOpen⟩ := (LoopLabels.appends_made iteration.isLabeled).isOpen label member
  simp [expects, made, (Array.getElem?_eq_some_iff.mp isOpen).1]

/-- Wherever a loop leads out of its body, the stack is the one at its start. -/
theorem expects_of_isOpen
    (iteration : context.Iteration plan collection body code after)
    {label : Nat}
    (isOpen : label ∈ iteration.labels.outward ∨ iteration.started.IsOpen label) :
    iteration.expects label [] := by
  rcases isOpen with member | isOpen
  · have isMade : label ∈ iteration.labels.next.toList ++
        [iteration.labels.exit, iteration.labels.test, iteration.labels.action] := by
      unfold LoopLabels.outward at member
      split at member
      · next isNext =>
          simp only [isNext, Option.toList, List.cons_append, List.nil_append, List.mem_cons,
            List.not_mem_nil, or_false] at member ⊢
          omega
      · next isNext =>
          simp only [isNext, Option.toList, List.nil_append, List.mem_cons, List.not_mem_nil,
            or_false] at member ⊢
          exact .inl member
    rw [iteration.expects_made isMade]
    split
    · next isTest =>
        subst isTest
        obtain ⟨-, isTest, isExit, isNext⟩ := LoopLabels.numbers iteration.isLabeled
        have comesBack : plan.continues = true := by
          cases continues : plan.continues with
          | true =>
              rfl
          | false =>
              simp only [continues, Bool.false_eq_true, if_false] at isNext
              simp [LoopLabels.outward, isNext, isTest, isExit] at member
        simp [testKinds, comesBack]
    · rfl
  · have isOuter : code.IsOpen label := by
      simpa using iteration.appends_started.isOpen_or isOpen
    have isOld := (Array.getElem?_eq_some_iff.mp isOpen).1
    rw [expects, if_neg (Nat.not_le.mpr isOld)]
    exact ⟨isOuter, rfl⟩

/-- A target of which something is expected is known where the body is entered. -/
theorem lt_of_expects
    (iteration : context.Iteration plan collection body code after)
    {label : Nat}
    {stack : KindStack}
    (expected : iteration.expects label stack) :
    label < iteration.entered.labels.size := by
  refine Nat.lt_of_lt_of_le ?_ iteration.size_labeled_le
  unfold expects at expected
  split at expected
  · exact expected.1
  · next isOld =>
      have within := (LoopLabels.appends_made iteration.isLabeled).labelCount
      omega

/-- The collection of a loop leaves its value. -/
theorem guided_collection
    (iteration : context.Iteration plan collection body code after)
    {kinds : KindStack}
    (evaluates : Balanced read kinds code iteration.pushed) :
    Guided read iteration.expects [] kinds code iteration.pushed := by
  have appends := appends_pushExpr context collection true iteration.isPushed
  have within := (appends_startLoop iteration.isStarted).labelCount
  have guided := (Guided.refl read iteration.expects [] code).appendBalanced appends.extends_
    evaluates ?_ ?_
  · simpa using guided
  · intro label isOpen
    have isOuter : code.IsOpen label := by
      simpa using appends.isOpen_or isOpen
    have isOld := (Array.getElem?_eq_some_iff.mp isOpen).1
    rw [expects, if_neg (by omega)]
    exact ⟨isOuter, rfl⟩
  · intro label offset stack expected isPlaced
    have isOld := lt_size_of_offset? isPlaced
    rw [expects, if_neg (by omega)] at expected
    rwa [← appends.offset?_eq (Array.getElem?_eq_some_iff.mp expected.1).1]

/-- Balanced code may follow in the body of a loop. -/
theorem guided_appendBody
    (iteration : context.Iteration plan collection body code after)
    {before inner : CodeStream}
    (guided : Guided read iteration.expects [] [] code before)
    (appends : CodeStream.Appends [] before inner)
    (sinceStart : CodeStream.Appends iteration.labels.outward iteration.started inner)
    (isKnown : iteration.entered.labels.size ≤ before.labels.size)
    (balanced : Balanced read [] before inner) :
    Guided read iteration.expects [] [] code inner := by
  refine guided.appendBalanced appends.extends_ balanced (fun label isOpen => ?_) ?_
  · exact iteration.expects_of_isOpen (sinceStart.isOpen_or isOpen)
  · intro label offset stack expected isPlaced
    have isOld := Nat.lt_of_lt_of_le (iteration.lt_of_expects expected) isKnown
    rwa [← appends.offset?_eq isOld]

/-- A branch target of a loop that is not its test expects the stack at the start
of the loop. -/
theorem expects_iff
    (iteration : context.Iteration plan collection body code after)
    {label : Nat}
    (member : label ∈ iteration.labels.next.toList ++
      [iteration.labels.exit, iteration.labels.test, iteration.labels.action])
    (notTest : label ≠ iteration.labels.test)
    {stack : KindStack} :
    iteration.expects label stack ↔ stack = [] := by
  rw [iteration.expects_made member, if_neg notTest]

/-- The test of a loop expects what it is to find. -/
theorem expects_test_iff
    (iteration : context.Iteration plan collection body code after)
    {stack : KindStack} :
    iteration.expects iteration.labels.test stack ↔ stack = testKinds plan := by
  rw [iteration.expects_made (by simp), if_pos rfl]

/-- The branch targets of a loop are open once they are made. -/
theorem isOpen_made
    (iteration : context.Iteration plan collection body code after)
    {label : Nat}
    (member : label ∈ iteration.labels.next.toList ++
      [iteration.labels.exit, iteration.labels.test, iteration.labels.action]) :
    iteration.labeled.IsOpen label :=
  ((LoopLabels.appends_made iteration.isLabeled).isOpen label member).2

/-- A loop starts with the stack as it was, except for an array that its test
takes. -/
theorem guided_labeled
    (iteration : context.Iteration plan collection body code after)
    (suits : context.SuitsKinds plan)
    (reads : read.ReadsLoops context.table)
    (evaluates : Balanced read [.reference] code iteration.pushed) :
    Guided read iteration.expects [] (testKinds plan) code iteration.labeled := by
  have started := guided_startLoop suits reads (iteration.guided_collection evaluates)
    iteration.isStarted
  have isLabeled : (LoopLabels.made plan.continues iteration.started).2 = iteration.labeled := by
    rw [iteration.isLabeled]
  rw [← isLabeled]
  unfold LoopLabels.made
  split
  · exact started.addLabel.addLabel.addLabel.addLabel
  · exact started.addLabel.addLabel.addLabel

/-- The body of a loop is entered with the stack as it was. -/
theorem guided_action
    (iteration : context.Iteration plan collection body code after)
    (suits : context.SuitsKinds plan)
    (reads : read.ReadsLoops context.table)
    (evaluates : Balanced read [.reference] code iteration.pushed) :
    Guided read iteration.expects [] [] code (iteration.entered.place iteration.labels.action) := by
  obtain ⟨actionApart, exitApart, -⟩ := LoopLabels.ne_test iteration.isLabeled
  have comesBack : iteration.labels.next.isSome = plan.continues := by
    rw [(LoopLabels.numbers iteration.isLabeled).2.2.2]
    split <;> simp_all
  have exitOpen : iteration.labeled.IsOpen iteration.labels.exit :=
    iteration.isOpen_made (by simp)
  have entered := guided_enterLoop suits reads comesBack
    (iteration.guided_labeled suits reads evaluates) (iteration.isOpen_made (by simp))
    iteration.expects_test_iff (Array.getElem?_eq_some_iff.mp exitOpen).1
    ((iteration.expects_iff (by simp) exitApart).mpr rfl) iteration.isEntered
  exact entered.place (iteration.appends_entered.isOpen _ (by simp)).2
    (iteration.expects_iff (by simp) actionApart).mp

/-- The body of a loop is left with the stack as it was. -/
theorem guided_ran
    (iteration : context.Iteration plan collection body code after)
    (suits : context.SuitsKinds plan)
    (reads : read.ReadsLoops context.table)
    (evaluates : Balanced read [.reference] code iteration.pushed)
    (fits : context.fetchesFit plan = true)
    (complete : ∀ target, (body target).Appends)
    (neutral : Balanced read [] iteration.fetched iteration.ran) :
    Guided read iteration.expects [] [] code iteration.ran := by
  have appendsFetch := appends_fetchElement iteration.isFetched
  have appendsBody := complete _ iteration.isRan
  have placedSize : (iteration.entered.place iteration.labels.action).labels.size =
      iteration.entered.labels.size := by
    simp [place]
  have fetched := iteration.guided_appendBody (iteration.guided_action suits reads evaluates)
    appendsFetch (iteration.appends_action.trans appendsFetch) (Nat.le_of_eq placedSize.symm)
    (delivers_fetchElement suits reads fits iteration.isFetched).balanced
  exact iteration.guided_appendBody fetched appendsBody (iteration.appends_ran complete)
    (Nat.le_trans (Nat.le_of_eq placedSize.symm) appendsFetch.labelCount) neutral

/-- A loop comes back with the stack as it was. -/
theorem guided_repeated
    (iteration : context.Iteration plan collection body code after)
    (suits : context.SuitsKinds plan)
    (reads : read.ReadsLoops context.table)
    (complete : ∀ target, (body target).Appends)
    (guided : Guided read iteration.expects [] [] code iteration.ran) :
    Guided read iteration.expects [] [] code iteration.repeated := by
  have sameCode := sameCode_closeBody context plan iteration.ran
  have closed := guided.same sameCode.1 sameCode.2
  have isRepeated := iteration.isRepeated
  obtain ⟨actionApart, -, nextApart⟩ := LoopLabels.ne_test iteration.isLabeled
  cases next : iteration.labels.next with
  | none =>
      rw [next] at isRepeated
      simp only [pure_eq_ok] at isRepeated
      exact isRepeated ▸ closed
  | some label =>
      rw [next] at isRepeated
      have comesBack : plan.continues = true := by
        have isNext := (LoopLabels.numbers iteration.isLabeled).2.2.2
        cases continues : plan.continues with
        | true =>
            rfl
        | false =>
            simp [continues, next] at isNext
      have expectsNone : testKinds plan = [] := by
        simp [testKinds, comesBack]
      have stillOpen : ∀ other ∈ iteration.labels.outward,
          (context.closeBody plan iteration.ran).IsOpen other :=
        fun other member => (((iteration.appends_ran complete).sameCode sameCode).isOpen
          other member).2
      have actionMade : iteration.labels.action <
          (context.closeBody plan iteration.ran).labels.size := by
        have actionOpen := (iteration.appends_entered.isOpen iteration.labels.action (by simp)).2
        rw [sameCode.2]
        exact Nat.lt_of_lt_of_le (Array.getElem?_eq_some_iff.mp actionOpen).1
          (iteration.size_entered_le complete)
      exact guided_testAtBottom suits reads closed
        (stillOpen label (by simp [LoopLabels.outward, next]))
        (iteration.expects_iff (by simp [next]) (fun same => nextApart (same ▸ next))).mp
        (stillOpen iteration.labels.test (by simp [LoopLabels.outward, next]))
        (fun same => nextApart (same ▸ next))
        (fun expected => expectsNone ▸ iteration.expects_test_iff.mp expected) actionMade
        ((iteration.expects_iff (by simp) actionApart).mpr rfl) isRepeated

/-- A loop is left with the stack as it was. -/
theorem guided_after
    (iteration : context.Iteration plan collection body code after)
    (suits : context.SuitsKinds plan)
    (reads : read.ReadsLoops context.table)
    (evaluates : Balanced read [.reference] code iteration.pushed)
    (fits : context.fetchesFit plan = true)
    (complete : ∀ target, (body target).Appends)
    (neutral : Balanced read [] iteration.fetched iteration.ran) :
    Guided read iteration.expects [] [] code after := by
  obtain ⟨-, exitApart, -⟩ := LoopLabels.ne_test iteration.isLabeled
  have ran := iteration.guided_ran suits reads evaluates fits complete neutral
  have sameCode := sameCode_leaveLoop context plan iteration.repeated
  have left := (iteration.guided_repeated suits reads complete ran).same sameCode.1 sameCode.2
  have exitOpen := (((iteration.appends_repeated complete).sameCode sameCode).isOpen
    iteration.labels.exit (by simp)).2
  have placed := left.place exitOpen (iteration.expects_iff (by simp) exitApart).mp
  have isAfter := iteration.isAfter
  revert placed
  generalize iteration.expects = expects
  intro placed
  rw [← isAfter]
  exact placed

/-- The code around a loop has placed no branch target of which something is
expected. -/
theorem offset?_of_expects
    (iteration : context.Iteration plan collection body code after)
    {label : Nat}
    {stack : KindStack}
    (expected : iteration.expects label stack) :
    code.offset? label = none := by
  unfold expects at expected
  split at expected
  · next isNew =>
      exact offset?_eq_none_of_size_le (Nat.le_trans iteration.appends_started.labelCount isNew)
  · rw [offset?, expected.1]
    rfl

/-- A loop leaves the stack as it was. -/
theorem balanced
    (iteration : context.Iteration plan collection body code after)
    (complete : ∀ target, (body target).Appends)
    (guided : Guided read iteration.expects [] [] code after) :
    Balanced read [] code after := by
  obtain ⟨holds, invariant⟩ := guided
  refine invariant.balanced iteration.offset?_of_expects fun {label stack} expected isOpen => ?_
  have isOuter : code.IsOpen label := by
    simpa using (iteration.appends_after complete).isOpen_or isOpen
  have isOld := (Array.getElem?_eq_some_iff.mp isOuter).1
  have within := iteration.appends_started.labelCount
  rw [expects, if_neg (by omega)] at expected
  exact expected.2

/-- Along every path from the start of a loop, the stack at its branch targets is
the one at its start. Only a test that stands before the body of a loop over an
array finds the array on top. -/
theorem stack_eq
    (iteration : context.Iteration plan collection body code after)
    (guided : Guided read iteration.expects [] [] code after)
    {below : KindStack}
    {state : KindState}
    (path : KindPath read after code.position after.position ⟨code.position, below⟩ state)
    {label : Nat}
    (isThere : after.offset? label = some state.offset)
    (member : label ∈ iteration.labels.next.toList ++
      [iteration.labels.exit, iteration.labels.test, iteration.labels.action]) :
    state.stack = (if label = iteration.labels.test then testKinds plan else []) ++ below := by
  obtain ⟨holds, invariant⟩ := guided
  exact invariant.stack_eq iteration.offset?_of_expects path
    ((iteration.expects_made member _).mpr rfl) isThere

end Iteration

end CodeContext

end LoopLowering
