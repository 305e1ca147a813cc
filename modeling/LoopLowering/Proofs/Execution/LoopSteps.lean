import LoopLowering.Proofs.Execution.ExpressionRuns
import LoopLowering.Proofs.Machine.LedgerLoops

namespace LoopLowering

/-!
# Steps of the code of loops

The locals that a loop introduces hold what its elements are taken from. The code of
a loop starts by putting it there, and it tests for another element, fetches it and
moves on as the tree of the loop does.
-/

/-- What the locals of a loop hold of what it takes its elements from, after as many
as have been taken. A loop that never comes back has no use for an index. -/
inductive LoopPlan.Keeps
    (plan : LoopPlan)
    (kept : Nat → Option Word)
    (taken : Nat) :
    LoopSource → Prop where
  | array {index bound source : LocalId} {reference : Reference} {length : Nat} :
      plan.resolution.strategy = .array index bound source →
      length < 0x80000000 →
      kept source = some (.reference reference) →
      (plan.continues = true →
        kept bound = some (.int (Int32.ofNat length)) ∧
          kept index = some (.int (Int32.ofNat taken))) →
      (plan.continues = false → taken = 0) →
      Keeps plan kept taken
        (.array (.word (.reference reference)) (.ofTy plan.resolution.elementType) length)
  | iterator {iterator : LocalId} {reference : Reference} :
      plan.resolution.strategy.synthetics = [iterator] →
      kept iterator = some (.reference reference) →
      Keeps plan kept taken (.iterator reference)

/-- What a loop finds on the stack where it has started: the array, if it tests at its
top. -/
def LoopPlan.operands
    (plan : LoopPlan) :
    LoopSource → List Word
  | .array (.word array) _ _ => if plan.continues then [] else [array]
  | _ => []

/-- A loop that introduces one local is not one over an array. -/
theorem LoopStrategy.isArray_of_synthetics
    {strategy : LoopStrategy}
    {iterator : LocalId}
    (isIterator : strategy.synthetics = [iterator]) :
    strategy.isArray = false := by
  cases strategy with
  | array index bound source =>
      simp [synthetics] at isIterator
  | rawIterable | genericIterable =>
      rfl

/-- A loop over an iterable assigns its iterator where it starts. -/
theorem LoopPlan.startedWith_iterator
    {plan : LoopPlan}
    {iterator : LocalId}
    (isIterator : plan.resolution.strategy.synthetics = [iterator])
    (set : VarSet) :
    plan.startedWith set = set.insert iterator := by
  cases strategy : plan.resolution.strategy <;>
    simp [strategy, LoopStrategy.synthetics] at isIterator
  all_goals
    simp [startedWith, strategy, isIterator]

namespace CodeContext

/-- What the execution of a loop relies on at a place inside it. -/
structure ExecutableLoop
    (context : CodeContext)
    (place : Place)
    (plan : LoopPlan) :
    Prop where
  sees : context.SeesLoop place plan
  kinds : context.SuitsKinds plan
  isSource : (context.localAt plan.element).isSynthetic = false
  areSynthetic : ∀ id ∈ plan.resolution.strategy.synthetics,
    (context.localAt id).isSynthetic = true
  apart : plan.resolution.strategy.synthetics.Nodup
  elementWord : plan.resolution.elementType.isWord = true
  declaredWord : (context.localAt plan.element).type.isWord = true
  becomes : plan.resolution.elementType.becomes (context.localAt plan.element).type = true
  handsOut : plan.resolution.strategy.isArray = false →
    plan.resolution.elementType.isPrimitive = false
  /-- A loop over an array that never comes back has no index. -/
  index : ∀ {index bound source : LocalId},
    plan.resolution.strategy = .array index bound source →
    plan.continues = false →
    context.hasSlot index = false

variable
  {strict : Bool}
  {context : CodeContext}
  {code : MethodCode}
  {outside : Outside}
  {place : Place}
  {plan : LoopPlan}
  {kept : Nat → Option Word}
  {set : VarSet}
  {stream middle next : CodeStream}
  {stack : List Word}
  {state : TreeState}
  {machine : Machine}
  {source : LoopSource}
  {taken : Nat}

/-- A method without parameters is called on its receiver and answers. -/
theorem brings_invokeBare
    (ref : MethodRef)
    {kind : InvokeKind}
    (notStatic : kind ≠ .static)
    {result : Option ValueKind}
    (reading : MethodShape.ofDescriptor ref.descriptor = some ⟨[], result⟩)
    {receiver : Reference}
    {datum : Datum}
    {memory : Memory}
    (brings : code.Brings outside stream machine middle
      (context.Stands place set kept (.reference receiver :: stack) state))
    (answered : outside.answer (.method ref.name ref.descriptor receiver []) state.memory =
      (datum, memory)) :
    code.Brings outside stream machine (middle.emit (.invoke kind ref))
      (context.Stands place set kept (result.toList.map datum.word ++ stack)
        (state.withMemory memory)) := by
  have noWords : code.Brings outside stream machine middle
      (context.Stands place set kept (([] : List Word).reverse ++ .reference receiver :: stack)
        state) := brings
  exact brings_invokeMethod ref notStatic reading rfl noWords answered

/-- The elements of a loop are of the kind of its variable. -/
theorem ExecutableLoop.kind_element
    (loop : context.ExecutableLoop place plan) :
    ValueKind.ofTy plan.resolution.elementType = CodeStream.kindOf context.scope plan.element :=
  Ty.ofTy_of_becomes loop.elementWord loop.declaredWord loop.becomes

/-- A loop over an array keeps the array, and its length if it comes back. -/
theorem brings_startArray
    (executable : context.Executable strict)
    (loop : context.ExecutableLoop place plan)
    {index bound local_ : LocalId}
    (strategy : plan.resolution.strategy = .array index bound local_)
    {array : Reference}
    (started : context.startLoop plan stream = .ok next)
    (stands : context.Stands place set kept (.reference array :: stack) state machine) :
    ∃ others, (∀ id ∉ plan.resolution.strategy.synthetics, others id = kept id) ∧
      plan.Keeps others 0 (.array (.word (.reference array))
        (.ofTy plan.resolution.elementType) (state.memory.arrays array).length) ∧
      code.Brings outside stream machine next (context.Stands place (plan.startedWith set) others
        ((if plan.continues then [] else [.reference array]) ++ stack) state) := by
  have seen := loop.sees.synthetics
  have synthetic := loop.areSynthetic
  have apart := loop.apart
  simp only [strategy, LoopStrategy.synthetics, List.forall_mem_cons, List.not_mem_nil,
    false_imp_iff, implies_true, and_true] at seen synthetic
  simp only [strategy, LoopStrategy.synthetics, List.nodup_cons, List.mem_cons, List.not_mem_nil,
    or_false, not_or] at apart
  obtain ⟨indexSeen, boundSeen, sourceSeen⟩ := seen
  obtain ⟨indexSynthetic, boundSynthetic, sourceSynthetic⟩ := synthetic
  obtain ⟨indexKind, boundKind, sourceKind⟩ := loop.kinds.array strategy
  have bounded := (state.memory.arrays array).bounded
  simp only [startLoop, strategy, bind_eq_ok] at started
  obtain ⟨stored, isStored, started⟩ := started
  have begins : code.Brings outside stream machine stream
      (context.Stands place set kept (.reference array :: stack) state) := .refl stands stream
  have stores := begins.storeKept executable.apart sourceSynthetic isStored sourceSeen
    sourceKind.symm
  cases comesBack : plan.continues with
  | true =>
      simp only [comesBack, if_true, bind_eq_ok] at started
      obtain ⟨bounded_, isBounded, isIndexed⟩ := started
      have measured : code.Brings outside stream machine (stored.emit .arrayLength)
          (context.Stands place (set.insert local_)
            (Function.update kept local_ (some (.reference array)))
            (.int (Int32.ofNat (state.memory.arrays array).length) :: stack) state) :=
        stores.operate rfl fun slots => rfl
      have bounds := measured.storeKept executable.apart boundSynthetic isBounded boundSeen
        boundKind.symm
      have zeroed : code.Brings outside stream machine (bounded_.emit (.intConst 0))
          (context.Stands place ((set.insert local_).insert bound)
            (Function.update (Function.update kept local_ (some (.reference array))) bound
              (some (.int (Int32.ofNat (state.memory.arrays array).length))))
            (.int (Int32.ofNat 0) :: stack) state) :=
        bounds.operate rfl fun slots => rfl
      have indexed := zeroed.storeKept executable.apart indexSynthetic isIndexed indexSeen
        indexKind.symm
      refine ⟨Function.update (Function.update (Function.update kept local_
        (some (.reference array))) bound
          (some (.int (Int32.ofNat (state.memory.arrays array).length)))) index
            (some (.int (Int32.ofNat 0))), fun id notSynthetic => ?_,
        .array strategy bounded ?_ (fun _ => ⟨?_, ?_⟩) (fun stays => ?_), ?_⟩
      · simp only [strategy, LoopStrategy.synthetics, List.mem_cons, List.not_mem_nil, or_false,
          not_or] at notSynthetic
        simp [notSynthetic]
      · simp [Ne.symm apart.1.2, Ne.symm apart.2.1]
      · simp [Ne.symm apart.1.1]
      · simp
      · cases comesBack.symm.trans stays
      · simp only [LoopPlan.startedWith, strategy, comesBack, if_true]
        exact indexed
  | false =>
      simp only [comesBack, Bool.false_eq_true, if_false, pure_eq_ok] at started
      subst started
      refine ⟨Function.update kept local_ (some (.reference array)), fun id notSynthetic => ?_,
        .array strategy bounded ?_ (fun back => ?_) (fun _ => rfl), ?_⟩
      · simp only [strategy, LoopStrategy.synthetics, List.mem_cons, List.not_mem_nil, or_false,
          not_or] at notSynthetic
        simp [notSynthetic]
      · simp
      · cases comesBack.symm.trans back
      · simp only [LoopPlan.startedWith, strategy, comesBack, Bool.false_eq_true, if_false]
        exact stores

/-- A loop over an iterable asks for an iterator and keeps it. -/
theorem brings_startIterator
    (executable : context.Executable strict)
    (loop : context.ExecutableLoop place plan)
    (notArray : plan.resolution.strategy.isArray = false)
    {iterable : Reference}
    {datum : Datum}
    {memory : Memory}
    (answered : outside.answer (.method "iterator"
      (context.table.methodDescriptor ⟨[], .named "Iterator"⟩) iterable []) state.memory =
        (datum, memory))
    (started : context.startLoop plan stream = .ok next)
    (stands : context.Stands place set kept (.reference iterable :: stack) state machine) :
    ∃ others, (∀ id ∉ plan.resolution.strategy.synthetics, others id = kept id) ∧
      plan.Keeps others 0 (.iterator datum.reference) ∧
      code.Brings outside stream machine next (context.Stands place (plan.startedWith set) others
        stack (state.withMemory memory)) := by
  have seen := loop.sees.synthetics
  have synthetic := loop.areSynthetic
  cases strategy : plan.resolution.strategy with
  | array index bound source =>
      simp [strategy, LoopStrategy.isArray] at notArray
  | rawIterable iterator receiver | genericIterable iterator receiver =>
      simp only [strategy, LoopStrategy.synthetics, List.forall_mem_cons, List.not_mem_nil,
        false_imp_iff, implies_true, and_true] at seen synthetic
      have isIterator : plan.resolution.strategy.synthetics = [iterator] := by
        simp only [strategy, LoopStrategy.synthetics]
      have iteratorKind := loop.kinds.iterator isIterator
      simp only [startLoop, strategy] at started
      have begins : code.Brings outside stream machine stream
          (context.Stands place set kept (.reference iterable :: stack) state) := .refl stands stream
      have notStatic : context.invokeKind receiver ≠ .static := invokeKind_ne_static receiver
      have asked : code.Brings outside stream machine _
          (context.Stands place set kept (.reference datum.reference :: stack)
            (state.withMemory memory)) :=
        brings_invokeBare
          ⟨context.table.referenceName receiver, "iterator",
            context.table.methodDescriptor ⟨[], .named "Iterator"⟩⟩
          notStatic executable.reads.iterator begins answered
      have stores := asked.storeKept executable.apart synthetic started seen iteratorKind.symm
      refine ⟨Function.update kept iterator (some (.reference datum.reference)),
        fun id notSynthetic => ?_, .iterator isIterator ?_, ?_⟩
      · simp only [LoopStrategy.synthetics, List.mem_singleton] at notSynthetic
        simp [notSynthetic]
      · simp
      · simp only [LoopPlan.startedWith, strategy]
        exact stores

/-- An iterator is asked for another element. -/
theorem decides_testIterator
    (executable : context.Executable strict)
    {iterator : LocalId}
    (isSynthetic : (context.localAt iterator).isSynthetic = true)
    (sees : context.scope.Sees place.block place.count iterator)
    (member : set.contains iterator = true)
    {reference : Reference}
    (isKept : kept iterator = some (.reference reference))
    {condition : Condition}
    {label : Label}
    (tested : context.testIterator iterator condition label stream = .ok next)
    (stands : context.Stands place set kept stack state machine)
    {wanted : Bool}
    (decides : ∀ value : Int32, condition.holds value 0 = ((value != 0) == wanted))
    (taken : Nat) :
    code.Decides outside stream machine next label
      (((LoopSource.iterator reference).test context.table outside state taken).1 == wanted)
      (context.Stands place set kept stack
        ((LoopSource.iterator reference).test context.table outside state taken).2) := by
  simp only [testIterator, bind_eq_ok, pure_eq_ok] at tested
  obtain ⟨loaded, isLoaded, rfl⟩ := tested
  have begins : code.Brings outside stream machine stream
      (context.Stands place set kept stack state) := .refl stands stream
  have loads := begins.loadKept isSynthetic isLoaded sees member isKept
  simp only [LoopSource.test]
  generalize answered : outside.answer (.method "hasNext"
    (context.table.methodDescriptor ⟨[], .boolean⟩) reference []) state.memory = answer
  obtain ⟨datum, memory⟩ := answer
  have asked : code.Brings outside stream machine
      (loaded.emit (context.iteratorCall "hasNext" .boolean))
      (context.Stands place set kept (.int datum.int :: stack) (state.withMemory memory)) :=
    brings_invokeBare
      ⟨context.table.internalName "Iterator", "hasNext",
        context.table.methodDescriptor ⟨[], .boolean⟩⟩
      (show InvokeKind.interface ≠ .static by decide) executable.reads.hasNext loads answered
  exact asked.branch rfl (fun _ => rfl) (decides datum.int)

/-- The test at the top of a loop leaves the loop if there is no element. -/
theorem decides_testAtTop
    (executable : context.Executable strict)
    (loop : context.ExecutableLoop place plan)
    (stays : plan.continues = false)
    {labels : LoopLabels}
    (isOpen : labels.test < stream.labels.size ∧ stream.offset? labels.test = none)
    (tested : context.testAtTop plan labels stream = .ok next)
    (keeps : plan.Keeps kept 0 source)
    (measured : ∀ {collection : Value} {kind : ValueKind} {length : Nat},
      source = .array collection kind length → state.length? collection = some length)
    (stands : context.Stands place (plan.startedWith set) kept (plan.operands source ++ stack) state
      machine) :
    code.Decides outside stream machine next labels.exit
      (!(source.test context.table outside state 0).1)
      (context.Stands place (plan.startedWith set) kept stack
        (source.test context.table outside state 0).2) := by
  have placed : code.Crosses outside stream machine (stream.place labels.test) machine :=
    (MethodCode.Crosses.refl code outside stream machine).place isOpen
  refine .ofCrosses placed ?_
  cases keeps with
  | @array index bound local_ array length strategy bounded =>
      simp only [testAtTop, strategy, bind_eq_ok, pure_eq_ok] at tested
      obtain ⟨found, rfl, rfl⟩ := tested
      have isLength := Option.some.inj (measured rfl)
      simp only [LoopPlan.operands, stays, Bool.false_eq_true, if_false, List.cons_append,
        List.nil_append] at stands
      have begins : code.Brings outside (stream.place labels.test) machine
          (stream.place labels.test) (context.Stands place (plan.startedWith set) kept
            (.reference array :: stack) state) := .refl stands _
      have asked : code.Brings outside (stream.place labels.test) machine
          ((stream.place labels.test).emit .arrayLength)
          (context.Stands place (plan.startedWith set) kept (.int (Int32.ofNat length) :: stack)
            state) :=
        begins.operate rfl fun slots => by rw [← isLength]; rfl
      refine (asked.branch rfl (fun _ => rfl) ?_).sameCode (CodeStream.markSource_same _ _ _)
      simp only [Instruction.jumps, Condition.holds, LoopSource.test, ofNat_beq_zero bounded]
  | @iterator iterator reference isIterator isKept =>
      have seen := loop.sees.synthetics
      have synthetic := loop.areSynthetic
      simp only [isIterator, List.mem_singleton, forall_eq] at seen synthetic
      cases strategy : plan.resolution.strategy with
      | array index bound source =>
          simp [strategy, LoopStrategy.synthetics] at isIterator
      | rawIterable other receiver | genericIterable other receiver =>
          obtain rfl : other = iterator := by
            simpa [strategy, LoopStrategy.synthetics] using isIterator
          simp only [testAtTop, strategy, bind_eq_ok, pure_eq_ok] at tested
          obtain ⟨found, isFound, rfl⟩ := tested
          have asked : code.Decides outside (stream.place labels.test) machine found labels.exit
              _ _ := decides_testIterator executable synthetic seen
                (by simp [LoopPlan.startedWith, strategy]) isKept isFound stands
                (fun value => by simp [Condition.holds, bne] : ∀ value : Int32,
                  Condition.eq.holds value 0 = ((value != 0) == false)) 0
          rw [beq_false] at asked
          exact asked.sameCode (CodeStream.markSource_same _ _ _)

/-- The way on to the test at the bottom of a loop, and the test. -/
theorem exists_moved
    (code : MethodCode)
    (outside : Outside)
    (set : VarSet)
    (source : LoopSource)
    (executable : context.Executable strict)
    (loop : context.ExecutableLoop place plan)
    (comesBack : plan.continues = true)
    (moves : plan.resolution.strategy.isArray = true →
      (!plan.hasEmptyAction || context.hasSlot plan.element) = true)
    {labels : LoopLabels}
    {label : Label}
    (tested : context.testAtBottom plan labels label stream = .ok next) :
    ∃ moved, CodeStream.Appends [] (stream.place label) moved ∧
      (∀ {kept : Nat → Option Word} {stack : List Word} {state : TreeState} {machine : Machine}
        {taken : Nat},
        plan.Keeps kept taken source →
        context.Stands place (plan.startedWith set) kept stack state machine →
        ∃ others, (∀ id ∉ plan.resolution.strategy.synthetics, others id = kept id) ∧
          plan.Keeps others (taken + 1) source ∧
          code.Brings outside (stream.place label) machine moved
            (context.Stands place (plan.startedWith set) others stack state)) ∧
      (∀ {kept : Nat → Option Word} {stack : List Word} {state : TreeState} {machine : Machine}
        {taken : Nat},
        plan.Keeps kept taken source →
        (source.isIterator = false → taken < 0x80000000) →
        context.Stands place (plan.startedWith set) kept stack state machine →
        code.Decides outside (moved.place labels.test) machine next labels.action
          (source.test context.table outside state taken).1
          (context.Stands place (plan.startedWith set) kept stack
            (source.test context.table outside state taken).2)) := by
  have seen := loop.sees.synthetics
  have synthetic := loop.areSynthetic
  have apart := loop.apart
  cases strategy : plan.resolution.strategy with
  | array index bound local_ =>
      simp only [strategy, LoopStrategy.synthetics, List.forall_mem_cons, List.not_mem_nil,
        false_imp_iff, implies_true, and_true] at seen synthetic
      simp only [strategy, LoopStrategy.synthetics, List.nodup_cons, List.mem_cons,
        List.not_mem_nil, or_false, not_or] at apart
      obtain ⟨indexSeen, boundSeen, -⟩ := seen
      obtain ⟨indexSynthetic, boundSynthetic, -⟩ := synthetic
      have indexKnown : (plan.startedWith set).contains index = true := by
        simp [LoopPlan.startedWith, strategy, comesBack]
      have boundKnown : (plan.startedWith set).contains bound = true := by
        simp [LoopPlan.startedWith, strategy, comesBack]
      obtain ⟨moved, indexed, bounded, isMoved, isIndexed, isBounded, rfl⟩ :=
        (testAtBottom_array_eq_ok strategy).mp tested
      rw [if_pos (moves (by rw [strategy]; rfl))] at isMoved
      refine ⟨moved, (CodeStream.Appends.refl _).increment isMoved, ?_, ?_⟩
      · intro kept stack state machine taken keeps stands
        cases keeps with
        | @array ownIndex ownBound source array length ownStrategy short isSource measured stays =>
            obtain ⟨rfl, rfl, rfl⟩ := LoopStrategy.array.inj (strategy.symm.trans ownStrategy)
            obtain ⟨isBound, isIndex⟩ := measured comesBack
            have begins : code.Brings outside (stream.place label) machine (stream.place label)
                (context.Stands place (plan.startedWith set) kept stack state) := .refl stands _
            have moves := begins.incrementKept executable.apart indexSynthetic isMoved indexSeen
              indexKnown isIndex
            rw [ofNat_add_one] at moves
            refine ⟨Function.update kept index (some (.int (Int32.ofNat (taken + 1)))),
              fun id notSynthetic => ?_, .array strategy short ?_ (fun _ => ⟨?_, ?_⟩) ?_, ?_⟩
            · simp only [LoopStrategy.synthetics, List.mem_cons, List.not_mem_nil, or_false,
                not_or] at notSynthetic
              simp [notSynthetic]
            · simpa [Ne.symm apart.1.2] using isSource
            · simpa [Ne.symm apart.1.1] using isBound
            · simp
            · intro stays
              cases comesBack.symm.trans stays
            · exact moves.imp fun at_ isThere => isThere.within (VarSet.within_insert _ _)
        | iterator isIterator =>
            simp [strategy, LoopStrategy.synthetics] at isIterator
      · intro kept stack state machine taken keeps few stands
        cases keeps with
        | @array ownIndex ownBound source array length ownStrategy short isSource measured stays =>
            obtain ⟨rfl, rfl, rfl⟩ := LoopStrategy.array.inj (strategy.symm.trans ownStrategy)
            obtain ⟨isBound, isIndex⟩ := measured comesBack
            have begins : code.Brings outside (moved.place labels.test) machine
                (moved.place labels.test)
                (context.Stands place (plan.startedWith set) kept stack state) := .refl stands _
            have loads := (begins.loadKept indexSynthetic isIndexed indexSeen indexKnown
              isIndex).loadKept boundSynthetic isBounded boundSeen boundKnown isBound
            refine (loads.branch rfl (fun _ => rfl) ?_).sameCode (CodeStream.markSource_same _ _ _)
            simp only [Instruction.jumps, Condition.holds, LoopSource.test,
              ofNat_lt_ofNat (few rfl) short]
        | iterator isIterator =>
            simp [strategy, LoopStrategy.synthetics] at isIterator
  | rawIterable iterator receiver | genericIterable iterator receiver =>
      simp only [strategy, LoopStrategy.synthetics, List.forall_mem_cons, List.not_mem_nil,
        false_imp_iff, implies_true, and_true] at seen synthetic
      simp only [testAtBottom, strategy, bind_eq_ok, pure_eq_ok] at tested
      obtain ⟨found, isFound, rfl⟩ := tested
      refine ⟨stream.place label, .refl _, ?_, ?_⟩
      · intro kept stack state machine taken keeps stands
        cases keeps with
        | array ownStrategy =>
            cases strategy.symm.trans ownStrategy
        | iterator isIterator isKept =>
            exact ⟨kept, fun _ _ => rfl, .iterator isIterator isKept, .refl stands _⟩
      · intro kept stack state machine taken keeps few stands
        cases keeps with
        | array ownStrategy =>
            cases strategy.symm.trans ownStrategy
        | @iterator other reference isIterator isKept =>
            obtain rfl : iterator = other := by
              simpa [strategy, LoopStrategy.synthetics] using isIterator
            have asked : code.Decides outside ((stream.place label).place labels.test) machine
                found labels.action _ _ := decides_testIterator executable synthetic seen
                  (by simp [LoopPlan.startedWith, strategy]) isKept isFound stands
                  (fun value => by simp [Condition.holds] : ∀ value : Int32,
                    Condition.ne.holds value 0 = ((value != 0) == true)) taken
            rw [beq_true] at asked
            exact asked.sameCode (CodeStream.markSource_same _ _ _)

/-- The variable of a loop is bound to an element. -/
theorem brings_bindElement
    (executable : context.Executable strict)
    (loop : context.ExecutableLoop place plan)
    {word : Word}
    (isKind : word.kind = CodeStream.kindOf context.scope plan.element)
    (bound : context.bindElement plan middle = .ok next)
    (brings : code.Brings outside stream machine middle
      (context.Stands place set kept (word :: stack) state)) :
    code.Brings outside stream machine next (context.Stands place (set.insert plan.element) kept
      stack (state.put plan.element (.word word))) := by
  simp only [bindElement, bind_eq_ok, pure_eq_ok] at bound
  obtain ⟨stored, isStored, rfl⟩ := bound
  have stores := brings.storeSource executable.apart loop.isSource isStored loop.sees.element isKind
  split
  · exact stores.sameCode (CodeStream.openAssigned_same _ _ _ _)
  · exact stores

/-- The index of a loop over an array that comes back exists in the code. -/
theorem hasSlot_index
    {index bound local_ : LocalId}
    (strategy : plan.resolution.strategy = .array index bound local_)
    (comesBack : plan.continues = true)
    (started : context.startLoop plan stream = .ok next) :
    context.hasSlot index = true := by
  simp only [startLoop, strategy, comesBack, if_true, bind_eq_ok] at started
  obtain ⟨stored, -, bounded, -, isIndexed⟩ := started
  obtain ⟨slot, isSlot, -⟩ := CodeStream.store_eq_ok.mp isIndexed
  rw [hasSlot, show (context.localAt index).slot = some slot from isSlot]
  rfl

/-- An array element is fetched. -/
theorem brings_fetchIndexed
    (loop : context.ExecutableLoop place plan)
    {earlier later : CodeStream}
    (started : context.startLoop plan earlier = .ok later)
    {index bound local_ : LocalId}
    (strategy : plan.resolution.strategy = .array index bound local_)
    {array : Reference}
    {length : Nat}
    (few : taken < 0x80000000)
    (keeps : plan.Keeps kept taken (.array (.word (.reference array))
      (.ofTy plan.resolution.elementType) length))
    (fetched : context.fetchIndexed plan index local_ stream = .ok next)
    (stands : context.Stands place (plan.startedWith set) kept stack state machine) :
    code.Brings outside stream machine next (context.Stands place (plan.startedWith set) kept
      (((state.memory.arrays array).element taken).word (.ofTy plan.resolution.elementType) :: stack)
      state) := by
  have seen := loop.sees.synthetics
  have synthetic := loop.areSynthetic
  simp only [strategy, LoopStrategy.synthetics, List.forall_mem_cons, List.not_mem_nil,
    false_imp_iff, implies_true, and_true] at seen synthetic
  cases keeps with
  | @array ownIndex ownBound source _ _ ownStrategy short isSource measured stays =>
      obtain ⟨rfl, rfl, rfl⟩ := LoopStrategy.array.inj (strategy.symm.trans ownStrategy)
      obtain ⟨loaded, indexed, isLoaded, isIndexed, rfl⟩ := fetchIndexed_eq_ok.mp fetched
      have begins : code.Brings outside stream machine stream
          (context.Stands place (plan.startedWith set) kept stack state) := .refl stands stream
      have sourceKnown : (plan.startedWith set).contains local_ = true := by
        simp only [LoopPlan.startedWith, strategy]
        split <;> simp
      have loads := begins.loadKept synthetic.2.2 isLoaded seen.2.2 sourceKnown isSource
      have onIndex : code.Brings outside stream machine indexed
          (context.Stands place (plan.startedWith set) kept
            (.int (Int32.ofNat taken) :: .reference array :: stack) state) := by
        cases comesBack : plan.continues with
        | true =>
            rw [if_pos (hasSlot_index strategy comesBack started)] at isIndexed
            exact loads.loadKept synthetic.1 isIndexed seen.1
              (by simp [LoopPlan.startedWith, strategy, comesBack]) (measured comesBack).2
        | false =>
            simp only [loop.index strategy comesBack, Bool.false_eq_true, if_false, pure_eq_ok]
              at isIndexed
            subst isIndexed
            rw [stays comesBack]
            exact loads.operate rfl fun slots => rfl
      rw [loop.kinds.conversion, Ty.convertElement_of_becomes loop.elementWord loop.declaredWord
        loop.becomes]
      refine onIndex.operate rfl fun slots => ?_
      simp only [Instruction.perform?, toNat_toInt_ofNat few, ArrayKind.valueKind_ofTy]
      rfl

/-- An element is fetched from an iterator. -/
theorem brings_fetchIterated
    (executable : context.Executable strict)
    (loop : context.ExecutableLoop place plan)
    {iterator : LocalId}
    (isIterator : plan.resolution.strategy.synthetics = [iterator])
    (member : set.contains iterator = true)
    {reference : Reference}
    (isKept : kept iterator = some (.reference reference))
    {datum : Datum}
    {memory : Memory}
    (answered : outside.answer (.method "next"
      (context.table.methodDescriptor ⟨[], .object⟩) reference []) state.memory = (datum, memory))
    (fetched : context.fetchIterated plan iterator stream = .ok next)
    (stands : context.Stands place set kept stack state machine) :
    code.Brings outside stream machine next (context.Stands place set kept
      (.reference datum.reference :: stack) (state.withMemory memory)) := by
  have seen := loop.sees.synthetics
  have synthetic := loop.areSynthetic
  simp only [isIterator, List.mem_singleton, forall_eq] at seen synthetic
  simp only [fetchIterated, bind_eq_ok, pure_eq_ok] at fetched
  obtain ⟨loaded, isLoaded, rfl⟩ := fetched
  have begins : code.Brings outside stream machine stream
      (context.Stands place set kept stack state) := .refl stands stream
  have loads := begins.loadKept synthetic isLoaded seen member isKept
  have handed : code.Brings outside stream machine
      (loaded.emit (context.iteratorCall "next" .object))
      (context.Stands place set kept (.reference datum.reference :: stack)
        (state.withMemory memory)) :=
    brings_invokeBare
      ⟨context.table.internalName "Iterator", "next",
        context.table.methodDescriptor ⟨[], .object⟩⟩
      (show InvokeKind.interface ≠ .static by decide) executable.reads.next loads answered
  split
  · exact handed
  · split
    · exact handed.operate rfl fun slots => rfl
    · rw [loop.kinds.conversion, Ty.convertElement_of_becomes loop.elementWord loop.declaredWord
        loop.becomes]
      exact handed.operate rfl fun slots => rfl

/-- The fetch of an element from an iterator moves the iterator on, and binds the
element if its variable exists in the code. -/
theorem fetchElement_iterator_eq_ok
    {iterator : LocalId}
    (isIterator : plan.resolution.strategy.synthetics = [iterator]) :
    context.fetchElement plan stream = .ok next ↔
      ∃ element, context.fetchIterated plan iterator stream = .ok element ∧
        (if context.hasSlot plan.element then context.bindElement plan element
          else pure (element.emit .pop)) = .ok next := by
  cases strategy : plan.resolution.strategy <;>
    simp [strategy, LoopStrategy.synthetics] at isIterator
  all_goals
    simp only [fetchElement, strategy, isIterator, bind_eq_ok]

/-- The fetch of an element takes what the tree takes and gives it to the variable,
whether the variable exists in the code or not. -/
theorem brings_fetchElement
    (executable : context.Executable strict)
    (loop : context.ExecutableLoop place plan)
    {earlier later : CodeStream}
    (started : context.startLoop plan earlier = .ok later)
    (few : source.isIterator = false → taken < 0x80000000)
    (keeps : plan.Keeps kept taken source)
    (fetched : context.fetchElement plan stream = .ok next)
    (stands : context.Stands place (plan.startedWith set) kept stack state machine) :
    ∃ value final, source.take? context.table outside state taken = some (value, final) ∧
      code.Brings outside stream machine next
        (context.Stands place ((plan.startedWith set).insert plan.element) kept stack
          (final.put plan.element value)) := by
  have isKind := loop.kind_element
  cases keeps with
  | @array index bound local_ array length strategy short isSource measured stays =>
      have ofKind : (((state.memory.arrays array).element taken).word
          (.ofTy plan.resolution.elementType)).kind =
            CodeStream.kindOf context.scope plan.element :=
        (Datum.kind_word (Ty.ofTy_eq_or_of_isWord loop.elementWord) _).trans isKind
      refine ⟨_, state, rfl, ?_⟩
      simp only [fetchElement, strategy] at fetched
      split at fetched
      · simp only [bind_eq_ok] at fetched
        obtain ⟨element, isElement, bound_⟩ := fetched
        exact brings_bindElement executable loop ofKind bound_
          (brings_fetchIndexed loop started strategy (few rfl)
            (.array strategy short isSource measured stays) isElement stands)
      · next noSlot =>
          rw [pure_eq_ok] at fetched
          subst fetched
          have isAbsent := stands.putAbsent loop.isSource loop.sees.element
            (by simpa using noSlot) (show (Value.word _).kind = _ from ofKind)
          exact .refl isAbsent stream
  | @iterator iterator reference isIterator isKept =>
      have notPrimitive := loop.handsOut (LoopStrategy.isArray_of_synthetics isIterator)
      have ofKind : ∀ reference, (Word.reference reference).kind =
          CodeStream.kindOf context.scope plan.element := fun reference => by
        rw [← isKind, Ty.ofTy_of_isWord loop.elementWord, notPrimitive]
        rfl
      generalize answered : outside.answer (.method "next"
        (context.table.methodDescriptor ⟨[], .object⟩) reference []) state.memory = answer
      obtain ⟨datum, memory⟩ := answer
      refine ⟨.word (.reference datum.reference), state.withMemory memory, ?_, ?_⟩
      · simp only [LoopSource.take?, answered]
      obtain ⟨element, isElement, fetched⟩ := (fetchElement_iterator_eq_ok isIterator).mp fetched
      have member : (plan.startedWith set).contains iterator = true := by
        rw [plan.startedWith_iterator isIterator]
        simp
      have handed : code.Brings outside stream machine element _ :=
        brings_fetchIterated executable loop isIterator member isKept answered isElement stands
      split at fetched
      · exact brings_bindElement executable loop (ofKind _) fetched handed
      · next noSlot =>
          rw [pure_eq_ok] at fetched
          subst fetched
          have dropped : code.Brings outside stream machine (element.emit .pop)
              (context.Stands place (plan.startedWith set) kept stack (state.withMemory memory)) :=
            handed.operate rfl fun slots => rfl
          exact dropped.imp fun at_ isThere => isThere.putAbsent loop.isSource loop.sees.element
            (by simpa using noSlot)
            (show (Value.word (.reference datum.reference)).kind = _ from ofKind datum.reference)

end CodeContext

end LoopLowering
