import LoopLowering.Proofs.Code.LoopTurns
import LoopLowering.Proofs.Execution.ExpressionRuns
import LoopLowering.Proofs.Execution.Iterations

namespace LoopLowering

/-!
# Loops

A loop evaluates its collection and starts, goes round, and is left at one of its exits. If
it does nothing with its elements, code generation leaves the rounds out: they only change
the variable of the loop, which is not seen any more.
-/

/-- The code that a method is completed from may be told by the same code. -/
theorem MethodCode.Completes.ofSameCode
    {code : MethodCode}
    {stream next : CodeStream}
    (completes : code.Completes next)
    (same : stream.SameCode next) :
    code.Completes stream :=
  completes.earlier ((CodeStream.Appends.refl stream).sameCode same).extends_

/-- A reference to an array, in memory or unseen, has a length. -/
theorem TreeState.exists_length?
    (state : TreeState)
    {value : Value}
    (isReference : value.kind = .reference) :
    ∃ length, state.length? value = some length := by
  cases value with
  | word word =>
      obtain ⟨reference, rfl⟩ := Word.exists_reference isReference
      exact ⟨_, rfl⟩
  | unseen number =>
      exact ⟨_, rfl⟩

namespace CodeContext

variable
  {strict : Bool}
  {context : CodeContext}
  {code : MethodCode}
  {outside : Outside}
  {rounds : Nat}
  {plan : LoopPlan}
  {place : Place}
  {set : VarSet}
  {kept : Nat → Option Word}
  {stack : List Word}
  {state : TreeState}
  {machine : Machine}
  {stream next : CodeStream}

/-- A loop over an array takes its elements, and a loop over anything else does not
iterate over an array. -/
theorem Iterates.overArray
    {declared collection : Ty}
    {block first : Nat}
    {resolution : LoopResolution}
    (iterates : context.Iterates declared collection block first resolution) :
    if resolution.strategy.isArray then collection = .array resolution.elementType
    else ∀ component, collection ≠ .array component := by
  obtain ⟨shape, shaped, isStrategy, -⟩ := iterates.shaped
  rw [isStrategy]
  cases shape with
  | array =>
      cases collection with
      | array component =>
          obtain ⟨-, isElement⟩ := Prod.mk.inj (Except.ok.inj shaped)
          simp [LoopShape.strategyFrom, LoopStrategy.isArray, isElement]
      | _ =>
          simp only [ClassTable.loopShape] at shaped
          split at shaped
          · cases shaped
          · split at shaped <;> simp at shaped
  | rawIterable receiver | genericIterable receiver =>
      simp only [LoopShape.strategyFrom, LoopStrategy.isArray, Bool.false_eq_true, if_false]
      rintro component rfl
      simp [ClassTable.loopShape] at shaped

/-- The collection of a loop is a reference. -/
theorem Iterates.isReference
    {collection : Expr}
    {declared ty : Ty}
    {block first : Nat}
    {resolution : LoopResolution}
    (iterates : context.Iterates declared ty block first resolution)
    (sound : context.Sound strict)
    (counted : place.count ≤ context.scope.locals.size)
    (typed : context.HasType strict place collection ty) :
    ty ≠ .void ∧ ValueKind.ofTy ty = .reference := by
  obtain ⟨shape, shaped, -, -⟩ := iterates.shaped
  have iterated := ClassTable.isIterated_loopShape sound.table (typed.isResult sound counted) shaped
  exact ⟨Ty.ne_void_of_isValue iterated.isValue_collection,
    ValueKind.ofTy_eq_reference (ClassTable.primitive?_of_loopShape shaped)⟩

/-- The locals that a loop introduces differ. -/
theorem Iterates.nodup_synthetics
    {declared collection : Ty}
    {block first : Nat}
    {resolution : LoopResolution}
    (iterates : context.Iterates declared collection block first resolution) :
    resolution.strategy.synthetics.Nodup := by
  obtain ⟨shape, -, isStrategy, -⟩ := iterates.shaped
  rw [isStrategy]
  cases shape <;> simp [LoopShape.strategyFrom, LoopStrategy.synthetics]

/-- What a loop takes its elements from, given its collection, and the state in which it
takes them. -/
inductive LoopBegins
    (context : CodeContext)
    (outside : Outside)
    (ty : Ty)
    (collection : Reference)
    (state : TreeState) :
    LoopSource → TreeState → Prop where
  | array {component : Ty} :
      ty = .array component →
      LoopBegins context outside ty collection state
        (.array (.word (.reference collection)) (.ofTy component)
          (state.memory.arrays collection).length)
        state
  | iterator {datum : Datum} {memory : Memory} :
      (∀ component, ty ≠ .array component) →
      outside.answer (.method "iterator"
        (context.table.methodDescriptor ⟨[], .named "Iterator"⟩) collection []) state.memory =
          (datum, memory) →
      LoopBegins context outside ty collection state (.iterator datum.reference)
        (state.withMemory memory)

/-- A loop is executed where its collection is evaluated and the loop goes round. -/
theorem LoopBegins.executes
    {span : Span}
    {element : LocalDecl}
    {collection : Expr}
    {action : Option Stmt}
    {facts : LoopFacts}
    {label : Option String}
    {id : Nat}
    {reference : Reference}
    {between begun final : TreeState}
    {source : LoopSource}
    {ending : Ending}
    (begins : context.LoopBegins outside (context.exprType collection) reference between source
      begun)
    (binding : element.binding = some id)
    (evaluates : context.Evaluates outside state collection (.word (.reference reference)) between)
    (loops : context.Loops outside rounds begun label id source action 0 ending final) :
    context.Executes outside rounds state label (.forEach span element collection action facts)
      ending final := by
  cases begins with
  | array isArray =>
      exact .overArray binding isArray evaluates rfl loops
  | iterator notArray answered =>
      exact .overIterable binding notArray evaluates answered loops

/-- A loop knows the length of an array that it iterates over. -/
theorem LoopBegins.length?_eq
    {ty : Ty}
    {reference : Reference}
    {begun : TreeState}
    {source : LoopSource}
    (begins : context.LoopBegins outside ty reference state source begun)
    {collection : Value}
    {kind : ValueKind}
    {length : Nat}
    (isArray : source = .array collection kind length) :
    begun.length? collection = some length := by
  cases begins with
  | array =>
      obtain ⟨rfl, -, rfl⟩ := LoopSource.array.inj isArray
      rfl
  | iterator =>
      cases isArray

/-- A loop starts with its collection on the stack and keeps what it takes its elements
from. -/
theorem brings_startLoop
    (code : MethodCode)
    (outside : Outside)
    (executable : context.Executable strict)
    (loop : context.ExecutableLoop place plan)
    {declared ty : Ty}
    {block first : Nat}
    (iterates : context.Iterates declared ty block first plan.resolution)
    {collection : Reference}
    (started : context.startLoop plan stream = .ok next)
    (stands : context.Stands place set kept (.reference collection :: stack) state machine) :
    ∃ source begun others,
      context.LoopBegins outside ty collection state source begun ∧
      (∀ id ∉ plan.resolution.strategy.synthetics, others id = kept id) ∧
      plan.Keeps others 0 source ∧
      code.Brings outside stream machine next (context.Stands place (plan.startedWith set) others
        (plan.operands source ++ stack) begun) := by
  have overArray := iterates.overArray
  cases isArray : plan.resolution.strategy.isArray with
  | true =>
      rw [isArray, if_pos rfl] at overArray
      cases strategy : plan.resolution.strategy with
      | array index bound source =>
          obtain ⟨others, apart, keeps, brings⟩ :=
            brings_startArray executable loop strategy started stands
          exact ⟨_, state, others, .array overArray, strategy ▸ apart, keeps, brings⟩
      | rawIterable | genericIterable =>
          simp [strategy, LoopStrategy.isArray] at isArray
  | false =>
      simp only [isArray, Bool.false_eq_true, if_false] at overArray
      generalize answered : outside.answer (.method "iterator"
        (context.table.methodDescriptor ⟨[], .named "Iterator"⟩) collection []) state.memory =
          answer
      obtain ⟨datum, memory⟩ := answer
      obtain ⟨others, apart, keeps, brings⟩ :=
        brings_startIterator executable loop isArray answered started stands
      exact ⟨_, _, others, .iterator overArray answered, apart, keeps, brings⟩

/-- A loop over an array with an action that does nothing only changes its variable. -/
theorem loops_idly
    {label : Option String}
    {element : Nat}
    {action : Option Stmt}
    (idles : ∀ state, context.ExecutesIfAny outside rounds state action .completes state)
    {array : Value}
    {kind : ValueKind}
    {length : Nat} :
    ∀ (left : Nat) {taken : Nat} {state : TreeState},
      taken + left = length →
      state.length? array = some length →
      ∃ final,
        context.Loops outside rounds state label element (.array array kind length) action taken
          .completes final ∧
        final.memory = state.memory ∧ ∀ id ≠ element, final.locals id = state.locals id := by
  intro left
  induction left with
  | zero =>
      intro taken state isLast isLength
      obtain rfl : taken = length := isLast
      exact ⟨state, .exhausted (fun isIterator => by cases isIterator) (by simp [LoopSource.test]),
        rfl, fun _ _ => rfl⟩
  | succ left inductionHypothesis =>
      intro taken state isLater isLength
      have before : taken < length := by omega
      have tested : (LoopSource.array array kind length).test context.table outside state taken =
          (true, state) := by
        simp [LoopSource.test, before]
      obtain ⟨value, isValue⟩ : ∃ value, state.element? kind taken array = some value := by
        cases array with
        | word word =>
            cases word with
            | int number => cases isLength
            | reference reference => exact ⟨_, rfl⟩
        | unseen number =>
            obtain rfl := Option.some.inj isLength
            exact ⟨_, List.getElem?_eq_getElem before⟩
      have took : (LoopSource.array array kind length).take? context.table outside state taken =
          some (value, state) := by
        simp [LoopSource.take?, isValue]
      have sameLength : (state.put element value).length? array = some length := by
        cases array <;> exact isLength
      obtain ⟨final, loops, sameMemory, sameLocals⟩ :=
        inductionHypothesis (show taken + 1 + left = length by omega) sameLength
      refine ⟨final, .resumes (fun isIterator => by cases isIterator) tested took (idles _) rfl loops,
        sameMemory, fun id different => ?_⟩
      rw [sameLocals id different]
      simp [TreeState.put, different]

section Heads

variable
  {element : LocalDecl}
  {collection : Expr}
  {facts : LoopFacts}
  {outer first inner total : Nat}
  {resolution : LoopResolution}
  {exit : FlowExit}

/-- A loop with a resolved head can be executed if its elements are not boxed. -/
theorem LoopHead.executableLoop
    (executable : context.Executable false)
    (head : context.LoopHead false element collection facts outer first inner resolution)
    (plain : context.PlainHead (element, facts))
    (unboxed : context.UnboxedElements element facts = true)
    (isResolution : plan.resolution = resolution)
    (isElement : plan.element = first)
    (continues : plan.continues = facts.continues) :
    context.ExecutableLoop ⟨inner, first + 1 + resolution.strategy.synthetics.length⟩ plan := by
  obtain ⟨ty, -, iterates⟩ := head.iterated
  simp only [UnboxedElements, head.classification, head.binding, boundType, Bool.and_eq_true,
    Bool.or_eq_true, Bool.not_eq_true'] at unboxed
  obtain ⟨⟨elementWord, becomes⟩, handsOut⟩ := unboxed
  have sees := Ledger.seesLoop executable.sound head isResolution isElement
  have kinds := head.suitsKinds executable.sound isResolution isElement
  subst isResolution isElement
  exact {
    sees := sees
    kinds := kinds
    isSource := head.declares.isSource
    areSynthetic := fun id member => by
      obtain ⟨-, -, entry, introduces⟩ := iterates.introduces id member
      exact introduces.isSynthetic
    apart := iterates.nodup_synthetics
    elementWord := elementWord
    declaredWord := executable.words.locals _ head.declares.known
    becomes := becomes
    handsOut := fun notArray => handsOut.resolve_left (by simp [notArray])
    index := fun strategy stays =>
      plain.index head.classification strategy (continues.symm.trans stays)
  }

/-- A machine that stands in the scope of a loop stands outside, where the variable of the
loop is not seen, whatever its value is. -/
theorem Stands.exitLoop
    {count : Nat}
    (stands : context.Stands ⟨inner, count⟩ set kept stack state machine)
    (wellFormed : context.scope.WellFormed)
    (head : context.LoopHead strict element collection facts outer first inner resolution)
    (counted : count ≤ total)
    (declared : first < total)
    {entered : VarSet}
    (within : entered.Within set)
    (admits : exit.Admits (entered.insert first))
    {final : TreeState}
    (sameLocals : ∀ id ≠ first, final.locals id = state.locals id)
    (sameMemory : final.memory = state.memory) :
    context.StandsAt ⟨outer, total⟩ exit first kept stack final machine := by
  obtain ⟨needed, isExit, needs⟩ := admits
  have around : outer ∈ context.scope.enclosing inner := by
    rw [wellFormed.enclosing_eq inner, head.opens.parent]
    exact List.mem_cons_of_mem _ (wellFormed.mem_enclosing_self outer)
  have notSeen : (context.localAt first).scope ∉ context.scope.enclosing outer := by
    intro isAround
    rw [head.declares.home] at isAround
    exact absurd (wellFormed.parentOlder head.opens.parent)
      (Nat.not_lt.mpr (wellFormed.le_of_mem_enclosing isAround))
  refine ⟨needed, kept, isExit, fun _ _ => rfl, ?_, stands.operands,
    stands.memory.trans sameMemory.symm⟩
  intro id member
  by_cases isElement : id = first
  · subst isElement
    exact ⟨declared, fun isAround => absurd isAround notSeen⟩
  · have known : set.contains id = true := within id (by
      simpa [Ne.symm isElement] using needs id member)
    obtain ⟨isCounted, held⟩ := stands.holds id known
    refine ⟨Nat.lt_of_lt_of_le isCounted counted, fun isAround => ?_⟩
    have sameValue : context.valuesWith kept final id = context.valuesWith kept state id := by
      simp [valuesWith, sameLocals id isElement]
    rw [sameValue]
    exact held (wellFormed.mem_enclosing_trans around isAround)

variable
  {frames : List JumpFrame}
  {targets : List JumpTarget}
  {action : Option Stmt}
  {label : Option String}
  {before : VarSet}

/-- An action that does nothing is executed in place. -/
theorem executes_of_isEmptyAction
    (isEmpty : Stmt.isEmptyAction action = true)
    (state : TreeState) :
    context.ExecutesIfAny outside rounds state action .completes state := by
  cases action with
  | none =>
      exact .none
  | some stmt =>
      cases stmt with
      | empty span =>
          exact .some .empty
      | block span stmts facts =>
          cases stmts with
          | nil =>
              exact .some (.block .nil)
          | cons first rest =>
              simp [Stmt.isEmptyAction, Stmt.isEmptyBlock, Stmt.isEmptyStmt] at isEmpty
      | _ =>
          simp [Stmt.isEmptyAction, Stmt.isEmptyBlock, Stmt.isEmptyStmt] at isEmpty

/-- The collection of a loop is evaluated in the scope of the loop. -/
theorem Stands.enterLoop
    (stands : context.Stands ⟨outer, first⟩ before kept stack state machine)
    (wellFormed : context.scope.WellFormed)
    (head : context.LoopHead strict element collection facts outer first inner resolution) :
    context.Stands ⟨inner, first + 1⟩ before kept stack state machine :=
  ⟨(stands.holds.enter wellFormed head.opens).later (Nat.le_succ first), stands.operands,
    stands.memory⟩

/-- A loop of which only the collection is evaluated goes through its elements in the tree. -/
theorem arrives_idleLoop
    (executable : context.Executable false)
    (head : context.LoopHead false element collection facts outer first inner resolution)
    (plain : context.PlainHead (element, facts))
    (unboxed : context.Unboxed collection = true)
    (unreserved : collection.isUnreserved = true)
    (reads : collection.ReadsAssigned (element.definite before))
    (isEmpty : Stmt.isEmptyAction action = true)
    (isArray : resolution.strategy.isArray = true)
    (counted : first < total)
    (admits : exit.Admits (element.enteredWith collection before))
    {span : Span}
    (pushed : context.pushExpr collection false stream = .ok next)
    (completes : code.Completes next)
    (goesOn : stream.isTerminated = false)
    (stands : context.Stands ⟨outer, first⟩ before kept stack state machine) :
    ∃ final,
      context.Executes outside rounds state label (.forEach span element collection action facts)
        .completes final ∧
      context.Arrives code outside rounds (stream.position, machine) ⟨outer, total⟩ first kept
        stack frames targets next exit .completes final := by
  have wellFormed := executable.sound.wellFormed
  have noInitial := plain.definite_eq before
  obtain ⟨ty, typed, iterates⟩ := head.iterated
  have overArray := iterates.overArray
  rw [isArray, if_pos rfl] at overArray
  rw [noInitial] at reads
  simp only [LocalDecl.enteredWith, noInitial, head.binding, VarSet.insertBinding] at admits
  obtain ⟨words, between, ⟨value, evaluates, leaves⟩, at_, isThere, crosses⟩ :=
    computes_pushExpr executable (Nat.succ_le_of_lt head.declares.known) false typed unboxed
      unreserved reads pushed (stands.enterLoop wellFormed head)
  obtain rfl := leaves.eq_nil
  obtain ⟨length, isLength⟩ : ∃ length, between.length? value = some length :=
    between.exists_length? (by rw [leaves.kind_eq (by simp [overArray]), overArray]; rfl)
  obtain ⟨final, loops, sameMemory, sameLocals⟩ :=
    loops_idly (executes_of_isEmptyAction isEmpty) length (Nat.zero_add length) isLength
  have isType := (typed.exprType executable.words).trans overArray
  exact ⟨final, .overArray head.binding isType evaluates isLength loops,
    .completes (crosses.goesOn goesOn)
      (isThere.exitLoop wellFormed head counted counted (.refl _) admits sameLocals sameMemory)
      (crosses.goes completes)⟩

/-- A loop evaluates its collection, starts and goes round, if its body does what its action
does. -/
theorem arrives_busyLoop
    {leads : FlowExit → Label → Prop}
    {body : JumpTarget → CodeStep}
    (executable : context.Executable false)
    (head : context.LoopHead false element collection facts outer first inner resolution)
    (plain : context.PlainHead (element, facts))
    (unboxedElements : context.UnboxedElements element facts = true)
    (unboxed : context.Unboxed collection = true)
    (unreserved : collection.isUnreserved = true)
    (reads : collection.ReadsAssigned (element.definite before))
    (counted : first + 1 + resolution.strategy.synthetics.length ≤ total)
    (admits : exit.Admits (element.enteredWith collection before))
    (isResolution : plan.resolution = resolution)
    (isElement : plan.element = first)
    (continues : plan.continues = facts.continues)
    (busy : context.isIdle plan = false)
    (iteration : context.Iteration plan collection body stream next)
    (complete : ∀ target, (body target).Appends)
    (completes : code.Completes next)
    (matches_ : JumpFrame.Matches leads frames targets)
    (acts : iteration.Acts code outside rounds inner
      (first + 1 + resolution.strategy.synthetics.length) total (collection.definite before) stack
      frames targets exit action)
    {span : Span}
    (stands : context.Stands ⟨outer, first⟩ before kept stack state machine) :
    ∃ ending final,
      context.Executes outside rounds state (JumpTarget.loopLabel? targets)
        (.forEach span element collection action facts) ending final ∧
      context.Arrives code outside rounds (stream.position, machine) ⟨outer, total⟩ first kept
        stack frames targets next exit ending final := by
  have wellFormed := executable.sound.wellFormed
  have noInitial := plain.definite_eq before
  have loop := head.executableLoop executable plain unboxedElements isResolution isElement continues
  obtain ⟨ty, typed, iterates⟩ := head.iterated
  rw [noInitial] at reads
  simp only [LocalDecl.enteredWith, noInitial, head.binding, VarSet.insertBinding] at admits
  have isType := typed.exprType executable.words
  subst isResolution isElement
  have evaluable := Nat.succ_le_of_lt head.declares.known
  obtain ⟨notVoid, isReference⟩ := iterates.isReference executable.sound evaluable typed
  obtain ⟨word, between, evaluates, isKind, isPushed⟩ := Computes.exists_word
    (computes_pushExpr executable evaluable true typed unboxed unreserved reads) notVoid
      iteration.isPushed (stands.enterLoop wellFormed head)
  obtain ⟨reference, rfl⟩ := Word.exists_reference (isKind.trans isReference)
  obtain ⟨at_, isThere, crosses⟩ : code.Brings outside stream machine iteration.pushed _ := isPushed
  have inScope : context.Stands ⟨inner, plan.element + 1 +
      plan.resolution.strategy.synthetics.length⟩ (collection.definite before) kept
        (.reference reference :: stack) between at_ :=
    ⟨isThere.holds.later (Nat.le_add_right _ _), isThere.operands, isThere.memory⟩
  obtain ⟨source, begun, others, begins, apart, keeps, started⟩ :=
    brings_startLoop code outside executable loop iterates iteration.isStarted inScope
  obtain ⟨startedAt, isStarted, starts⟩ := started
  have introduced : ∀ id ∈ plan.resolution.strategy.synthetics, plan.element ≤ id ∧
      id < plan.element + 1 + plan.resolution.strategy.synthetics.length := by
    intro id member
    obtain ⟨isLater, isWithin, -⟩ := iterates.introduces id member
    exact ⟨Nat.le_of_succ_le isLater, isWithin⟩
  obtain ⟨ending, final, loops, arrives⟩ := acts.arrives executable loop complete completes matches_
    busy (Nat.le_trans (Nat.le_succ _) (Nat.le_add_right _ _)) introduced
    (show outer ∈ context.scope.enclosing inner by
      rw [wellFormed.enclosing_eq inner, head.opens.parent]
      exact List.mem_cons_of_mem _ (wellFormed.mem_enclosing_self outer))
    (Nat.le_refl total)
    (fun stands => stands.exitLoop wellFormed head counted (Nat.lt_of_lt_of_le (by omega) counted)
      (plan.within_startedWith _) admits (fun _ _ => rfl) rfl)
    keeps begins.length?_eq isStarted
  have unchanged : ∀ id < plan.element, others id = kept id := fun id isEarlier =>
    apart id fun member => Nat.not_le.mpr isEarlier (introduced id member).1
  have starting := crosses.trans starts
  refine ⟨ending, final, LoopBegins.executes (isType ▸ begins) head.binding evaluates loops,
    (arrives.keep (Nat.le_refl _) unchanged).ofGoes (starting.goes (completes.earlier
      (iteration.appends_entered.extends_.trans (iteration.extends_entered complete))))⟩

/-- A loop does what its tree does, if its action does. -/
theorem arrives_pushLoop
    {leads : FlowExit → Label → Prop}
    {span : Span}
    {scope : ScopeId}
    {pushAction : JumpTarget → ScopeId → CodeStep}
    (executable : context.Executable false)
    (head : context.LoopHead false element collection facts outer first inner resolution)
    (enters : context.EntersLoop element collection action facts before)
    (plain : context.PlainHead (element, facts))
    (unboxedElements : context.UnboxedElements element facts = true)
    (unboxed : context.Unboxed collection = true)
    (unreserved : collection.isUnreserved = true)
    (counted : first + 1 + resolution.strategy.synthetics.length ≤ total)
    (admits : exit.Admits (element.enteredWith collection before))
    (complete : ∀ target inner, (pushAction target inner).Appends)
    (looped : context.pushLoop span element collection action facts scope pushAction stream =
      .ok next)
    (completes : code.Completes next)
    (goesOn : stream.isTerminated = false)
    (matches_ : JumpFrame.Matches leads frames targets)
    (passes : Stmt.isEmptyAction action = true → facts.continues = true)
    (reached : Stmt.isEmptyAction action = false → facts.actionReachable = true)
    (runs : Stmt.isEmptyAction action = false →
      ∀ {entered : VarSet} {onBreak : Label} {onContinue : Option Label} {scope : ScopeId}
        {fetched ran : CodeStream} {kept : Nat → Option Word} {state : TreeState}
        {machine : Machine},
        (element.enteredWith collection before).Within entered →
        pushAction (.loop onBreak onContinue) scope fetched = .ok ran →
        code.Completes ran →
        fetched.isTerminated = false →
        (∃ offset, code.labelPosition? onBreak = some offset) →
        (∀ label, onContinue = some label → ∃ offset, code.labelPosition? label = some offset) →
        context.Stands ⟨inner, first + 1 + resolution.strategy.synthetics.length⟩ entered kept stack
          state machine →
        ∃ ending final,
          context.ExecutesIfAny outside rounds state action ending final ∧
          context.Arrives code outside rounds (fetched.position, machine) ⟨inner, total⟩
            (first + 1 + resolution.strategy.synthetics.length) kept stack
            (.loop exit (facts.again entered) :: frames) (.loop onBreak onContinue :: targets) ran
            (facts.again entered) ending final)
    (stands : context.Stands ⟨outer, first⟩ before kept stack state machine) :
    ∃ ending final,
      context.Executes outside rounds state (JumpTarget.loopLabel? targets)
        (.forEach span element collection action facts) ending final ∧
      context.Arrives code outside rounds (stream.position, machine) ⟨outer, total⟩ first kept
        stack frames targets next exit ending final := by
  obtain ⟨plan, plans, isResolution, isElement⟩ := head.exists_plan? action scope
  obtain ⟨isDead, continues⟩ := isIdle_of_plan? plans
  have isEmptyPlan := hasEmptyAction_of_plan? plans
  have declared : first < total := by omega
  rcases dead_or_iterates plans enters.reachable looped with
    ⟨idle, ran, isRan, same⟩ | ⟨busy, left, same, ⟨iteration⟩⟩
  · simp only [isIdle, Bool.and_eq_true] at idle
    obtain ⟨⟨isEmpty, -⟩, isArray⟩ := idle
    obtain ⟨final, executes, arrives⟩ := arrives_idleLoop executable head plain unboxed unreserved
      enters.collectionReads (isEmptyPlan ▸ isEmpty) (isResolution ▸ isArray) declared admits isRan
      (completes.ofSameCode same) goesOn stands
    exact ⟨.completes, final, executes, arrives.sameCode same⟩
  · have leftCompletes := completes.ofSameCode same
    have completeBody : ∀ target : JumpTarget, CodeStep.Appends
        (if !Stmt.isEmptyAction action && facts.actionReachable then pushAction target plan.scope
          else .ok) := by
      intro target
      split
      · exact complete _ _
      · intro stream after isSame
        exact Except.ok.inj isSame ▸ .refl _
    have acts : iteration.Acts code outside rounds inner
        (first + 1 + resolution.strategy.synthetics.length) total (collection.definite before) stack
        frames targets exit action := by
      have isRan := iteration.isRan
      rcases Bool.eq_false_or_eq_true (Stmt.isEmptyAction action) with isEmpty | isFull
      · simp only [isEmpty, Bool.not_true, Bool.false_and, Bool.false_eq_true, if_false,
          Except.ok.injEq] at isRan
        exact .ofEmpty isRan.symm (continues.trans (passes isEmpty))
          (executes_of_isEmptyAction isEmpty) counted
      · intro fetchedGoesOn kept state machine stands
        simp only [isFull, reached isFull, Bool.not_false, Bool.and_self, if_true] at isRan
        have sameAgain : plan.again (collection.definite before) =
            facts.again ((plan.startedWith (collection.definite before)).insert plan.element) := by
          rw [LoopPlan.again, LoopFacts.again, continues]
        have entersWith : (element.enteredWith collection before).Within
            ((plan.startedWith (collection.definite before)).insert plan.element) := by
          simp only [LocalDecl.enteredWith, head.binding, plain.definite_eq before, isElement]
          exact (plan.within_startedWith _).insertBinding (some first)
        obtain ⟨isExit, -, -⟩ := iteration.labelPosition_exit completeBody leftCompletes
        rw [sameAgain]
        exact runs isFull entersWith isRan
          (leftCompletes.earlier (iteration.extends_ran completeBody)) fetchedGoesOn ⟨_, isExit⟩
          (fun label isNext => ⟨_, iteration.labelPosition_next completeBody leftCompletes isNext⟩)
          stands
    obtain ⟨ending, final, executes, arrives⟩ := arrives_busyLoop executable head plain
      unboxedElements unboxed unreserved enters.collectionReads counted admits isResolution isElement
      continues busy iteration completeBody leftCompletes matches_ acts stands
    exact ⟨ending, final, executes, arrives.sameCode same⟩

end Heads

end CodeContext

end LoopLowering
