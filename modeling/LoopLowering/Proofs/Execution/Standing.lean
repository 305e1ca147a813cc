import LoopLowering.Proofs.Code.SourceNames
import LoopLowering.Proofs.Execution.Crossings
import LoopLowering.Proofs.Execution.Trees
import LoopLowering.Proofs.Execution.Operands
import LoopLowering.Proofs.Machine.BalancedLoops
import LoopLowering.Proofs.Machine.StoredSlots

namespace LoopLowering

/-!
# Frames that hold the values of locals

What the frame of a machine has to do with the execution of a tree. At a place in
the source, every local that is assigned and seen has a value of its kind, and if
it exists in the code, its slot holds the value. The locals that loops introduce
have no value in the tree; what they hold is kept apart.
-/

namespace CodeContext

/-- At a place where some locals are assigned, those that are seen have values, and
their slots hold them. -/
def Holds
    (context : CodeContext)
    (place : Place)
    (set : VarSet)
    (values : Nat → Option Value)
    (slots : UInt16 → Option Word) :
    Prop :=
  ∀ id : Nat, set.contains id = true →
    id < place.count ∧
      ((context.localAt id).scope ∈ context.scope.enclosing place.block →
        ∃ value, values id = some value ∧
          value.kind = CodeStream.kindOf context.scope id ∧
          ∀ slot, (context.localAt id).slot = some slot →
            ∃ word, value = .word word ∧ slots slot = some word)

/-- The values of locals: those of the tree, and those kept of the locals that
loops introduce. -/
def valuesWith
    (context : CodeContext)
    (kept : Nat → Option Word)
    (state : TreeState) :
    Nat → Option Value :=
  fun id => if (context.localAt id).isSynthetic then (kept id).map .word else state.locals id

variable
  {context : CodeContext}
  {place : Place}
  {set : VarSet}
  {values : Nat → Option Value}
  {slots : UInt16 → Option Word}

/-- The values of the locals of the source are those of the tree. -/
theorem valuesWith_source
    {id : Nat}
    (isSource : (context.localAt id).isSynthetic = false)
    (kept : Nat → Option Word)
    (state : TreeState) :
    context.valuesWith kept state id = state.locals id := by
  simp [valuesWith, isSource]

/-- The values of the locals of loops are those that are kept. -/
theorem valuesWith_synthetic
    {id : Nat}
    (isSynthetic : (context.localAt id).isSynthetic = true)
    (kept : Nat → Option Word)
    (state : TreeState) :
    context.valuesWith kept state id = (kept id).map .word := by
  simp [valuesWith, isSynthetic]

/-- A local of the source gets a value. -/
theorem valuesWith_put
    {id : Nat}
    (isSource : (context.localAt id).isSynthetic = false)
    (kept : Nat → Option Word)
    (state : TreeState)
    (value : Value) :
    context.valuesWith kept (state.put id value) =
      Function.update (context.valuesWith kept state) id (some value) := by
  funext other
  by_cases same : other = id
  · subst same
    simp [valuesWith, TreeState.put, isSource]
  · simp [valuesWith, TreeState.put, same]

/-- A local of a loop gets a value. -/
theorem valuesWith_keep
    {id : Nat}
    (isSynthetic : (context.localAt id).isSynthetic = true)
    (kept : Nat → Option Word)
    (state : TreeState)
    (word : Word) :
    context.valuesWith (Function.update kept id (some word)) state =
      Function.update (context.valuesWith kept state) id (some (.word word)) := by
  funext other
  by_cases same : other = id
  · subst same
    simp [valuesWith, isSynthetic]
  · simp [valuesWith, same]

namespace Holds

theorem congr
    (holds : context.Holds place set values slots)
    {others : Nat → Option Value}
    (same : ∀ id : Nat, set.contains id = true → others id = values id) :
    context.Holds place set others slots := by
  intro id member
  rw [same id member]
  exact holds id member

/-- An assigned local that is seen has a value. -/
theorem exists_value
    (holds : context.Holds place set values slots)
    {id : Nat}
    (sees : context.scope.Sees place.block place.count id)
    (member : set.contains id = true) :
    ∃ value, values id = some value ∧ value.kind = CodeStream.kindOf context.scope id ∧
      ∀ slot, (context.localAt id).slot = some slot →
        ∃ word, value = .word word ∧ slots slot = some word :=
  (holds id member).2 sees.2

/-- The slot of a seen local gets the value that is assigned to the local. -/
theorem put
    (holds : context.Holds place set values slots)
    (apart : context.scope.SlotsApart)
    {id : Nat}
    (sees : context.scope.Sees place.block place.count id)
    {slot : UInt16}
    (isSlot : (context.localAt id).slot = some slot)
    {word : Word}
    (isKind : word.kind = CodeStream.kindOf context.scope id) :
    context.Holds place (set.insert id) (Function.update values id (some (.word word)))
      (Function.update slots slot (some word)) := by
  intro other member
  by_cases same : id = other
  · subst same
    refine ⟨sees.1, fun _ => ⟨.word word, by simp, isKind, fun found isFound => ?_⟩⟩
    obtain rfl := Option.some.inj (isSlot.symm.trans isFound)
    exact ⟨word, rfl, by simp⟩
  · have known : set.contains other = true := by simpa [same] using member
    obtain ⟨counted, held⟩ := holds other known
    refine ⟨counted, fun around => ?_⟩
    obtain ⟨value, isValue, isOtherKind, inSlot⟩ := held around
    refine ⟨value, by simpa [Ne.symm same] using isValue, isOtherKind, fun found isFound => ?_⟩
    obtain ⟨held, isHeld, isThere⟩ := inSlot found isFound
    have different : found ≠ slot := by
      rintro rfl
      have positive := ValueKind.slotCount_pos
      rcases apart isSlot isFound sees.2 around same with below | above
      · exact absurd (positive (CodeStream.kindOf context.scope id)) (by omega)
      · exact absurd (positive (CodeStream.kindOf context.scope other)) (by omega)
    exact ⟨held, isHeld, by simpa [different] using isThere⟩

/-- A local that does not exist in the code is assigned. -/
theorem putAbsent
    (holds : context.Holds place set values slots)
    {id : Nat}
    (sees : context.scope.Sees place.block place.count id)
    (slotless : context.hasSlot id = false)
    {value : Value}
    (isKind : value.kind = CodeStream.kindOf context.scope id) :
    context.Holds place (set.insert id) (Function.update values id (some value)) slots := by
  intro other member
  by_cases same : id = other
  · subst same
    refine ⟨sees.1, fun _ => ⟨value, by simp, isKind, fun slot isSlot => ?_⟩⟩
    rw [hasSlot, isSlot] at slotless
    cases slotless
  · obtain ⟨counted, held⟩ := holds other (by simpa [same] using member)
    exact ⟨counted, by simpa [Ne.symm same] using held⟩

/-- In a block scope around a place and after it, locals may be forgotten, and those
that are not seen there count as assigned. -/
theorem weaken
    (holds : context.Holds place set values slots)
    (wellFormed : context.scope.WellFormed)
    {outer : Place}
    {smaller : VarSet}
    (around : outer.block ∈ context.scope.enclosing place.block)
    (counted : place.count ≤ outer.count)
    (isKnown : ∀ id : Nat, smaller.contains id = true →
      set.contains id = true ∨
        id < outer.count ∧ (context.localAt id).scope ∉ context.scope.enclosing outer.block) :
    context.Holds outer smaller values slots := by
  intro id member
  rcases isKnown id member with known | ⟨isCounted, notSeen⟩
  · obtain ⟨isCounted, held⟩ := holds id known
    exact ⟨Nat.lt_of_lt_of_le isCounted counted, fun isAround =>
      held (wellFormed.mem_enclosing_trans around isAround)⟩
  · exact ⟨isCounted, fun isAround => absurd isAround notSeen⟩

/-- At the same place, locals may be forgotten. -/
theorem within
    (holds : context.Holds place set values slots)
    {smaller : VarSet}
    (within : smaller.Within set) :
    context.Holds place smaller values slots :=
  fun id member => holds id (within id member)

/-- After more declarations, the same locals have their values. -/
theorem later
    (holds : context.Holds place set values slots)
    {count : Nat}
    (counted : place.count ≤ count) :
    context.Holds ⟨place.block, count⟩ set values slots :=
  fun id member => ⟨Nat.lt_of_lt_of_le (holds id member).1 counted, (holds id member).2⟩

/-- In a block scope that is opened, the same locals have their values. -/
theorem enter
    {outer first inner : Nat}
    (holds : context.Holds ⟨outer, first⟩ set values slots)
    (wellFormed : context.scope.WellFormed)
    (opens : context.Opens outer first inner) :
    context.Holds ⟨inner, first⟩ set values slots := by
  intro id member
  obtain ⟨isCounted, held⟩ := holds id member
  refine ⟨isCounted, fun isAround => held ?_⟩
  rw [wellFormed.enclosing_eq inner, opens.parent] at isAround
  exact (List.mem_cons.mp isAround).resolve_left (opens.fresh id isCounted)

/-- What holds after more declarations holds after fewer, if no local is assigned
that is declared after those. -/
theorem recount
    {block count fewer : Nat}
    (holds : context.Holds ⟨block, count⟩ set values slots)
    (counted : ∀ id : Nat, set.contains id = true → id < fewer) :
    context.Holds ⟨block, fewer⟩ set values slots :=
  fun id member => ⟨counted id member, (holds id member).2⟩

end Holds

end CodeContext

/-!
## Machines that stand where a tree stands

A machine stands where the execution of a tree stands if its frame holds the values
of the locals, it has the same memory, and its operands are those that the code has
pushed. Pieces of code get a machine from one such point to another.
-/

namespace CodeContext

/-- What the execution of a method relies on. -/
structure Executable
    (context : CodeContext)
    (strict : Bool) :
    Prop where
  sound : context.Sound strict
  words : context.HoldsWords
  apart : context.scope.SlotsApart
  reserves : context.ReservesNames
  reads : MethodShape.ofDescriptor.ReadsLoops context.table
  result : context.state.returnType = .void ∨ context.state.returnType.isValue strict = true

/-- A machine stands where the execution of a tree stands. -/
structure Stands
    (context : CodeContext)
    (place : Place)
    (set : VarSet)
    (kept : Nat → Option Word)
    (stack : List Word)
    (state : TreeState)
    (machine : Machine) :
    Prop where
  holds : context.Holds place set (context.valuesWith kept state) machine.slots
  operands : machine.stack = stack
  memory : machine.memory = state.memory

variable
  {context : CodeContext}
  {place : Place}
  {set : VarSet}
  {kept : Nat → Option Word}
  {stack : List Word}
  {state : TreeState}
  {machine : Machine}

@[simp] theorem valuesWith_withMemory
    (context : CodeContext)
    (kept : Nat → Option Word)
    (state : TreeState)
    (memory : Memory) :
    context.valuesWith kept (state.withMemory memory) = context.valuesWith kept state :=
  rfl

@[simp] theorem valuesWith_hide
    (context : CodeContext)
    (kept : Nat → Option Word)
    (state : TreeState)
    (elements : List Value) :
    context.valuesWith kept (state.hide elements) = context.valuesWith kept state :=
  rfl

namespace Stands

/-- Only the frame of a machine is not known. -/
theorem exists_slots
    (stands : context.Stands place set kept stack state machine) :
    ∃ slots, machine = ⟨slots, stack, state.memory⟩ ∧
      context.Holds place set (context.valuesWith kept state) slots := by
  obtain ⟨slots, operands, memory⟩ := machine
  obtain ⟨holds, rfl, rfl⟩ := stands
  exact ⟨slots, rfl, holds⟩

/-- A machine with a frame that holds the values stands there. -/
theorem ofSlots
    {slots : UInt16 → Option Word}
    (holds : context.Holds place set (context.valuesWith kept state) slots) :
    context.Stands place set kept stack state ⟨slots, stack, state.memory⟩ :=
  ⟨holds, rfl, rfl⟩

/-- At the same place, locals may be forgotten. -/
theorem within
    (stands : context.Stands place set kept stack state machine)
    {smaller : VarSet}
    (within : smaller.Within set) :
    context.Stands place smaller kept stack state machine :=
  ⟨stands.holds.within within, stands.operands, stands.memory⟩

/-- An assigned local of the source has its value in its slot, if it has one. -/
theorem exists_value
    (stands : context.Stands place set kept stack state machine)
    {id : Nat}
    (isSource : (context.localAt id).isSynthetic = false)
    (sees : context.scope.Sees place.block place.count id)
    (member : set.contains id = true) :
    ∃ value, state.locals id = some value ∧ value.kind = CodeStream.kindOf context.scope id ∧
      ∀ slot, (context.localAt id).slot = some slot →
        ∃ word, value = .word word ∧ machine.slots slot = some word := by
  obtain ⟨value, isValue, inSlot⟩ := stands.holds.exists_value sees member
  rw [valuesWith_source isSource] at isValue
  exact ⟨value, isValue, inSlot⟩

/-- A local of the source that does not exist in the code is assigned. -/
theorem putAbsent
    (stands : context.Stands place set kept stack state machine)
    {id : Nat}
    (isSource : (context.localAt id).isSynthetic = false)
    (sees : context.scope.Sees place.block place.count id)
    (slotless : context.hasSlot id = false)
    {value : Value}
    (isKind : value.kind = CodeStream.kindOf context.scope id) :
    context.Stands place (set.insert id) kept stack (state.put id value) machine := by
  refine ⟨?_, stands.operands, stands.memory⟩
  rw [valuesWith_put isSource]
  exact stands.holds.putAbsent sees slotless isKind

end Stands

end CodeContext

namespace MethodCode

/-- A machine gets from where one stream ends to where another ends, and stands
there. -/
def Brings
    (code : MethodCode)
    (outside : Outside)
    (stream : CodeStream)
    (machine : Machine)
    (next : CodeStream)
    (stands : Machine → Prop) :
    Prop :=
  ∃ after, stands after ∧ code.Crosses outside stream machine next after

/-- A machine gets from where one stream ends to where another ends, or to a branch
target if a test says so, and stands there either way. -/
def Decides
    (code : MethodCode)
    (outside : Outside)
    (stream : CodeStream)
    (machine : Machine)
    (next : CodeStream)
    (label : Label)
    (jumps : Bool)
    (stands : Machine → Prop) :
    Prop :=
  ∃ after, stands after ∧ code.Tests outside stream machine next label jumps after

variable
  {context : CodeContext}
  {code : MethodCode}
  {outside : Outside}
  {stream middle next : CodeStream}
  {machine at_ : Machine}
  {stands : Machine → Prop}
  {place : CodeContext.Place}
  {set : VarSet}
  {kept : Nat → Option Word}
  {stack after : List Word}
  {state later : TreeState}
  {word : Word}

/-- What is crossed before a test is part of it. -/
theorem Decides.ofCrosses
    {label : Label}
    {jumps : Bool}
    (crosses : code.Crosses outside stream machine middle at_)
    (decides : code.Decides outside middle at_ next label jumps stands) :
    code.Decides outside stream machine next label jumps stands := by
  obtain ⟨after, isThere, tests⟩ := decides
  exact ⟨after, isThere, crosses.tests tests⟩

/-- The same code decides the same. -/
theorem Decides.sameCode
    {label : Label}
    {jumps : Bool}
    (decides : code.Decides outside stream machine middle label jumps stands)
    (same : middle.SameCode next) :
    code.Decides outside stream machine next label jumps stands := by
  obtain ⟨after, isThere, tests⟩ := decides
  exact ⟨after, isThere, tests.sameCode same⟩

/-- Code that does not branch decides to go on. -/
theorem Decides.ofBrings
    (brings : code.Brings outside stream machine next stands)
    (label : Label) :
    code.Decides outside stream machine next label false stands := by
  obtain ⟨after, isThere, crosses⟩ := brings
  exact ⟨after, isThere, crosses.extends_, fun _ => crosses.goesOn, fun _ => crosses.goes, nofun⟩

namespace Brings

theorem refl
    (isThere : stands machine)
    (stream : CodeStream) :
    code.Brings outside stream machine stream stands :=
  ⟨machine, isThere, .refl code outside stream machine⟩

/-- What is crossed before is part of the way. -/
theorem ofCrosses
    (crosses : code.Crosses outside stream machine middle at_)
    (brings : code.Brings outside middle at_ next stands) :
    code.Brings outside stream machine next stands := by
  obtain ⟨after, isThere, rest⟩ := brings
  exact ⟨after, isThere, crosses.trans rest⟩

/-- Where the machine stands may be told otherwise. -/
theorem imp
    {other : Machine → Prop}
    (brings : code.Brings outside stream machine next stands)
    (implies : ∀ at_, stands at_ → other at_) :
    code.Brings outside stream machine next other := by
  obtain ⟨after, isThere, crosses⟩ := brings
  exact ⟨after, implies after isThere, crosses⟩

/-- An instruction that does not touch the frame is performed. -/
theorem emit
    (brings : code.Brings outside stream machine middle
      (context.Stands place set kept stack state))
    {instruction : Instruction}
    (noTarget : instruction.target? = none)
    (performed : ∀ slots, instruction.perform? outside ⟨slots, stack, state.memory⟩ =
      some ⟨slots, after, later.memory⟩)
    (sameLocals : later.locals = state.locals) :
    code.Brings outside stream machine (middle.emit instruction)
      (context.Stands place set kept after later) := by
  obtain ⟨at_, isThere, crosses⟩ := brings
  obtain ⟨slots, rfl, holds⟩ := isThere.exists_slots
  refine ⟨_, .ofSlots ?_, crosses.emit noTarget (performed slots)⟩
  exact holds.congr fun id _ => by rw [CodeContext.valuesWith, CodeContext.valuesWith, sameLocals]

/-- An instruction that only changes the operands is performed. -/
theorem operate
    (brings : code.Brings outside stream machine middle
      (context.Stands place set kept stack state))
    {instruction : Instruction}
    (noTarget : instruction.target? = none)
    (performed : ∀ slots, instruction.perform? outside ⟨slots, stack, state.memory⟩ =
      some ⟨slots, after, state.memory⟩) :
    code.Brings outside stream machine (middle.emit instruction)
      (context.Stands place set kept after state) :=
  brings.emit noTarget performed rfl

/-- The same code is crossed in place. -/
theorem sameCode
    (brings : code.Brings outside stream machine middle stands)
    (same : middle.SameCode next) :
    code.Brings outside stream machine next stands := by
  obtain ⟨after, isThere, crosses⟩ := brings
  exact ⟨after, isThere, crosses.sameCode same⟩

/-- An assigned local is loaded. -/
theorem load
    (brings : code.Brings outside stream machine middle
      (context.Stands place set kept stack state))
    {id : LocalId}
    (loaded : middle.load context.scope id = .ok next)
    (sees : context.scope.Sees place.block place.count id)
    (member : set.contains id = true) :
    ∃ word, context.valuesWith kept state id = some (.word word) ∧
      word.kind = CodeStream.kindOf context.scope id ∧
      code.Brings outside stream machine next
        (context.Stands place set kept (word :: stack) state) := by
  obtain ⟨at_, isThere, crosses⟩ := brings
  obtain ⟨slots, rfl, holds⟩ := isThere.exists_slots
  obtain ⟨value, isValue, isKind, inSlot⟩ := holds.exists_value sees member
  obtain ⟨slot, isSlot, -⟩ := CodeStream.load_eq_ok.mp loaded
  obtain ⟨word, rfl, -⟩ := inSlot slot isSlot
  refine ⟨word, isValue, isKind, _, .ofSlots holds, crosses.load loaded ?_ isKind⟩
  intro slot isSlot
  obtain ⟨held, isHeld, isThere⟩ := inSlot slot isSlot
  obtain rfl := Value.word.inj isHeld
  exact isThere

/-- A value is stored to a local. -/
theorem store
    (brings : code.Brings outside stream machine middle
      (context.Stands place set kept (word :: stack) state))
    (apart : context.scope.SlotsApart)
    {id : LocalId}
    {keep : Bool}
    (stored : middle.store context.scope id keep = .ok next)
    (sees : context.scope.Sees place.block place.count id)
    (isKind : word.kind = CodeStream.kindOf context.scope id)
    {others : Nat → Option Word}
    (sameMemory : later.memory = state.memory)
    (isPut : context.valuesWith others later =
      Function.update (context.valuesWith kept state) id (some (.word word))) :
    code.Brings outside stream machine next (context.Stands place (set.insert id) others
      (if keep then word :: stack else stack) later) := by
  obtain ⟨at_, isThere, crosses⟩ := brings
  obtain ⟨slots, rfl, holds⟩ := isThere.exists_slots
  obtain ⟨slot, isSlot, crosses⟩ := crosses.store stored isKind
  refine ⟨_, ⟨?_, rfl, sameMemory.symm⟩, crosses⟩
  rw [isPut]
  exact holds.put apart sees isSlot isKind

/-- A value is stored to a local of the source. -/
theorem storeSource
    (brings : code.Brings outside stream machine middle
      (context.Stands place set kept (word :: stack) state))
    (apart : context.scope.SlotsApart)
    {id : LocalId}
    (isSource : (context.localAt id).isSynthetic = false)
    {keep : Bool}
    (stored : middle.store context.scope id keep = .ok next)
    (sees : context.scope.Sees place.block place.count id)
    (isKind : word.kind = CodeStream.kindOf context.scope id) :
    code.Brings outside stream machine next (context.Stands place (set.insert id) kept
      (if keep then word :: stack else stack) (state.put id (.word word))) :=
  brings.store apart stored sees isKind rfl
    (CodeContext.valuesWith_put isSource kept state (.word word))

/-- A value is stored to a local that a loop introduces. -/
theorem storeKept
    (brings : code.Brings outside stream machine middle
      (context.Stands place set kept (word :: stack) state))
    (apart : context.scope.SlotsApart)
    {id : LocalId}
    (isSynthetic : (context.localAt id).isSynthetic = true)
    {keep : Bool}
    (stored : middle.store context.scope id keep = .ok next)
    (sees : context.scope.Sees place.block place.count id)
    (isKind : word.kind = CodeStream.kindOf context.scope id) :
    code.Brings outside stream machine next (context.Stands place (set.insert id)
      (Function.update kept id (some word)) (if keep then word :: stack else stack) state) :=
  brings.store apart stored sees isKind rfl
    (CodeContext.valuesWith_keep isSynthetic kept state word)

/-- An assigned local that a loop introduces is loaded. -/
theorem loadKept
    (brings : code.Brings outside stream machine middle
      (context.Stands place set kept stack state))
    {id : LocalId}
    (isSynthetic : (context.localAt id).isSynthetic = true)
    (loaded : middle.load context.scope id = .ok next)
    (sees : context.scope.Sees place.block place.count id)
    (member : set.contains id = true)
    (isKept : kept id = some word) :
    code.Brings outside stream machine next
      (context.Stands place set kept (word :: stack) state) := by
  obtain ⟨held, isHeld, -, loads⟩ := brings.load loaded sees member
  rw [CodeContext.valuesWith_synthetic isSynthetic, isKept] at isHeld
  obtain rfl := Value.word.inj (Option.some.inj isHeld)
  exact loads

/-- An integer is added to a local in place. -/
theorem increment
    (brings : code.Brings outside stream machine middle
      (context.Stands place set kept stack state))
    (apart : context.scope.SlotsApart)
    {id : LocalId}
    {delta : Int16}
    (added : middle.increment context.scope id delta = .ok next)
    (sees : context.scope.Sees place.block place.count id)
    (member : set.contains id = true)
    {value : Int32}
    (isValue : context.valuesWith kept state id = some (.word (.int value)))
    {others : Nat → Option Word}
    (sameMemory : later.memory = state.memory)
    (isPut : context.valuesWith others later = Function.update (context.valuesWith kept state) id
      (some (.word (.int (value + Int32.ofInt delta.toInt))))) :
    code.Brings outside stream machine next
      (context.Stands place (set.insert id) others stack later) := by
  obtain ⟨at_, isThere, crosses⟩ := brings
  obtain ⟨slots, rfl, holds⟩ := isThere.exists_slots
  obtain ⟨held, isHeld, isKind, inSlot⟩ := holds.exists_value sees member
  obtain rfl := Option.some.inj (isValue.symm.trans isHeld)
  obtain ⟨slot, isSlot, rfl⟩ := CodeStream.increment_eq_ok.mp added
  obtain ⟨word, isWord, isThere⟩ := inSlot slot isSlot
  obtain rfl := Value.word.inj isWord
  refine ⟨_, ⟨?_, rfl, sameMemory.symm⟩,
    crosses.emit rfl (by simp only [Instruction.perform?, isThere]; rfl)⟩
  rw [isPut]
  exact holds.put apart sees isSlot isKind

/-- An integer is added in place to a local that a loop introduces. -/
theorem incrementKept
    (brings : code.Brings outside stream machine middle
      (context.Stands place set kept stack state))
    (apart : context.scope.SlotsApart)
    {id : LocalId}
    (isSynthetic : (context.localAt id).isSynthetic = true)
    {delta : Int16}
    (added : middle.increment context.scope id delta = .ok next)
    (sees : context.scope.Sees place.block place.count id)
    (member : set.contains id = true)
    {value : Int32}
    (isKept : kept id = some (.int value)) :
    code.Brings outside stream machine next (context.Stands place (set.insert id)
      (Function.update kept id (some (.int (value + Int32.ofInt delta.toInt)))) stack state) := by
  have isValue : context.valuesWith kept state id = some (.word (.int value)) := by
    rw [CodeContext.valuesWith_synthetic isSynthetic, isKept]
    rfl
  exact brings.increment apart added sees member isValue rfl
    (CodeContext.valuesWith_keep isSynthetic kept state _)

/-- A branch is crossed or left. -/
theorem branch
    (brings : code.Brings outside stream machine middle
      (context.Stands place set kept stack state))
    {instruction : Instruction}
    {label : Label}
    {jumps : Bool}
    (isTarget : instruction.target? = some label)
    (performed : ∀ slots, instruction.perform? outside ⟨slots, stack, state.memory⟩ =
      some ⟨slots, after, state.memory⟩)
    (decides : instruction.jumps stack = jumps) :
    code.Decides outside stream machine (middle.emit instruction) label jumps
      (context.Stands place set kept after state) := by
  obtain ⟨at_, isThere, crosses⟩ := brings
  obtain ⟨slots, rfl, holds⟩ := isThere.exists_slots
  subst decides
  exact ⟨_, .ofSlots holds, crosses.branch isTarget (performed slots)⟩

end Brings

end MethodCode

end LoopLowering
