import LoopLowering.Code.Expressions
import LoopLowering.Proofs.Code.Streams

namespace LoopLowering

/-!
# Steps of code generation

When a step of code generation succeeds, and that each is a complete piece of
code: it leaves the branch targets before it alone and places its own.
-/

/-- A sequence succeeds if its parts do. -/
theorem bind_eq_ok
    {first : Except ε α}
    {second : α → Except ε β}
    {result : β} :
    (first >>= second) = .ok result ↔ ∃ middle, first = .ok middle ∧ second middle = .ok result := by
  cases first with
  | error cause =>
      simp [bind, Except.bind]
  | ok middle =>
      simp [bind, Except.bind]

/-- A step that does nothing but return succeeds. -/
theorem pure_eq_ok
    {value result : α} :
    (pure value : Except ε α) = .ok result ↔ value = result := by
  simp [pure, Except.pure]

/-- A step that fails does not succeed. -/
theorem throw_eq_ok
    {cause : ε}
    {result : α} :
    (throw cause : Except ε α) = .ok result ↔ False := by
  simp [throw, throwThe, MonadExceptOf.throw]

/-- A sequence has a result if its parts have. -/
theorem exists_bind
    {first : Except ε α}
    {second : α → Except ε β}
    (succeeds : ∃ middle, first = .ok middle)
    (next : ∀ middle, ∃ result, second middle = .ok result) :
    ∃ result, (first >>= second) = .ok result := by
  obtain ⟨middle, isMiddle⟩ := succeeds
  obtain ⟨result, isResult⟩ := next middle
  exact ⟨result, bind_eq_ok.mpr ⟨middle, isMiddle, isResult⟩⟩

/-- A step that does nothing but return has a result. -/
theorem exists_pure
    (value : α) :
    ∃ result, (pure value : Except ε α) = .ok result :=
  ⟨value, rfl⟩

/-- A step is a complete piece of code wherever it succeeds. -/
def CodeStep.Appends
    (step : CodeStep) :
    Prop :=
  ∀ {code after : CodeStream}, step code = .ok after → CodeStream.Appends [] code after

namespace CodeStream

/-- A local has a slot if its slot can be told. -/
theorem slotOf_eq_ok
    {scope : MethodScope}
    {id : LocalId}
    {slot : UInt16} :
    slotOf scope id = .ok slot ↔ (scope.localAt id).slot = some slot := by
  unfold slotOf
  split
  · next found isFound =>
      simp [isFound]
  · next isNone =>
      simp [isNone]

/-- A local that has a slot can be loaded. -/
theorem load_eq_ok
    {scope : MethodScope}
    {id : LocalId}
    {code after : CodeStream} :
    code.load scope id = .ok after ↔
      ∃ slot, (scope.localAt id).slot = some slot ∧
        code.emit (.load (kindOf scope id) slot) = after := by
  simp only [load, bind_eq_ok, slotOf_eq_ok, pure_eq_ok]

/-- The code that copies a value if it is kept. -/
def copied
    (kind : ValueKind)
    (keep : Bool)
    (code : CodeStream) :
    CodeStream :=
  if keep then code.emit (if kind.isWide then .dup2 else .dup) else code

/-- A local that has a slot can be stored to. -/
theorem store_eq_ok
    {scope : MethodScope}
    {id : LocalId}
    {keep : Bool}
    {code after : CodeStream} :
    code.store scope id keep = .ok after ↔
      ∃ slot, (scope.localAt id).slot = some slot ∧
        ((code.copied (kindOf scope id) keep).emit
          (.store (kindOf scope id) slot)).openLocal scope id = after := by
  simp only [store, bind_eq_ok, slotOf_eq_ok, pure_eq_ok, copied]

/-- A local that has a slot can be added to. -/
theorem increment_eq_ok
    {scope : MethodScope}
    {id : LocalId}
    {delta : Int16}
    {code after : CodeStream} :
    code.increment scope id delta = .ok after ↔
      ∃ slot, (scope.localAt id).slot = some slot ∧ code.emit (.increment slot delta) = after := by
  simp only [increment, bind_eq_ok, slotOf_eq_ok, pure_eq_ok]

/-- The instruction that creates an array of a component type. -/
def creation
    (table : ClassTable)
    (component : Ty) :
    Instruction :=
  match component.primitive? with
  | some kind => .newArray kind
  | none => .newReferenceArray (table.referenceName component)

/-- An array that is not too large can be created. -/
theorem newArray_eq_ok
    {table : ClassTable}
    {component : Ty}
    {length : Nat}
    {code after : CodeStream} :
    code.newArray table component length = .ok after ↔
      length ≤ 0x7FFFFFFF ∧
        (code.emit (.intConst (Int32.ofNat length))).emit (creation table component) = after := by
  unfold newArray creation
  split
  · next small =>
      cases component.primitive? <;> simp [small]
  · next large =>
      simp [large]

/-- A test can be made a value if it can be branched on. -/
theorem testValue_eq_ok
    {branchUnless : Label → CodeStep}
    {code after : CodeStream} :
    code.testValue branchUnless = .ok after ↔
      ∃ tested, branchUnless code.nextLabel code.addLabel.addLabel = .ok tested ∧
        ((((tested.emit (.intConst 1)).emit (.goto code.addLabel.nextLabel)).place
          code.nextLabel).emit (.intConst 0)).place code.addLabel.nextLabel = after := by
  simp only [testValue, bind_eq_ok, pure_eq_ok]

namespace Appends

variable
  {opened : List Nat}
  {before code after : CodeStream}

/-- Loading a local may follow. -/
theorem load
    (appends : Appends opened before code)
    {scope : MethodScope}
    {id : LocalId}
    (loaded : code.load scope id = .ok after) :
    Appends opened before after := by
  obtain ⟨slot, -, rfl⟩ := load_eq_ok.mp loaded
  exact appends.emit _

/-- Storing to a local may follow. -/
theorem store
    (appends : Appends opened before code)
    {scope : MethodScope}
    {id : LocalId}
    {keep : Bool}
    (stored : code.store scope id keep = .ok after) :
    Appends opened before after := by
  obtain ⟨slot, -, rfl⟩ := store_eq_ok.mp stored
  refine Appends.same (Appends.emit ?_ _) (openLocal_same _ _ _).1 (openLocal_same _ _ _).2
  unfold copied
  split
  · exact appends.emit _
  · exact appends

/-- Adding to a local may follow. -/
theorem increment
    (appends : Appends opened before code)
    {scope : MethodScope}
    {id : LocalId}
    {delta : Int16}
    (added : code.increment scope id delta = .ok after) :
    Appends opened before after := by
  obtain ⟨slot, -, rfl⟩ := increment_eq_ok.mp added
  exact appends.emit _

/-- Converting a primitive value may follow. -/
theorem convert
    (appends : Appends opened before code)
    (source target : Primitive) :
    Appends opened before (code.convert source target) := by
  simp only [CodeStream.convert]
  split
  · exact appends
  · exact appends.emit _

/-- Converting an operand may follow. -/
theorem convertOperand
    (appends : Appends opened before code)
    (type : Ty)
    (operand : Primitive) :
    Appends opened before (code.convertOperand type operand) := by
  simp only [CodeStream.convertOperand]
  split
  · exact appends.convert _ _
  · exact appends

/-- Converting an assigned value may follow. -/
theorem convertAssigned
    (appends : Appends opened before code)
    (table : ClassTable)
    (source target : Ty) :
    Appends opened before (code.convertAssigned table source target) := by
  simp only [CodeStream.convertAssigned]
  split
  · exact appends.convert _ _
  · split
    · exact appends.emit _
    · exact appends
  · split
    · exact (appends.emit _).convert _ _
    · exact appends
  · exact appends

/-- Converting an element may follow. -/
theorem convertElement
    (appends : Appends opened before code)
    (table : ClassTable)
    (conversion : ElementConversion) :
    Appends opened before (code.convertElement table conversion) := by
  simp only [CodeStream.convertElement]
  split
  · exact appends
  · exact appends.convert _ _
  · exact appends.emit _
  · exact appends.emit _
  · exact (appends.emit _).convert _ _

/-- Dropping the result of a call may follow. -/
theorem keepResult
    (appends : Appends opened before code)
    (type : Ty)
    (wanted : Bool) :
    Appends opened before (code.keepResult type wanted) := by
  simp only [CodeStream.keepResult]
  split
  · exact appends
  · exact appends.emit _

/-- Branching on two values may follow. -/
theorem branchOnValues
    (appends : Appends opened before code)
    (op : BinOp)
    (condition : Condition)
    (operand : Primitive)
    (label : Label) :
    Appends opened before (code.branchOnValues op condition operand label) := by
  simp only [CodeStream.branchOnValues]
  split
  · exact appends.emit _
  · exact (appends.emit _).emit _

/-- A test that becomes a value may follow. -/
theorem testValue
    (appends : Appends opened before code)
    {branchUnless : Label → CodeStep}
    (complete : ∀ label, (branchUnless label).Appends)
    (tested : code.testValue branchUnless = .ok after) :
    Appends opened before after := by
  refine appends.trans ?_
  obtain ⟨middle, isTested, rfl⟩ := testValue_eq_ok.mp tested
  have labeled := ((Appends.refl code).addLabel).addLabel.trans (complete _ isTested)
  have remain : ∀ other : Nat, other ∈ ([code.addLabel.nextLabel] : List Nat) ↔
      other ∈ ([code.addLabel.nextLabel, code.nextLabel] : List Nat) ∧
        other ≠ code.nextLabel := by
    intro other
    simp only [List.mem_cons, List.not_mem_nil, or_false, CodeStream.nextLabel,
      CodeStream.addLabel, Array.size_push]
    omega
  have placed := (((labeled.emit (.intConst 1)).emit (.goto code.addLabel.nextLabel)).place
    (by simp) remain).emit (.intConst 0)
  exact placed.place (by simp) (by simp)

end Appends

end CodeStream

/-!
## Plain code

Most instructions neither use a slot nor branch. The conversions of values, the
copies and drops of them, and the calls consist of such instructions alone.
-/

namespace Instruction

/-- Whether an instruction neither uses a slot nor does anything but go on to
the next one. -/
def isPlain :
    Instruction → Bool
  | .load .. | .store .. | .increment .. | .branchIf .. | .branchIfInts ..
  | .branchIfReferences .. | .goto _ | .returnWith _ => false
  | _ => true

/-- Whether an instruction uses a slot. -/
def usesSlot :
    Instruction → Bool
  | .load .. | .store .. | .increment .. => true
  | _ => false

/-- A plain instruction uses no slot and does not branch. -/
theorem usesSlot_of_isPlain
    {instruction : Instruction}
    (plain : instruction.isPlain = true) :
    instruction.usesSlot = false ∧ instruction.target? = none := by
  cases instruction <;> first | exact ⟨rfl, rfl⟩ | cases plain

/-- An instruction that uses no slot stores to none. -/
theorem ne_store_of_usesSlot
    {instruction : Instruction}
    (usesNone : instruction.usesSlot = false)
    (kind : ValueKind)
    (slot : UInt16) :
    instruction ≠ .store kind slot := by
  rintro rfl
  cases usesNone

end Instruction

namespace CodeStream

/-- Between two times, plain instructions were appended and nothing else. -/
inductive Plainly
    (before : CodeStream) :
    CodeStream → Prop where
  | refl : Plainly before before
  | emit {code : CodeStream} {instruction : Instruction} :
      Plainly before code → instruction.isPlain = true → Plainly before (code.emit instruction)

section Plainly

variable
  {before code : CodeStream}

/-- Converting a primitive value is plain. -/
theorem Plainly.convert
    (plainly : Plainly before code)
    (source target : Primitive) :
    Plainly before (code.convert source target) := by
  simp only [CodeStream.convert]
  split
  · exact plainly
  · exact plainly.emit rfl

/-- Converting an operand is plain. -/
theorem Plainly.convertOperand
    (plainly : Plainly before code)
    (type : Ty)
    (operand : Primitive) :
    Plainly before (code.convertOperand type operand) := by
  simp only [CodeStream.convertOperand]
  split
  · exact plainly.convert _ _
  · exact plainly

/-- Converting an assigned value is plain. -/
theorem Plainly.convertAssigned
    (plainly : Plainly before code)
    (table : ClassTable)
    (source target : Ty) :
    Plainly before (code.convertAssigned table source target) := by
  simp only [CodeStream.convertAssigned]
  split
  · exact plainly.convert _ _
  · split
    · exact plainly.emit rfl
    · exact plainly
  · split
    · exact (plainly.emit rfl).convert _ _
    · exact plainly
  · exact plainly

/-- Converting an element is plain. -/
theorem Plainly.convertElement
    (plainly : Plainly before code)
    (table : ClassTable)
    (conversion : ElementConversion) :
    Plainly before (code.convertElement table conversion) := by
  simp only [CodeStream.convertElement]
  split
  · exact plainly
  · exact plainly.convert _ _
  · exact plainly.emit rfl
  · exact plainly.emit rfl
  · exact (plainly.emit rfl).convert _ _

/-- Dropping a value is plain. -/
theorem Plainly.popValue
    (plainly : Plainly before code)
    (kind : ValueKind) :
    Plainly before (code.popValue kind) := by
  simp only [CodeStream.popValue]
  split
  · exact plainly.emit rfl
  · exact plainly.emit rfl

/-- Dropping the result of a call is plain. -/
theorem Plainly.keepResult
    (plainly : Plainly before code)
    (type : Ty)
    (wanted : Bool) :
    Plainly before (code.keepResult type wanted) := by
  simp only [CodeStream.keepResult]
  split
  · exact plainly
  · exact plainly.popValue _

/-- Copying a value is plain. -/
theorem Plainly.copied
    (plainly : Plainly before code)
    (kind : ValueKind)
    (keep : Bool) :
    Plainly before (code.copied kind keep) := by
  simp only [CodeStream.copied]
  split
  · split
    · exact plainly.emit rfl
    · exact plainly.emit rfl
  · exact plainly

/-- Creating an array is plain. -/
theorem isPlain_creation
    (table : ClassTable)
    (component : Ty) :
    (creation table component).isPlain = true := by
  simp only [creation]
  split <;> rfl

/-- Calling a function is plain. -/
theorem Plainly.callFunction
    (plainly : Plainly before code)
    (context : CodeContext)
    (name : String)
    (info : FunctionInfo)
    (wanted : Bool) :
    Plainly before (context.callFunction name info wanted code) := by
  simp only [CodeContext.callFunction]
  exact (plainly.emit rfl).keepResult _ _

/-- Calling a method is plain. -/
theorem Plainly.callMethod
    (plainly : Plainly before code)
    (context : CodeContext)
    (name : String)
    (found : ClassTable.FoundMethod)
    (wanted : Bool) :
    Plainly before (context.callMethod name found wanted code) := by
  simp only [CodeContext.callMethod]
  refine Plainly.keepResult ?_ _ _
  split
  · exact (plainly.emit rfl).emit rfl
  · exact plainly.emit rfl

end Plainly

end CodeStream

end LoopLowering
