import LoopLowering.Proofs.Execution.Values
import LoopLowering.Proofs.Machine.Descriptors
import LoopLowering.Proofs.Machine.Executions

namespace LoopLowering

/-!
# A stack machine

The machine that runs the code of a method. It has a frame of slots, a stack of
operands and a memory, and it is stuck where an operand is not of the kind that
an instruction consumes. Casts succeed, and an index is not compared with the
length of its array. Values that take two words are left out, so that the
instructions on them have no effect.
-/

/-- A machine on its way through the code of a method. The top of the stack comes
first. -/
structure Machine where
  slots : UInt16 → Option Word
  stack : List Word
  memory : Memory

namespace Machine

/-- Push a value. -/
def push
    (machine : Machine)
    (word : Word) :
    Machine :=
  { machine with stack := word :: machine.stack }

/-- Replace the operands. -/
def withStack
    (machine : Machine)
    (stack : List Word) :
    Machine :=
  { machine with stack := stack }

/-- Put a value in a slot. -/
def putSlot
    (machine : Machine)
    (slot : UInt16)
    (word : Word) :
    Machine :=
  { machine with slots := Function.update machine.slots slot (some word) }

/-- Make a call and push its result, if it has one. -/
def call
    (outside : Outside)
    (call : Call)
    (result : Option ValueKind)
    (machine : Machine) :
    Machine :=
  let (datum, memory) := outside.answer call machine.memory
  { machine with stack := result.toList.map datum.word ++ machine.stack, memory := memory }

end Machine

/-- Pop values of the given kinds, the top first. -/
def popWords :
    (expected : List ValueKind) → List Word → Option (List Word × List Word)
  | [], stack => some ([], stack)
  | _ :: _, [] => none
  | kind :: rest, word :: stack =>
      if word.kind = kind then (popWords rest stack).map (Prod.map (word :: ·) id) else none

@[simp] theorem popWords_append
    (words stack : List Word) :
    popWords (words.map Word.kind) (words ++ stack) = some (words, stack) := by
  induction words with
  | nil =>
      rfl
  | cons word rest inductionHypothesis =>
      simp [popWords, inductionHypothesis]

namespace Instruction

/-- What an instruction does to the machine, apart from where it goes on. A
return does nothing but end the execution. -/
def perform?
    (outside : Outside) :
    Instruction → Machine → Option Machine
  | .intConst value, machine => some (machine.push (.int value))
  | .stringConst value, machine => some (machine.push (.reference (.text value)))
  | .nullConst, machine => some (machine.push (.reference .null))
  | .load kind slot, machine =>
      match machine.slots slot with
      | some word => if word.kind = kind then some (machine.push word) else none
      | none => none
  | .store kind slot, machine =>
      match machine.stack with
      | word :: rest =>
          if word.kind = kind then some ((machine.withStack rest).putSlot slot word) else none
      | [] => none
  | .arrayLength, machine =>
      match machine.stack with
      | .reference array :: rest =>
          some (machine.withStack
            (.int (Int32.ofNat (machine.memory.arrays array).length) :: rest))
      | _ => none
  | .arrayLoad kind, machine =>
      match machine.stack with
      | .int index :: .reference array :: rest =>
          let datum := (machine.memory.arrays array).element index.toInt.toNat
          some (machine.withStack (datum.word kind.valueKind :: rest))
      | _ => none
  | .arrayStore kind, machine =>
      match machine.stack with
      | word :: .int index :: .reference array :: rest =>
          if word.kind = kind.valueKind then
            let memory := machine.memory.store array index.toInt.toNat word
            some { machine with stack := rest, memory := memory }
          else
            none
      | _ => none
  | .newArray _, machine | .newReferenceArray _, machine =>
      match machine.stack with
      | .int length :: rest =>
          if bounded : length.toInt.toNat < 0x80000000 ∧ 0 ≤ length then
            some { machine with
              stack := .reference machine.memory.next :: rest
              memory := machine.memory.create length.toInt.toNat bounded.1 }
          else
            none
      | _ => none
  | .dup, machine =>
      match machine.stack with
      | word :: rest => some (machine.withStack (word :: word :: rest))
      | [] => none
  | .dup2, machine =>
      match machine.stack with
      | word :: below :: rest => some (machine.withStack (word :: below :: word :: below :: rest))
      | _ => none
  | .pop, machine =>
      match machine.stack with
      | _ :: rest => some (machine.withStack rest)
      | [] => none
  | .pop2, machine =>
      match machine.stack with
      | _ :: _ :: rest => some (machine.withStack rest)
      | _ => none
  | .increment slot delta, machine =>
      match machine.slots slot with
      | some (.int value) => some (machine.putSlot slot (.int (value + Int32.ofInt delta.toInt)))
      | _ => none
  | .arith op .int, machine =>
      match machine.stack with
      | .int right :: .int left :: rest =>
          some (machine.withStack (.int (op.result left right) :: rest))
      | _ => none
  | .branchIf .., machine =>
      match machine.stack with
      | .int _ :: rest => some (machine.withStack rest)
      | _ => none
  | .branchIfInts .., machine =>
      match machine.stack with
      | .int _ :: .int _ :: rest => some (machine.withStack rest)
      | _ => none
  | .branchIfReferences condition _, machine =>
      match machine.stack with
      | .reference _ :: .reference _ :: rest =>
          if condition.isEquality then some (machine.withStack rest) else none
      | _ => none
  | .goto _, machine => some machine
  | .invoke kind method, machine => do
      let shape ← MethodShape.ofDescriptor method.descriptor
      let (popped, rest) ← popWords shape.params.reverse machine.stack
      if kind = .static then
        return (machine.withStack rest).call outside (.function method popped.reverse) shape.result
      else
        match rest with
        | .reference receiver :: below =>
            return (machine.withStack below).call outside
              (.method method.name method.descriptor receiver popped.reverse) shape.result
        | _ => none
  | .checkCast _, machine =>
      match machine.stack with
      | .reference _ :: _ => some machine
      | _ => none
  | .arith _ _, _ | .compare _ _, _ | .convert _ _, _ | .returnWith _, _ => none

/-- Whether an instruction goes on at its branch target. -/
def jumps :
    Instruction → (stack : List Word) → Bool
  | .goto _, _ => true
  | .branchIf condition _, .int value :: _ => condition.holds value 0
  | .branchIfInts condition _, .int right :: .int left :: _ => condition.holds left right
  | .branchIfReferences condition _, .reference right :: .reference left :: _ =>
      condition.holdsOf left right
  | _, _ => false

/-- What a return returns: a value of its kind, or none if it has no kind. -/
def returned? :
    Instruction → (stack : List Word) → Option (Option Word)
  | .returnWith none, _ => some none
  | .returnWith (some kind), word :: _ => if word.kind = kind then some (some word) else none
  | _, _ => none

end Instruction

/-- A machine before an instruction. -/
abbrev Configuration := Nat × Machine

namespace MethodCode

variable
  {outside : Outside}
  {code : MethodCode}

/-- The configuration after the next instruction. -/
def next?
    (code : MethodCode)
    (outside : Outside) :
    Configuration → Option Configuration
  | (offset, machine) => do
      let instruction ← code.instructions[offset]?
      let after ← instruction.perform? outside machine
      if instruction.jumps machine.stack then
        let label ← instruction.target?
        let target ← code.labelPosition? label
        return (target, after)
      else
        return (offset + 1, after)

/-- What the next instruction returns, if it returns. -/
def returned?
    (code : MethodCode)
    (configuration : Configuration) :
    Option (Option Word) := do
  let instruction ← code.instructions[configuration.1]?
  instruction.returned? configuration.2.stack

/-- The execution of a method gets from one configuration to another. -/
inductive Goes
    (code : MethodCode)
    (outside : Outside) :
    Configuration → Configuration → Prop where
  | refl (configuration : Configuration) : Goes code outside configuration configuration
  | step {first second third : Configuration} :
      code.next? outside first = some second →
      Goes code outside second third →
      Goes code outside first third

namespace Goes

variable
  {first second third : Configuration}

theorem trans
    (earlier : code.Goes outside first second)
    (later : code.Goes outside second third) :
    code.Goes outside first third := by
  induction earlier with
  | refl =>
      exact later
  | step next _ inductionHypothesis =>
      exact .step next (inductionHypothesis later)

/-- An instruction that is performed is a part of an execution. -/
theorem single
    (next : code.next? outside first = some second) :
    code.Goes outside first second :=
  .step next (.refl second)

end Goes

end MethodCode

/-- No instruction takes a call back. -/
theorem Instruction.calls_perform?
    {outside : Outside}
    {instruction : Instruction}
    {machine after : Machine}
    (performed : instruction.perform? outside machine = some after) :
    machine.memory.calls <+: after.memory.calls := by
  have kept : after.memory.calls = machine.memory.calls →
      machine.memory.calls <+: after.memory.calls := fun same => same ▸ List.prefix_rfl
  cases instruction with
  | invoke kind method =>
      simp only [perform?, Option.bind_eq_bind, Option.bind_eq_some_iff] at performed
      obtain ⟨shape, -, ⟨popped, rest⟩, -, performed⟩ := performed
      split at performed
      · obtain rfl := Option.some.inj performed
        exact List.prefix_append _ _
      · split at performed
        · obtain rfl := Option.some.inj performed
          exact List.prefix_append _ _
        · cases performed
  | intConst | stringConst | nullConst | goto =>
      obtain rfl := Option.some.inj performed
      exact kept rfl
  | compare | convert | returnWith =>
      cases performed
  | arith op kind =>
      cases kind with
      | int =>
          simp only [perform?] at performed
          split at performed
          · obtain rfl := Option.some.inj performed
            exact kept rfl
          · cases performed
      | _ =>
          cases performed
  | _ =>
      refine kept ?_
      simp only [perform?] at performed
      repeat' split at performed
      all_goals
        cases performed <;> rfl

/-- An execution only makes further calls. -/
theorem MethodCode.Goes.calls
    {outside : Outside}
    {code : MethodCode}
    {first second : Configuration}
    (goes : code.Goes outside first second) :
    first.2.memory.calls <+: second.2.memory.calls := by
  induction goes with
  | refl =>
      exact List.prefix_rfl
  | @step first second third next _ inductionHypothesis =>
      refine List.IsPrefix.trans ?_ inductionHypothesis
      obtain ⟨offset, machine⟩ := first
      simp only [next?, Option.bind_eq_bind, Option.bind_eq_some_iff] at next
      obtain ⟨instruction, -, after, performed, next⟩ := next
      have calls := Instruction.calls_perform? performed
      split at next
      · simp only [Option.bind_eq_some_iff, Option.pure_def, Option.some.injEq] at next
        obtain ⟨label, -, target, -, rfl⟩ := next
        exact calls
      · obtain rfl := Option.some.inj next
        exact calls

end LoopLowering
