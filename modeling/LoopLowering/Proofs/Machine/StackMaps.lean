import LoopLowering.Code.Instruction
import LoopLowering.Proofs.Code.Streams

namespace LoopLowering

/-!
# Kinds on the operand stack

What an instruction does to the kinds of the operands, and what they are at each offset
of a piece of code.

## Effects on the kinds of operands

What an instruction does to the kinds of the values on the operand stack, the
top first. It has no effect where it does not find the operands it consumes.
The operands of a call are those its descriptor names.
-/

/-- The kinds of the values on an operand stack, the top first. -/
abbrev KindStack := List ValueKind

/-- The kinds of the parameters and of the result of a method. -/
structure MethodShape where
  params : List ValueKind
  result : Option ValueKind
  deriving Repr, DecidableEq

/-- What a machine makes of the descriptor of a method. -/
abbrev DescriptorReader := String → Option MethodShape

namespace ArrayKind

/-- The kind of a component on the operand stack. -/
def valueKind :
    ArrayKind → ValueKind
  | .int | .byte | .char | .short => .int
  | .long => .long
  | .float => .float
  | .double => .double
  | .reference => .reference

/-- A component has the kind of the values of its type. -/
theorem valueKind_ofTy
    (ty : Ty) :
    (ofTy ty).valueKind = .ofTy ty := by
  cases ty with
  | primitive kind =>
      cases kind <;> rfl
  | _ =>
      rfl

end ArrayKind

/-- Pop values of the given kinds, the top first. -/
def popKinds :
    (expected : List ValueKind) → KindStack → Option KindStack
  | [], stack => some stack
  | _ :: _, [] => none
  | wanted :: rest, kind :: stack => if kind = wanted then popKinds rest stack else none

@[simp] theorem popKinds_append
    (kinds stack : KindStack) :
    popKinds kinds (kinds ++ stack) = some stack := by
  induction kinds with
  | nil =>
      rfl
  | cons kind rest inductionHypothesis =>
      simpa [popKinds] using inductionHypothesis

/-- What is popped is on top. -/
theorem eq_append_of_popKinds :
    ∀ {expected stack rest : KindStack},
      popKinds expected stack = some rest →
      stack = expected ++ rest
  | [], stack, rest, popped => by
      cases popped
      rfl
  | wanted :: others, kind :: stack, rest, popped => by
      rw [popKinds] at popped
      split at popped
      · next same =>
          rw [same, eq_append_of_popKinds popped]
          rfl
      · cases popped

namespace Instruction

/-- The kinds an instruction pops, the top first, and those it pushes for
them, if it can find them on top of a stack. The instructions that copy and drop
words look at what they find. -/
def effect
    (read : DescriptorReader) :
    Instruction → KindStack → Option KindStack
  | .intConst _, stack => some (.int :: stack)
  | .stringConst _, stack | .nullConst, stack => some (.reference :: stack)
  | .load kind _, stack => some (kind :: stack)
  | .store kind _, stack => popKinds [kind] stack
  | .arrayLength, stack => (popKinds [.reference] stack).map (.int :: ·)
  | .arrayLoad kind, stack =>
      (popKinds [.int, .reference] stack).map (kind.valueKind :: ·)
  | .arrayStore kind, stack => popKinds [kind.valueKind, .int, .reference] stack
  | .newArray _, stack | .newReferenceArray _, stack =>
      (popKinds [.int] stack).map (.reference :: ·)
  | .dup, kind :: stack => if kind.isWide then none else some (kind :: kind :: stack)
  | .dup2, kind :: stack =>
      if kind.isWide then
        some (kind :: kind :: stack)
      else
        match stack with
        | below :: rest =>
            if below.isWide then none else some (kind :: below :: kind :: below :: rest)
        | [] => none
  | .pop, kind :: stack => if kind.isWide then none else some stack
  | .pop2, kind :: stack =>
      if kind.isWide then
        some stack
      else
        match stack with
        | below :: rest => if below.isWide then none else some rest
        | [] => none
  | .dup, [] | .dup2, [] | .pop, [] | .pop2, [] => none
  | .increment .., stack => some stack
  | .arith _ kind, stack =>
      if kind = .reference then none else (popKinds [kind, kind] stack).map (kind :: ·)
  | .compare kind _, stack =>
      if kind = .reference ∨ kind = .int then none
      else (popKinds [kind, kind] stack).map (.int :: ·)
  | .branchIf .., stack => popKinds [.int] stack
  | .branchIfInts .., stack => popKinds [.int, .int] stack
  | .branchIfReferences .., stack => popKinds [.reference, .reference] stack
  | .goto _, stack => some stack
  | .invoke kind method, stack =>
      match read method.descriptor with
      | some shape =>
          let receiver := if kind = .static then [] else [ValueKind.reference]
          (popKinds (shape.params.reverse ++ receiver) stack).map (shape.result.toList ++ ·)
      | none => none
  | .checkCast _, stack => (popKinds [.reference] stack).map (.reference :: ·)
  | .convert source target, stack =>
      if source = .reference ∨ target = .reference ∨ source = target then none
      else (popKinds [source] stack).map (target :: ·)
  | .returnWith none, stack => some stack
  | .returnWith (some kind), stack => popKinds [kind] stack

/-- Values below those an instruction looks at do not matter to it. -/
theorem popKinds_frame
    {expected stack rest : KindStack}
    (popped : popKinds expected stack = some rest)
    (below : KindStack) :
    popKinds expected (stack ++ below) = some (rest ++ below) := by
  rw [eq_append_of_popKinds popped, List.append_assoc, popKinds_append]

/-- An instruction has the same effect on top of more values. -/
theorem effect_frame
    {read : DescriptorReader}
    {instruction : Instruction}
    {stack next : KindStack}
    (effect : instruction.effect read stack = some next)
    (below : KindStack) :
    instruction.effect read (stack ++ below) = some (next ++ below) := by
  have popMap : ∀ {expected : KindStack} {push : KindStack},
      (popKinds expected stack).map (push ++ ·) = some next →
      (popKinds expected (stack ++ below)).map (push ++ ·) = some (next ++ below) := by
    intro expected push popped
    obtain ⟨rest, isRest, rfl⟩ := Option.map_eq_some_iff.mp popped
    rw [popKinds_frame isRest]
    simp
  cases instruction with
  | intConst value | stringConst value | nullConst | load kind slot | increment slot delta
  | goto label =>
      simp only [Instruction.effect, Option.some.injEq] at effect ⊢
      simp [← effect]
  | store kind slot | arrayStore kind | branchIf condition label | branchIfInts condition label
  | branchIfReferences condition label =>
      exact popKinds_frame effect below
  | arrayLength =>
      exact @popMap _ [.int] effect
  | arrayLoad kind =>
      exact @popMap _ [kind.valueKind] effect
  | newArray component | newReferenceArray component | checkCast type =>
      exact @popMap _ [.reference] effect
  | dup | pop =>
      cases stack with
      | nil =>
          cases effect
      | cons kind rest =>
          simp only [Instruction.effect, List.cons_append] at effect ⊢
          split at effect
          · cases effect
          · cases effect
            simp_all
  | dup2 | pop2 =>
      cases stack with
      | nil =>
          cases effect
      | cons kind rest =>
          simp only [Instruction.effect, List.cons_append] at effect ⊢
          split at effect
          · cases effect
            simp_all
          · cases rest with
            | nil =>
                cases effect
            | cons under rest =>
                simp only [List.cons_append] at effect ⊢
                split at effect
                · cases effect
                · cases effect
                  simp_all
  | arith op kind =>
      simp only [Instruction.effect] at effect ⊢
      split at effect
      · cases effect
      · next numeric =>
          rw [if_neg numeric]
          exact @popMap _ [kind] effect
  | compare kind nanGreater =>
      simp only [Instruction.effect] at effect ⊢
      split at effect
      · cases effect
      · next ordered =>
          rw [if_neg ordered]
          exact @popMap _ [.int] effect
  | convert source target =>
      simp only [Instruction.effect] at effect ⊢
      split at effect
      · cases effect
      · next numeric =>
          rw [if_neg numeric]
          exact @popMap _ [target] effect
  | invoke kind method =>
      simp only [Instruction.effect] at effect ⊢
      split at effect
      · exact popMap effect
      · cases effect
  | returnWith kind =>
      cases kind with
      | none =>
          simp only [Instruction.effect, Option.some.injEq] at effect ⊢
          simp [← effect]
      | some kind =>
          exact popKinds_frame effect below

end Instruction

/-!
## Stack maps

A stack map gives the kinds on the operand stack at each offset of a piece of
code. It is right if every instruction finds its operands there and leaves what
the map has at the offsets that follow. Along every path, the stack then is
what the map says, with whatever was there before underneath.
-/

/-- The kinds on the operand stack at each branch target. -/
abbrev LabelStacks := Nat → KindStack

namespace CodeStream

/-- A stack map of the code between two times is right. Only the branch targets
from a first one on matter. -/
structure Verified
    (read : DescriptorReader)
    (base : Nat)
    (labelStack : LabelStacks)
    (stackAt : Nat → KindStack)
    (before after : CodeStream) :
    Prop where
  step : ∀ offset, before.position ≤ offset → offset < after.position →
    ∃ instruction next, after.instructions[offset]? = some instruction ∧
      instruction.effect read (stackAt offset) = some next ∧
      (instruction.endsFlow = false → stackAt (offset + 1) = next) ∧
      ∀ label : Nat, instruction.target? = some label →
        base ≤ label ∧ label < after.labels.size ∧ labelStack label = next
  placed : ∀ label offset, base ≤ label → after.offset? label = some offset →
    before.position ≤ offset → offset ≤ after.position ∧ stackAt offset = labelStack label

/-- The code between two times leads from one stack to another. -/
def Flows
    (read : DescriptorReader)
    (base : Nat)
    (labelStack : LabelStacks)
    (entry exit : KindStack)
    (before after : CodeStream) :
    Prop :=
  before.position ≤ after.position ∧
    ∃ stackAt, stackAt before.position = entry ∧ stackAt after.position = exit ∧
      Verified read base labelStack stackAt before after

/-- The branch targets placed at the end of the code so far expect the stack
there. -/
def Enters
    (base : Nat)
    (labelStack : LabelStacks)
    (code : CodeStream)
    (stack : KindStack) :
    Prop :=
  ∀ label offset, base ≤ label → code.offset? label = some offset → code.position ≤ offset →
    offset = code.position ∧ labelStack label = stack

namespace Flows

variable
  {read : DescriptorReader}
  {base : Nat}
  {labelStack : LabelStacks}
  {entry middle exit : KindStack}
  {before code after : CodeStream}

/-- No code leaves the stack as it is. -/
theorem start
    (enters : Enters base labelStack code entry) :
    Flows read base labelStack entry entry code code := by
  refine ⟨Nat.le_refl _, fun _ => entry, rfl, rfl, ?_, ?_⟩
  · intro offset low high
    omega
  · intro label offset inBase placed low
    obtain ⟨atEnd, stack⟩ := enters label offset inBase placed low
    exact ⟨Nat.le_of_eq atEnd, stack.symm⟩

/-- The branch targets placed at the end of a piece of code expect the stack
there. -/
theorem enters
    (flows : Flows read base labelStack entry exit before code) :
    Enters base labelStack code exit := by
  obtain ⟨position, stackAt, -, atEnd, verified⟩ := flows
  intro label offset inBase placed high
  obtain ⟨low, stack⟩ := verified.placed label offset inBase placed (Nat.le_trans position high)
  have isEnd : offset = code.position := Nat.le_antisymm low high
  exact ⟨isEnd, by rw [← stack, isEnd, atEnd]⟩

/-- An instruction that finds its operands may follow. After one that never
goes on to the next instruction, the stack is whatever a branch brings. -/
theorem emit
    (flows : Flows read base labelStack entry middle before code)
    {instruction : Instruction}
    {next : KindStack}
    (effect : instruction.effect read middle = some next)
    (falls : instruction.endsFlow = false → exit = next)
    (jumps : ∀ label : Nat, instruction.target? = some label →
      base ≤ label ∧ label < code.labels.size ∧ labelStack label = next) :
    Flows read base labelStack entry exit before (code.emit instruction) := by
  obtain ⟨position, stackAt, atStart, atEnd, verified⟩ := flows
  have size : (code.emit instruction).position = code.position + 1 := by
    simp [CodeStream.position, CodeStream.emit]
  refine ⟨by omega, fun offset => if offset = code.position + 1 then exit else stackAt offset,
    ?_, ?_, ?_, ?_⟩
  · simp only
    rw [if_neg (by omega), atStart]
  · simp [size]
  · intro offset low high
    rw [size] at high
    rw [if_neg (by omega)]
    by_cases last : offset = code.position
    · subst last
      refine ⟨instruction, next, by simp [CodeStream.emit, CodeStream.position], ?_, ?_, jumps⟩
      · rw [atEnd, effect]
      · intro goesOn
        rw [if_pos rfl, falls goesOn]
    · obtain ⟨found, after, isFound, finds, goesOn, targets⟩ :=
        verified.step offset low (by omega)
      refine ⟨found, after, ?_, finds, ?_, targets⟩
      · simp only [CodeStream.position] at last
        simpa [CodeStream.emit, Array.getElem?_push, last] using isFound
      · intro falls
        rw [if_neg (by omega), goesOn falls]
  · intro label offset inBase placed low
    obtain ⟨inCode, stack⟩ := verified.placed label offset inBase placed low
    rw [if_neg (by omega), size]
    exact ⟨by omega, stack⟩

/-- An instruction that neither branches nor ends the flow may follow. -/
theorem emitPlain
    (flows : Flows read base labelStack entry middle before code)
    {instruction : Instruction}
    (effect : instruction.effect read middle = some exit)
    (noTarget : instruction.target? = none) :
    Flows read base labelStack entry exit before (code.emit instruction) :=
  flows.emit effect (fun _ => rfl) (by simp [noTarget])

/-- A branch target may be made. -/
theorem addLabel
    (flows : Flows read base labelStack entry exit before code) :
    Flows read base labelStack entry exit before code.addLabel := by
  obtain ⟨position, stackAt, atStart, atEnd, verified⟩ := flows
  refine ⟨position, stackAt, atStart, atEnd, ?_, ?_⟩
  · intro offset low high
    obtain ⟨found, next, isFound, finds, goesOn, targets⟩ := verified.step offset low high
    refine ⟨found, next, isFound, finds, goesOn, fun label isTarget => ?_⟩
    obtain ⟨inBase, made, stack⟩ := targets label isTarget
    exact ⟨inBase, by simp only [CodeStream.addLabel, Array.size_push]; omega, stack⟩
  · intro label offset inBase placed low
    refine verified.placed label offset inBase ?_ low
    by_cases new : label = code.labels.size
    · simp [offset?, CodeStream.addLabel, new] at placed
    · simpa [offset?, CodeStream.addLabel, Array.getElem?_push, new] using placed

/-- A branch target that expects the stack at the end may be placed there. -/
theorem place
    (flows : Flows read base labelStack entry exit before code)
    {label : Nat}
    (expects : labelStack label = exit) :
    Flows read base labelStack entry exit before (code.place label) := by
  obtain ⟨position, stackAt, atStart, atEnd, verified⟩ := flows
  refine ⟨position, stackAt, atStart, atEnd, ?_, ?_⟩
  · intro offset low high
    obtain ⟨found, next, isFound, finds, goesOn, targets⟩ := verified.step offset low high
    refine ⟨found, next, isFound, finds, goesOn, fun target isTarget => ?_⟩
    obtain ⟨inBase, made, stack⟩ := targets target isTarget
    exact ⟨inBase, by simpa [CodeStream.place] using made, stack⟩
  · intro other offset inBase placed low
    by_cases same : label = other
    · subst same
      simp only [offset?, CodeStream.place, Array.getElem?_modify, if_true] at placed
      cases found : code.labels[label]? with
      | none =>
          simp [found] at placed
      | some place =>
          simp only [found, Option.map_some, Option.join_some, Option.some.injEq] at placed
          subst placed
          exact ⟨Nat.le_refl _, by rw [expects]; exact atEnd⟩
    · refine verified.placed other offset inBase ?_ low
      simpa [offset?, CodeStream.place, Array.getElem?_modify, same] using placed

/-- Whatever does not touch instructions and branch targets may follow. -/
theorem same
    (flows : Flows read base labelStack entry exit before code)
    (sameInstructions : after.instructions = code.instructions)
    (sameLabels : after.labels = code.labels) :
    Flows read base labelStack entry exit before after := by
  obtain ⟨position, stackAt, atStart, atEnd, verified⟩ := flows
  have samePosition : after.position = code.position := by
    simp [CodeStream.position, sameInstructions]
  have sameOffset : ∀ label, after.offset? label = code.offset? label := by
    simp [offset?, sameLabels]
  refine ⟨by rwa [samePosition], stackAt, atStart, by rwa [samePosition], ?_, ?_⟩
  · rw [samePosition, sameInstructions, sameLabels]
    exact verified.step
  · simp only [samePosition, sameOffset]
    exact verified.placed

theorem congr
    (flows : Flows read base labelStack entry exit before after)
    {others : LabelStacks}
    (agree : ∀ label < after.labels.size, others label = labelStack label) :
    Flows read base others entry exit before after := by
  obtain ⟨position, stackAt, atStart, atEnd, verified⟩ := flows
  refine ⟨position, stackAt, atStart, atEnd, ?_, ?_⟩
  · intro offset low high
    obtain ⟨found, next, isFound, finds, goesOn, targets⟩ := verified.step offset low high
    refine ⟨found, next, isFound, finds, goesOn, fun label isTarget => ?_⟩
    obtain ⟨inBase, made, stack⟩ := targets label isTarget
    exact ⟨inBase, made, by rw [agree label made, stack]⟩
  · intro label offset inBase placed low
    rw [agree label (lt_size_of_offset? placed)]
    exact verified.placed label offset inBase placed low

theorem append
    (earlier : Flows read base labelStack entry middle before code)
    (extends_ : code.Extends after)
    (later : Flows read base labelStack middle exit code after) :
    Flows read base labelStack entry exit before after := by
  obtain ⟨position, first, atStart, atMiddle, verifiedFirst⟩ := earlier
  obtain ⟨position', second, atMiddle', atEnd, verifiedSecond⟩ := later
  refine ⟨by omega, fun offset => if offset < code.position then first offset else second offset,
    ?_, ?_, ?_, ?_⟩
  · simp only
    split
    · exact atStart
    · next notBefore =>
        have isMiddle : before.position = code.position := by omega
        rw [isMiddle, atMiddle', ← atMiddle, ← isMiddle, atStart]
  · simp only
    rw [if_neg (by omega), atEnd]
  · intro offset low high
    by_cases inFirst : offset < code.position
    · obtain ⟨found, next, isFound, finds, goesOn, targets⟩ :=
        verifiedFirst.step offset low inFirst
      refine ⟨found, next, (extends_.instruction offset inFirst).trans isFound, ?_, ?_, ?_⟩
      · rwa [if_pos inFirst]
      · intro falls
        split
        · exact goesOn falls
        · have isMiddle : offset + 1 = code.position := by omega
          rw [isMiddle, atMiddle', ← atMiddle, ← isMiddle, goesOn falls]
      · intro label isTarget
        obtain ⟨inBase, made, stack⟩ := targets label isTarget
        exact ⟨inBase, Nat.lt_of_lt_of_le made extends_.labelCount, stack⟩
    · obtain ⟨found, next, isFound, finds, goesOn, targets⟩ :=
        verifiedSecond.step offset (by omega) high
      refine ⟨found, next, isFound, ?_, ?_, targets⟩
      · rwa [if_neg inFirst]
      · intro falls
        rw [if_neg (by omega), goesOn falls]
  · intro label offset inBase placed low
    by_cases inFirst : offset < code.position
    · have inCode : code.offset? label = some offset := by
        rcases extends_.isNew placed with older | new
        · exact older
        · omega
      rw [if_pos inFirst]
      exact ⟨by omega, (verifiedFirst.placed label offset inBase inCode low).2⟩
    · rw [if_neg inFirst]
      exact verifiedSecond.placed label offset inBase placed (by omega)

end Flows

end CodeStream

end LoopLowering
