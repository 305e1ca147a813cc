import LoopLowering.Code.CodegenError
import LoopLowering.Code.MethodCode
import LoopLowering.Flow.FlowState
import LoopLowering.Locals.MethodScope

namespace LoopLowering

/-!
# Code under construction

Instructions are appended one by one. Beside them a stream keeps where each
branch target is placed, the ranges in which locals have a value, and where the
code of each piece of source starts.
-/

/-- A range of instructions in which a local has a value. It is open until its
end is known. -/
structure LiveRange where
  id : LocalId
  start : Nat
  stop : Option Nat
  deriving Repr, DecidableEq

namespace LiveRange

/-- Whether a range is the open range of a local that passes a test. -/
def isOpenAnd
    (test : LocalId → Bool)
    (range : LiveRange) :
    Bool :=
  range.stop.isNone && test range.id

end LiveRange

/-- The code of a method under construction. -/
structure CodeStream where
  instructions : Array Instruction
  /-- The offset of each branch target that is placed, by label. -/
  labels : Array (Option Nat)
  ranges : Array LiveRange
  positions : Array (Nat × Span)
  deriving Repr, DecidableEq

namespace CodeStream

/-- A stream without code. -/
def empty :
    CodeStream where
  instructions := #[]
  labels := #[]
  ranges := #[]
  positions := #[]

/-- The offset of the next instruction. -/
def position
    (code : CodeStream) :
    Nat :=
  code.instructions.size

/-- Append an instruction. -/
def emit
    (instruction : Instruction)
    (code : CodeStream) :
    CodeStream :=
  { code with instructions := code.instructions.push instruction }

/-- Append instructions in order. -/
def emitAll
    (instructions : List Instruction)
    (code : CodeStream) :
    CodeStream :=
  instructions.foldl (fun code instruction => code.emit instruction) code

/-- The label that the next new branch target gets. -/
def nextLabel
    (code : CodeStream) :
    Label :=
  code.labels.size

/-- Make a new branch target, which is not placed yet. -/
def addLabel
    (code : CodeStream) :
    CodeStream :=
  { code with labels := code.labels.push none }

/-- Place a branch target at the next instruction. -/
def place
    (label : Label)
    (code : CodeStream) :
    CodeStream :=
  { code with labels := code.labels.modify label (fun _ => some code.position) }

/-- Whether control cannot reach the next instruction: the last one never goes
on to it, and no branch target is placed there. -/
def isTerminated
    (code : CodeStream) :
    Bool :=
  code.instructions.back?.any Instruction.endsFlow && !code.labels.contains (some code.position)

/-- Whether a local has an open range. -/
def isLive
    (id : LocalId)
    (code : CodeStream) :
    Bool :=
  code.ranges.any (LiveRange.isOpenAnd (fun other => other == id))

/-- Open the range of a local that has a slot and no open range. -/
def openLocal
    (scope : MethodScope)
    (id : LocalId)
    (code : CodeStream) :
    CodeStream :=
  if (scope.localAt id).slot.isSome && !code.isLive id then
    { code with ranges := code.ranges.push ⟨id, code.position, none⟩ }
  else
    code

/-- Close the open ranges of the locals that pass a test. -/
def closeWhere
    (test : LocalId → Bool)
    (code : CodeStream) :
    CodeStream :=
  { code with
    ranges := code.ranges.map (fun range =>
      if range.isOpenAnd test then { range with stop := some code.position } else range) }

/-- Close the range of a local. -/
def closeLocal
    (id : LocalId)
    (code : CodeStream) :
    CodeStream :=
  code.closeWhere (fun other => other == id)

/-- Close the ranges of every local declared in a block scope or inside it. -/
def exitScope
    (scope : MethodScope)
    (block : ScopeId)
    (code : CodeStream) :
    CodeStream :=
  code.closeWhere (fun id => scope.isWithin (scope.localAt id).scope block)

/-- Whether the range of a local follows the flow states: it is a source local
other than a parameter, has a slot and is visible in a block scope. -/
def followsFlow
    (scope : MethodScope)
    (block : ScopeId)
    (id : LocalId) :
    Bool :=
  let entry := scope.localAt id
  entry.slot.isSome && !entry.isSynthetic && !entry.isParam && scope.isWithin block entry.scope

/-- Open the ranges of the locals that are assigned in a flow state some path
reaches. -/
def openAssigned
    (scope : MethodScope)
    (block : ScopeId)
    (flow : FlowState)
    (code : CodeStream) :
    CodeStream :=
  if flow.reachable then
    ((List.range scope.locals.size).filter (fun id =>
        followsFlow scope block id && flow.isAssigned id)).foldl
      (fun code id => code.openLocal scope id) code
  else
    code

/-- Close the ranges of the locals that are not assigned in a flow state. -/
def closeUnassigned
    (scope : MethodScope)
    (block : ScopeId)
    (flow : FlowState)
    (code : CodeStream) :
    CodeStream :=
  code.closeWhere (fun id => followsFlow scope block id && !flow.isAssigned id)

/-- The frame slot of a local. -/
def slotOf
    (scope : MethodScope)
    (id : LocalId) :
    Except CodegenError UInt16 :=
  match (scope.localAt id).slot with
  | some slot => .ok slot
  | none => .error (.noFrameSlot (scope.localAt id).name)

/-- The kind of the values of a local. -/
def kindOf
    (scope : MethodScope)
    (id : LocalId) :
    ValueKind :=
  .ofTy (scope.localAt id).type

/-- Push the value of a local. -/
def load
    (scope : MethodScope)
    (id : LocalId)
    (code : CodeStream) :
    Except CodegenError CodeStream := do
  let slot ← slotOf scope id
  return code.emit (.load (kindOf scope id) slot)

/-- Pop a value into a local, which opens its range; a copy stays on the stack
if it is kept. -/
def store
    (scope : MethodScope)
    (id : LocalId)
    (keep : Bool)
    (code : CodeStream) :
    Except CodegenError CodeStream := do
  let slot ← slotOf scope id
  let kind := kindOf scope id
  let copied :=
    if keep then code.emit (if kind.isWide then .dup2 else .dup) else code
  return (copied.emit (.store kind slot)).openLocal scope id

/-- Add a constant to an integer local. -/
def increment
    (scope : MethodScope)
    (id : LocalId)
    (delta : Int16)
    (code : CodeStream) :
    Except CodegenError CodeStream := do
  let slot ← slotOf scope id
  return code.emit (.increment slot delta)

/-- Convert a primitive value. Types with the same kind of values need no
instruction. -/
def convert
    (source target : Primitive)
    (code : CodeStream) :
    CodeStream :=
  let sourceKind := ValueKind.ofPrimitive source
  let targetKind := ValueKind.ofPrimitive target
  if sourceKind = targetKind then code else code.emit (.convert sourceKind targetKind)

/-- Drop a value. -/
def popValue
    (kind : ValueKind)
    (code : CodeStream) :
    CodeStream :=
  code.emit (if kind.isWide then .pop2 else .pop)

/-- Attribute the code from an offset on to a source range, if there is any. -/
def markSource
    (start : Nat)
    (span : Span)
    (code : CodeStream) :
    CodeStream :=
  if start < code.position then
    { code with positions := code.positions.push (start, span) }
  else
    code

end CodeStream

end LoopLowering
