import LoopLowering.Code.Instruction
import LoopLowering.Source.Span

namespace LoopLowering

/-!
# The code of a method

The result of lowering a method: its instructions, the offset of each branch
target, the table of source locals, and where the code of each piece of source
starts.
-/

/-- The range of instructions in which a source local has a value. -/
structure LocalRange where
  name : String
  slot : UInt16
  start : Nat
  stop : Nat
  deriving Repr, DecidableEq

/-- The code of a method. -/
structure MethodCode where
  name : String
  instructions : Array Instruction
  /-- The offset of each branch target, by label. -/
  labels : Array Nat
  /-- The number of frame slots. -/
  maxLocals : UInt16
  locals : List LocalRange
  /-- Offsets at which the code of a source range starts. -/
  positions : List (Nat × Span)
  deriving Repr, DecidableEq

namespace MethodCode

/-- The names of the instructions. -/
def mnemonics
    (code : MethodCode) :
    List String :=
  code.instructions.toList.map Instruction.mnemonic

/-- The instructions as text. -/
def lines
    (code : MethodCode) :
    List String :=
  code.instructions.toList.map Instruction.text

/-- The number of instructions of a name. -/
def count
    (code : MethodCode)
    (mnemonic : String) :
    Nat :=
  code.mnemonics.count mnemonic

/-- The offset of a branch target. -/
def labelPosition?
    (code : MethodCode)
    (label : Label) :
    Option Nat :=
  code.labels[label]?

/-- The branch of an instruction, if its target is not after it. -/
def backEdgeAt?
    (code : MethodCode)
    (offset : Nat)
    (instruction : Instruction) :
    Option (Nat × Label) := do
  let label ← instruction.target?
  let target ← code.labelPosition? label
  if target ≤ offset then some (offset, label) else none

/-- The branches whose target is not after them. -/
def backEdges
    (code : MethodCode) :
    List (Nat × Label) :=
  code.instructions.toList.zipIdx.filterMap
    (fun (instruction, offset) => code.backEdgeAt? offset instruction)

/-- The labels placed at an offset, in ascending order. -/
def labelsAt
    (code : MethodCode)
    (offset : Nat) :
    List Label :=
  (code.labels.toList.zipIdx.filter (fun (position, _) => position == offset)).map Prod.snd

/-- The lines of a listing for one offset. The offset after the last
instruction has labels only. -/
def linesAt
    (code : MethodCode)
    (offset : Nat) :
    List String :=
  (code.labelsAt offset).map (fun label => "  " ++ label.text ++ ":\n") ++
    (code.instructions[offset]?.toList.map (fun instruction =>
      "    " ++ instruction.text ++ "\n"))

/-- The listing of a method. -/
def listing
    (code : MethodCode) :
    String :=
  code.name ++ " (max_locals=" ++ toString code.maxLocals.toNat ++ "):\n" ++
    String.join ((List.range (code.instructions.size + 1)).flatMap code.linesAt)

end MethodCode

end LoopLowering
