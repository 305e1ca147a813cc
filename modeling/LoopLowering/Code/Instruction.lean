import LoopLowering.Source.Handles
import LoopLowering.Text.Quoted
import LoopLowering.Types.Ty

namespace LoopLowering

/-!
# Instructions

The instructions of the stack machine that methods are lowered to, and their
text in a listing. Most instructions exist once for each kind of value.
-/

/-- A kind of value on the operand stack. -/
inductive ValueKind where
  | int
  | long
  | float
  | double
  | reference
  deriving Repr, DecidableEq

namespace ValueKind

/-- The kind of the values of a primitive type. -/
def ofPrimitive :
    Primitive → ValueKind
  | .long => long
  | .float => float
  | .double => double
  | .boolean | .byte | .short | .char | .int => int

/-- The kind of the values of a type. -/
def ofTy :
    Ty → ValueKind
  | .primitive kind => ofPrimitive kind
  | _ => reference

/-- The letter of a kind in the names of instructions. -/
def letter :
    ValueKind → String
  | int => "i"
  | long => "l"
  | float => "f"
  | double => "d"
  | reference => "a"

/-- Whether a value takes two stack words. -/
def isWide :
    ValueKind → Bool
  | long | double => true
  | _ => false

end ValueKind

/-- A kind of array component. -/
inductive ArrayKind where
  | int
  | long
  | float
  | double
  | reference
  /-- Bytes and truth values. -/
  | byte
  | char
  | short
  deriving Repr, DecidableEq

namespace ArrayKind

/-- The kind of the components of a type. -/
def ofTy :
    Ty → ArrayKind
  | .primitive .int => int
  | .primitive .long => long
  | .primitive .float => float
  | .primitive .double => double
  | .primitive .byte | .primitive .boolean => byte
  | .primitive .char => char
  | .primitive .short => short
  | _ => reference

/-- The letter of a kind in the names of instructions. -/
def letter :
    ArrayKind → String
  | int => "i"
  | long => "l"
  | float => "f"
  | double => "d"
  | reference => "a"
  | byte => "b"
  | char => "c"
  | short => "s"

end ArrayKind

/-- A condition on the order of two values, or of one value and zero. -/
inductive Condition where
  | eq
  | ne
  | lt
  | ge
  | gt
  | le
  deriving Repr, DecidableEq

namespace Condition

/-- The condition that holds when another does not. -/
def negate :
    Condition → Condition
  | eq => ne
  | ne => eq
  | lt => ge
  | ge => lt
  | gt => le
  | le => gt

/-- The name of a condition. -/
def name :
    Condition → String
  | eq => "eq"
  | ne => "ne"
  | lt => "lt"
  | ge => "ge"
  | gt => "gt"
  | le => "le"

/-- Every condition, once. -/
def all :
    List Condition :=
  [eq, ne, lt, ge, gt, le]

end Condition

/-- How the method of a call is found. -/
inductive InvokeKind where
  | static
  | virtual
  | interface
  deriving Repr, DecidableEq

namespace InvokeKind

/-- The name of a way to find a method. -/
def name :
    InvokeKind → String
  | static => "static"
  | virtual => "virtual"
  | interface => "interface"

end InvokeKind

/-- A method as an instruction refers to it. -/
structure MethodRef where
  /-- The internal name of the declaring class. -/
  owner : String
  name : String
  descriptor : String
  deriving Repr, DecidableEq

namespace MethodRef

/-- The text of a method in a listing. -/
def text
    (method : MethodRef) :
    String :=
  method.owner ++ "." ++ method.name ++ method.descriptor

end MethodRef

/-- An arithmetic operation. -/
inductive ArithOp where
  | add
  | sub
  | mul
  deriving Repr, DecidableEq

namespace ArithOp

/-- The name of an operation. -/
def name :
    ArithOp → String
  | add => "add"
  | sub => "sub"
  | mul => "mul"

end ArithOp

/-- The name of a branch target. -/
def Label.text
    (label : Label) :
    String :=
  "L" ++ toString label

/-- An instruction. -/
inductive Instruction where
  | intConst (value : Int32)
  | stringConst (value : String)
  | nullConst
  | load (kind : ValueKind) (slot : UInt16)
  | store (kind : ValueKind) (slot : UInt16)
  | arrayLength
  | arrayLoad (kind : ArrayKind)
  | arrayStore (kind : ArrayKind)
  | newArray (component : Primitive)
  | newReferenceArray (component : String)
  | dup
  | dup2
  | pop
  | pop2
  /-- Add a constant to an integer local. -/
  | increment (slot : UInt16) (delta : Int16)
  | arith (op : ArithOp) (kind : ValueKind)
  /-- Order two values that are not integers; a comparison with a value that is
  not a number yields the greater result or the lesser one. -/
  | compare (kind : ValueKind) (nanGreater : Bool)
  /-- Branch on an integer and zero. -/
  | branchIf (condition : Condition) (label : Label)
  | branchIfInts (condition : Condition) (label : Label)
  | branchIfReferences (condition : Condition) (label : Label)
  | goto (label : Label)
  | invoke (kind : InvokeKind) (method : MethodRef)
  | checkCast (type : String)
  | convert (source target : ValueKind)
  | returnWith (kind : Option ValueKind)
  deriving Repr, DecidableEq

namespace Instruction

/-- The branch target of an instruction that can branch. -/
def target? :
    Instruction → Option Label
  | .branchIf _ label | .branchIfInts _ label | .branchIfReferences _ label | .goto label =>
      some label
  | _ => none

/-- Whether control never goes on to the next instruction. -/
def endsFlow :
    Instruction → Bool
  | .goto _ | .returnWith _ => true
  | _ => false

/-- The name of an instruction. -/
def mnemonic :
    Instruction → String
  | .intConst _ => "iconst"
  | .stringConst _ => "ldc"
  | .nullConst => "aconst_null"
  | .load kind _ => kind.letter ++ "load"
  | .store kind _ => kind.letter ++ "store"
  | .arrayLength => "arraylength"
  | .arrayLoad kind => kind.letter ++ "aload"
  | .arrayStore kind => kind.letter ++ "astore"
  | .newArray _ => "newarray"
  | .newReferenceArray _ => "anewarray"
  | .dup => "dup"
  | .dup2 => "dup2"
  | .pop => "pop"
  | .pop2 => "pop2"
  | .increment .. => "iinc"
  | .arith op kind => kind.letter ++ op.name
  | .compare .long _ => "lcmp"
  | .compare kind nanGreater => kind.letter ++ "cmp" ++ if nanGreater then "g" else "l"
  | .branchIf condition _ => "if" ++ condition.name
  | .branchIfInts condition _ => "if_icmp" ++ condition.name
  | .branchIfReferences condition _ => "if_acmp" ++ condition.name
  | .goto _ => "goto"
  | .invoke kind _ => "invoke" ++ kind.name
  | .checkCast _ => "checkcast"
  | .convert source target => source.letter ++ "2" ++ target.letter
  | .returnWith none => "return"
  | .returnWith (some kind) => kind.letter ++ "return"

/-- The operands of an instruction that are not part of its name. -/
def operands :
    Instruction → List String
  | .intConst value => [toString value.toInt]
  | .stringConst value => [Text.quoted value]
  | .load _ slot | .store _ slot => [toString slot.toNat]
  | .newArray component => [component.name]
  | .newReferenceArray name | .checkCast name => [name]
  | .increment slot delta => [toString slot.toNat, toString delta.toInt]
  | .branchIf _ label | .branchIfInts _ label | .branchIfReferences _ label | .goto label =>
      [label.text]
  | .invoke _ method => [method.text]
  | _ => []

/-- The text of an instruction in a listing. -/
def text
    (instruction : Instruction) :
    String :=
  String.intercalate " " (instruction.mnemonic :: instruction.operands)

end Instruction

end LoopLowering
