import LoopLowering.Proofs.Machine.StackMaps
import LoopLowering.Syntax.Tree
import Mathlib.Logic.Function.Basic

namespace LoopLowering

/-!
# Values, memory and calls

What an execution computes with: integers that wrap around, references, the
arrays behind the references, and the calls that are made. A truth value is an
integer, zero if it is false. What a call answers comes from outside, which sees
every call that has been made and may change every array.
-/

/-- What a reference refers to. -/
inductive Reference where
  | null
  /-- The string that a literal stands for. -/
  | text (value : String)
  /-- An object that comes from outside. -/
  | given (number : Nat)
  /-- An array that the execution has created. -/
  | created (number : Nat)
  deriving Repr, DecidableEq

/-- A value of an integer type or of a reference type. -/
inductive Word where
  | int (value : Int32)
  | reference (value : Reference)
  deriving Repr, DecidableEq

namespace Word

/-- The kind of a value. -/
def kind :
    Word → ValueKind
  | .int _ => .int
  | .reference _ => .reference

/-- A truth value. -/
def truth
    (value : Bool) :
    Word :=
  .int (if value then 1 else 0)

@[simp] theorem kind_truth
    (value : Bool) :
    (truth value).kind = .int :=
  rfl

/-- A value of the kind of integers is one. -/
theorem exists_int
    {word : Word}
    (isInt : word.kind = .int) :
    ∃ value, word = .int value := by
  cases word with
  | int value =>
      exact ⟨value, rfl⟩
  | reference value =>
      cases isInt

/-- A value of the kind of references is one. -/
theorem exists_reference
    {word : Word}
    (isReference : word.kind = .reference) :
    ∃ value, word = .reference value := by
  cases word with
  | int value =>
      cases isReference
  | reference value =>
      exact ⟨value, rfl⟩

end Word

/-- A value of which the type is not known: it is the one or the other, as the
type says. -/
structure Datum where
  int : Int32
  reference : Reference
  deriving Repr, DecidableEq

namespace Datum

/-- The value of a kind. -/
def word
    (datum : Datum) :
    ValueKind → Word
  | .int => .int datum.int
  | _ => .reference datum.reference

/-- Put a value of either type in the place of the one there. -/
def put
    (datum : Datum) :
    Word → Datum
  | .int value => { datum with int := value }
  | .reference value => { datum with reference := value }

/-- What a place holds before anything is put there. -/
def initial :
    Datum :=
  ⟨0, .null⟩

/-- A value of one of the two kinds is of that kind. -/
theorem kind_word
    {kind : ValueKind}
    (isWord : kind = .int ∨ kind = .reference)
    (datum : Datum) :
    (datum.word kind).kind = kind := by
  rcases isWord with rfl | rfl <;> rfl

end Datum

/-- An array. Its length fits in an integer. -/
structure ArrayObject where
  length : Nat
  bounded : length < 0x80000000
  element : Nat → Datum

namespace ArrayObject

/-- A new array. -/
def blank
    (length : Nat)
    (bounded : length < 0x80000000) :
    ArrayObject where
  length := length
  bounded := bounded
  element := fun _ => .initial

/-- Put a value in an array. -/
def put
    (object : ArrayObject)
    (index : Nat)
    (word : Word) :
    ArrayObject where
  length := object.length
  bounded := object.bounded
  element := Function.update object.element index ((object.element index).put word)

end ArrayObject

/-- A call with its arguments. Which method an instance call finds depends on its
receiver. -/
inductive Call where
  | function (function : MethodRef) (arguments : List Word)
  | method (name descriptor : String) (receiver : Reference) (arguments : List Word)
  deriving Repr, DecidableEq

/-- The arrays that there are, how many of them the execution has created, and
the calls that it has made, the latest one last. -/
structure Memory where
  arrays : Reference → ArrayObject
  created : Nat
  calls : List Call

namespace Memory

/-- Put an array behind a reference. -/
def setArray
    (memory : Memory)
    (reference : Reference)
    (object : ArrayObject) :
    Memory :=
  { memory with arrays := Function.update memory.arrays reference object }

/-- The reference to the array that is created next. -/
def next
    (memory : Memory) :
    Reference :=
  .created memory.created

/-- Create an array. -/
def create
    (memory : Memory)
    (length : Nat)
    (bounded : length < 0x80000000) :
    Memory :=
  { memory.setArray memory.next (.blank length bounded) with created := memory.created + 1 }

/-- Only the length of an array that is created matters. -/
theorem create_congr
    (memory : Memory)
    {length other : Nat}
    (same : length = other)
    (bounded : length < 0x80000000)
    (otherBounded : other < 0x80000000) :
    memory.create length bounded = memory.create other otherBounded := by
  subst same
  rfl

/-- Put a value in an array. -/
def store
    (memory : Memory)
    (reference : Reference)
    (index : Nat)
    (word : Word) :
    Memory :=
  memory.setArray reference ((memory.arrays reference).put index word)

/-- Record a call. -/
def record
    (memory : Memory)
    (call : Call) :
    Memory :=
  { memory with calls := memory.calls ++ [call] }

end Memory

/-- What a call answers: its result, and what the arrays are then. -/
structure Reply where
  result : Datum
  arrays : Reference → ArrayObject

/-- What an execution finds outside: its arguments, the arrays that there are,
and a reply to every call, given what there is when the call is made. -/
structure Outside where
  arguments : Nat → Datum
  arrays : Reference → ArrayObject
  reply : Memory → Reply

namespace Outside

/-- The memory that an execution starts with. -/
def memory
    (outside : Outside) :
    Memory where
  arrays := outside.arrays
  created := 0
  calls := []

/-- Make a call. -/
def answer
    (outside : Outside)
    (call : Call)
    (memory : Memory) :
    Datum × Memory :=
  let reply := outside.reply (memory.record call)
  (reply.result, { memory.record call with arrays := reply.arrays })

@[simp] theorem calls_answer
    (outside : Outside)
    (call : Call)
    (memory : Memory) :
    (outside.answer call memory).2.calls = memory.calls ++ [call] :=
  rfl

end Outside

namespace Condition

/-- Whether a condition holds of two integers. -/
def holds :
    Condition → Int32 → Int32 → Bool
  | .eq, left, right => left == right
  | .ne, left, right => left != right
  | .lt, left, right => decide (left < right)
  | .ge, left, right => decide (right ≤ left)
  | .gt, left, right => decide (right < left)
  | .le, left, right => decide (left ≤ right)

/-- Whether a condition holds of two references, which have no order. -/
def holdsOf :
    Condition → Reference → Reference → Bool
  | .eq, left, right => left == right
  | .ne, left, right => left != right
  | _, _, _ => false

/-- Whether a condition tests for equality. -/
def isEquality :
    Condition → Bool
  | .eq | .ne => true
  | _ => false

@[simp] theorem holds_negate
    (condition : Condition)
    (left right : Int32) :
    condition.negate.holds left right = !condition.holds left right := by
  cases condition with
  | eq | ne =>
      simp [negate, holds, bne]
  | lt | gt =>
      simp only [negate, holds, ← decide_not, Int32.not_lt]
  | le | ge =>
      simp only [negate, holds, ← decide_not, Int32.not_le]

/-- The negation of an equality test holds of two references where the test does
not. -/
theorem holdsOf_negate
    {condition : Condition}
    (isEquality : condition.isEquality = true)
    (left right : Reference) :
    condition.negate.holdsOf left right = !condition.holdsOf left right := by
  cases condition <;> simp_all [Condition.isEquality, negate, holdsOf, bne]

end Condition

namespace ArithOp

/-- The result of an operation on two integers. -/
def result :
    ArithOp → Int32 → Int32 → Int32
  | .add, left, right => left + right
  | .sub, left, right => left - right
  | .mul, left, right => left * right

end ArithOp

end LoopLowering
