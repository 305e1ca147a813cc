import LoopLowering.Syntax.Tree

namespace LoopLowering

/-!
# Types of operators

Arithmetic works on numbers after promotion, comparison on numbers, and
equality also on two truth values or two references.
-/

namespace BinOp

/-- Whether an operator tests for equality. -/
def isEquality :
    BinOp → Bool
  | eq | ne => true
  | _ => false

/-- The numeric type in which an operator works on two operands. -/
def operandType? :
    Ty → Ty → Option Primitive
  | .primitive left, .primitive right =>
      if left.isNumeric && right.isNumeric then some (left.promote right) else none
  | _, _ => none

/-- The result type of an operator that is not arithmetic on numbers. -/
def equalityResult?
    (op : BinOp) :
    Ty → Ty → Option Ty
  | .primitive .boolean, .primitive .boolean => if op.isEquality then some .boolean else none
  | left, right =>
      if left.isReference && right.isReference && op.isEquality then some .boolean else none

/-- The result type of an operator, or nothing when it does not apply. An
operand that failed to resolve makes the result fail silently. -/
def resultType?
    (op : BinOp)
    (left right : Ty) :
    Option Ty :=
  if left.isUnknown || right.isUnknown then
    some .unknown
  else
    match operandType? left right with
    | some operand => some (if op.isComparison then .boolean else .primitive operand)
    | none => op.equalityResult? left right

end BinOp

end LoopLowering
