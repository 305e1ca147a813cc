import LoopLowering.Source.Handles
import LoopLowering.Syntax.Tree
import LoopLowering.Text.Visible
import LoopLowering.Types.Resolve

namespace LoopLowering

/-!
# Failures of code generation

Code is generated also for methods with errors, and then a part of the method
may turn out to have no code. On a method without errors none of these failures
is expected.
-/

/-- Why a method has no code. -/
inductive CodegenError where
  | parameterUnbound (name : String)
  | nameUnbound (name : String)
  | localUnbound (name : String)
  | noFrameSlot (name : String)
  | breakWithoutTarget
  | continueWithoutTarget
  | operatorUndefined (op : BinOp) (left right : Ty)
  | compoundUndefined (op : BinOp) (target value : Ty)
  | compoundTarget (target : Ty)
  | notArithmetic (op : BinOp)
  | notComparison (op : BinOp)
  | unknownFunction (name : String)
  | unknownMethod (name : String) (receiver : Ty)
  | componentUnresolved (cause : TypeError)
  | arrayTooLarge
  | labelNotPlaced (label : Label) (method : String)
  | loopUnresolved (element : String)
  | loopWithoutScope
  deriving Repr, DecidableEq

namespace CodegenError

/-- The text of a failure. -/
def message :
    CodegenError → String
  | .parameterUnbound name => "parameter '" ++ name ++ "' was never bound"
  | .nameUnbound name => "name '" ++ name ++ "' was never bound"
  | .localUnbound name => "local '" ++ name ++ "' was never bound"
  | .noFrameSlot name => "local '" ++ Text.trimmed name ++ "' has no frame slot"
  | .breakWithoutTarget => "break has no enclosing target"
  | .continueWithoutTarget => "continue has no enclosing loop with a continue target"
  | .operatorUndefined op left right =>
      "operator " ++ op.symbol ++ " on " ++ left.text ++ ", " ++ right.text
  | .compoundUndefined op target value =>
      "operator " ++ op.symbol ++ "= on " ++ target.text ++ ", " ++ value.text
  | .compoundTarget target => "compound assignment to " ++ target.text
  | .notArithmetic op => op.symbol ++ " is not arithmetic"
  | .notComparison op => op.symbol ++ " is not a comparison"
  | .unknownFunction name => "unknown function '" ++ name ++ "'"
  | .unknownMethod name receiver => "unknown method '" ++ name ++ "' on " ++ receiver.text
  | .componentUnresolved cause => cause.message
  | .arrayTooLarge => "array initializer too large"
  | .labelNotPlaced label method =>
      "label L" ++ toString label ++ " was never placed in '" ++ method ++ "'"
  | .loopUnresolved element =>
      "for-each over '" ++ element ++ "' reached code generation unresolved"
  | .loopWithoutScope => "for-each loop has no scope"

end CodegenError

end LoopLowering
