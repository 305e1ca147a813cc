import LoopLowering.Diagnostic.Diagnostic
import LoopLowering.Flow.JumpStack
import LoopLowering.Loop.Classify
import LoopLowering.Types.Resolve

namespace LoopLowering

/-!
# Issues

Everything the passes can find wrong with a method, with the category, the
severity and the wording of each.
-/

/-- Something found wrong with a method. -/
inductive Issue where
  | unknownType (cause : TypeError)
  | duplicateLocal (name : String)
  | undefinedVariable (name : String)
  | undefinedFunction (name : String)
  | undefinedMethod (name : String) (receiver : Ty)
  | argumentCount (name : String) (expected given : Nat)
  | notConvertible (source target : Ty)
  | elementNotConvertible (element declared : Ty)
  | operatorUndefined (op : BinOp) (left right : Ty)
  | compoundUndefined (op : BinOp) (target value : Ty)
  | valueReturnedFromVoid
  | resultRequired (expected : Ty)
  | collectionInvalid (cause : ClassifyError)
  | boxed (severity : Severity) (element declared : Ty)
  | unboxed (severity : Severity) (element declared : Ty)
  | unreachableCode
  | uninitialized (name : String)
  | finalReassigned (name : String)
  | nullExpression
  | nullLocal (name : String)
  | potentiallyNullLocal (name : String)
  | jumpInvalid (cause : JumpError)
  deriving Repr

namespace Issue

/-- The category of an issue. -/
def problem :
    Issue → Problem
  | .unknownType _ => .unknownType
  | .duplicateLocal _ => .duplicateLocal
  | .undefinedVariable _ | .undefinedFunction _ | .undefinedMethod .. => .undefinedName
  | .argumentCount .. | .notConvertible .. | .elementNotConvertible .. | .operatorUndefined ..
  | .compoundUndefined .. | .valueReturnedFromVoid | .resultRequired _ => .typeMismatch
  | .collectionInvalid _ => .invalidCollection
  | .boxed .. | .unboxed .. => .autoboxing
  | .unreachableCode => .unreachable
  | .uninitialized _ => .uninitialized
  | .finalReassigned _ => .finalReassignment
  | .nullExpression | .nullLocal _ => .nullReference
  | .potentiallyNullLocal _ => .potentialNull
  | .jumpInvalid _ => .invalidJump

/-- The severity of an issue. -/
def severity :
    Issue → Severity
  | .boxed severity _ _ | .unboxed severity _ _ => severity
  | .potentiallyNullLocal _ => .warning
  | _ => .error

/-- The text of an issue. -/
def message :
    Issue → String
  | .unknownType cause => cause.message
  | .duplicateLocal name => "Duplicate local variable " ++ name
  | .undefinedVariable name => name ++ " cannot be resolved to a variable"
  | .undefinedFunction name => "The method " ++ name ++ "() is undefined"
  | .undefinedMethod name receiver =>
      "The method " ++ name ++ "() is undefined for the type " ++ receiver.text
  | .argumentCount name expected given =>
      "The method " ++ name ++ " expects " ++ toString expected ++ " argument(s) but got " ++
        toString given
  | .notConvertible source target =>
      "Type mismatch: cannot convert from " ++ source.text ++ " to " ++ target.text
  | .elementNotConvertible element declared =>
      "Type mismatch: cannot convert from element type " ++ element.text ++ " to " ++ declared.text
  | .operatorUndefined op left right =>
      "The operator " ++ op.symbol ++ " is undefined for the argument type(s) " ++ left.text ++
        ", " ++ right.text
  | .compoundUndefined op target value =>
      "The operator " ++ op.symbol ++ "= is undefined for the argument type(s) " ++ target.text ++
        ", " ++ value.text
  | .valueReturnedFromVoid => "Void methods cannot return a value"
  | .resultRequired expected => "This method must return a result of type " ++ expected.text
  | .collectionInvalid cause => cause.message
  | .boxed _ element declared =>
      "The expression of type " ++ element.text ++ " is boxed into " ++ declared.text
  | .unboxed _ element declared =>
      "The expression of type " ++ element.text ++ " is unboxed into " ++ declared.text
  | .unreachableCode => "Unreachable code"
  | .uninitialized name => "The local variable " ++ name ++ " may not have been initialized"
  | .finalReassigned name =>
      "The final local variable " ++ name ++ " may already have been assigned"
  | .nullExpression => "Null pointer access: This expression can only be null"
  | .nullLocal name =>
      "Null pointer access: The variable " ++ name ++ " can only be null at this location"
  | .potentiallyNullLocal name =>
      "Potential null pointer access: The variable " ++ name ++ " may be null at this location"
  | .jumpInvalid cause => cause.message

/-- The diagnostic that reports an issue at a position. -/
def diagnostic
    (issue : Issue)
    (span : Span) :
    Diagnostic where
  problem := issue.problem
  severity := issue.severity
  message := issue.message
  span := span

end Issue

end LoopLowering
