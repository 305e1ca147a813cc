import LoopLowering.Code.CodegenError
import LoopLowering.MethodState
import LoopLowering.Types.Operators
import LoopLowering.Types.Resolve
import LoopLowering.Types.Supertypes

namespace LoopLowering

/-!
# Types of resolved expressions

Code generation asks for the type of an expression whose names are bound. It is
computed from the bindings, because resolution does not record it. The written
component type of an array is resolved without type variables.
-/

/-- What code generation knows about the method it works on. -/
structure CodeContext where
  table : ClassTable
  state : MethodState

namespace CodeContext

/-- The locals of the method. -/
def scope
    (context : CodeContext) :
    MethodScope :=
  context.state.scope

/-- The local of a number. -/
def localAt
    (context : CodeContext)
    (id : LocalId) :
    LocalVariable :=
  context.state.localAt id

/-- Whether a local exists in the code. -/
def hasSlot
    (context : CodeContext)
    (id : LocalId) :
    Bool :=
  (context.localAt id).slot.isSome

/-- The local a name is bound to. -/
def bindingOf
    (ref : NameRef) :
    Except CodegenError LocalId :=
  match ref.binding with
  | some id => .ok id
  | none => .error (.nameUnbound ref.name)

/-- The type of the local that a name is bound to; that of an unbound name is
unknown. -/
def boundType
    (context : CodeContext)
    (binding : Option LocalId) :
    Ty :=
  match binding with
  | some id => (context.localAt id).type
  | none => .unknown

/-- The type of an expression whose names are bound. -/
def exprType
    (context : CodeContext) :
    Expr → Ty
  | .intLit .. => .int
  | .boolLit .. => .boolean
  | .stringLit .. => .string
  | .null _ => .null
  | .name _ ref => context.boundType ref.binding
  | .newArray _ component _ =>
      match context.table.resolve [] component with
      | .ok ty => .array ty
      | .error _ => .unknown
  | .binary _ op left right =>
      (op.resultType? (context.exprType left) (context.exprType right)).getD .unknown
  | .assign _ target _ _ => context.boundType target.node.binding
  | .call _ function _ =>
      match context.table.function? function.node with
      | some info => info.signature.returnType
      | none => .unknown
  | .methodCall _ receiver method _ =>
      match context.table.lookupMethod (context.exprType receiver) method.node with
      | some found => found.seen.returnType
      | none => .unknown

end CodeContext

end LoopLowering
