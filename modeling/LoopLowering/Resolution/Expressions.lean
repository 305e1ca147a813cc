import LoopLowering.Resolution.Names
import LoopLowering.Types.Operators

namespace LoopLowering

/-!
# Resolving expressions

Every name in an expression is bound, every type is resolved, and the type of
the expression is found. Something that fails to resolve has the unknown type,
about which nothing further is reported.
-/

/-- Expressions after resolution, with their types and the state that follows. -/
structure CheckedList where
  nodes : List Expr
  types : List Ty
  state : MethodState

/-- Check argument values against parameter types, one by one. -/
def checkArgumentTypes
    (table : ClassTable) :
    List Ty → List Ty → List Expr → MethodState → MethodState
  | param :: params, given :: types, arg :: args, state =>
      checkArgumentTypes table params types args
        (checkConverts table given param arg.span state)
  | _, _, _, state => state

/-- Check the arguments of a call against the parameters of what it calls. -/
def checkArguments
    (table : ClassTable)
    (name : String)
    (params types : List Ty)
    (args : List Expr)
    (span : Span)
    (state : MethodState) :
    MethodState :=
  if params.length = types.length then
    checkArgumentTypes table params types args state
  else
    state.report (.argumentCount name params.length types.length) span

/-- Whether a compound assignment computes a value its target can hold. -/
def compoundApplies
    (op : BinOp)
    (target value : Ty) :
    Bool :=
  !op.isComparison &&
    match op.resultType? target value with
    | some result => result.isPrimitive || result.isUnknown
    | none => false

/-- Check the value of an assignment against the type of its target. -/
def checkAssignedValue
    (table : ClassTable)
    (op : Option BinOp)
    (target value : Ty)
    (span valueSpan : Span)
    (state : MethodState) :
    MethodState :=
  match op with
  | none => checkConverts table value target valueSpan state
  | some op =>
      state.reportIf (!compoundApplies op target value) (.compoundUndefined op target value) span

mutual

/-- Resolve an expression in a scope. -/
def checkExpr
    (table : ClassTable)
    (scope : ScopeId) :
    Expr → MethodState → Checked Expr
  | .intLit span value, state => ⟨.intLit span value, .int, state⟩
  | .boolLit span value, state => ⟨.boolLit span value, .boolean, state⟩
  | .stringLit span value, state => ⟨.stringLit span value, .string, state⟩
  | .null span, state => ⟨.null span, .null, state⟩
  | .name span ref, state =>
      let bound := bindName scope span ref state
      let used := markUse bound.1.binding bound.2
      ⟨.name span bound.1, bindingType used bound.1.binding, used⟩
  | .newArray span component elements, state =>
      let resolved := resolveType table component state
      let checked := checkElements table scope resolved.1 elements resolved.2
      ⟨.newArray span component checked.nodes, .array resolved.1, checked.state⟩
  | .binary span op left right, state =>
      let left := checkExpr table scope left state
      let right := checkExpr table scope right left.state
      let node := Expr.binary span op left.node right.node
      match op.resultType? left.type right.type with
      | some type => ⟨node, type, right.state⟩
      | none =>
          ⟨node, .unknown, right.state.report (.operatorUndefined op left.type right.type) span⟩
  | .assign span target op value, state =>
      let bound := bindName scope target.span target.node state
      let used := if op.isSome then markUse bound.1.binding bound.2 else bound.2
      let value := checkExpr table scope value used
      let node := Expr.assign span ⟨bound.1, target.span⟩ op value.node
      match bound.1.binding with
      | none => ⟨node, .unknown, value.state⟩
      | some id =>
          let type := (value.state.localAt id).type
          ⟨node, type,
            checkAssignedValue table op type value.type span value.node.span value.state⟩
  | .call span function args, state =>
      let args := checkExprs table scope args state
      let node := Expr.call span function args.nodes
      match table.function? function.node with
      | none =>
          ⟨node, .unknown, args.state.report (.undefinedFunction function.node) function.span⟩
      | some info =>
          ⟨node, info.signature.returnType,
            checkArguments table function.node info.signature.params args.types args.nodes span
              args.state⟩
  | .methodCall span receiver method args, state =>
      let receiver := checkExpr table scope receiver state
      let args := checkExprs table scope args receiver.state
      let node := Expr.methodCall span receiver.node method args.nodes
      if receiver.type.isUnknown then
        ⟨node, .unknown, args.state⟩
      else
        match table.lookupMethod receiver.type method.node with
        | none =>
            ⟨node, .unknown,
              args.state.report (.undefinedMethod method.node receiver.type) method.span⟩
        | some found =>
            ⟨node, found.seen.returnType,
              checkArguments table method.node found.seen.params args.types args.nodes span
                args.state⟩

/-- Resolve expressions from left to right. -/
def checkExprs
    (table : ClassTable)
    (scope : ScopeId) :
    List Expr → MethodState → CheckedList
  | [], state => ⟨[], [], state⟩
  | expr :: rest, state =>
      let head := checkExpr table scope expr state
      let tail := checkExprs table scope rest head.state
      ⟨head.node :: tail.nodes, head.type :: tail.types, tail.state⟩

/-- Resolve the elements of an array, each of which has to convert to the
component type. -/
def checkElements
    (table : ClassTable)
    (scope : ScopeId)
    (component : Ty) :
    List Expr → MethodState → CheckedList
  | [], state => ⟨[], [], state⟩
  | expr :: rest, state =>
      let head := checkExpr table scope expr state
      let tail :=
        checkElements table scope component rest
          (checkConverts table head.type component head.node.span head.state)
      ⟨head.node :: tail.nodes, head.type :: tail.types, tail.state⟩

end

end LoopLowering
