import LoopLowering.Code.Conversion
import LoopLowering.Code.Typing

namespace LoopLowering

/-!
# Code of expressions

The code of an expression leaves its value on the stack, or nothing when only
its effects are wanted. Operands are evaluated from left to right and converted
where they are used.
-/

/-- A step of code generation. -/
abbrev CodeStep := CodeStream → Except CodegenError CodeStream

/-- The instruction's operation of an arithmetic operator. -/
def BinOp.arithOp :
    BinOp → Except CodegenError ArithOp
  | .add => .ok .add
  | .sub => .ok .sub
  | .mul => .ok .mul
  | op => .error (.notArithmetic op)

/-- The condition that a comparison tests. -/
def BinOp.condition :
    BinOp → Except CodegenError Condition
  | .lt => .ok .lt
  | .le => .ok .le
  | .gt => .ok .gt
  | .ge => .ok .ge
  | .eq => .ok .eq
  | .ne => .ok .ne
  | op => .error (.notComparison op)

/-- The condition on which a comparison branches. -/
def BinOp.branchCondition
    (op : BinOp)
    (branchIf : Bool) :
    Except CodegenError Condition := do
  let condition ← op.condition
  return if branchIf then condition else condition.negate

/-- The constant that a compound assignment adds to its target when it adds or
subtracts a literal that fits in 16 bits. -/
def increment?
    (op : BinOp) :
    Expr → Option Int16
  | .intLit _ value =>
      let delta :=
        match op with
        | .add => some value.toInt
        | .sub => some (-value.toInt)
        | _ => none
      match delta with
      | some delta =>
          if -0x8000 ≤ delta ∧ delta ≤ 0x7FFF then some (Int16.ofInt delta) else none
      | none => none
  | _ => none

namespace CodeStream

/-- Convert an operand to the type its operator works in. -/
def convertOperand
    (type : Ty)
    (operand : Primitive)
    (code : CodeStream) :
    CodeStream :=
  match type.primitive? with
  | some given => code.convert given operand
  | none => code

/-- Drop the result of a call when only the effects of the call are wanted. -/
def keepResult
    (type : Ty)
    (wanted : Bool)
    (code : CodeStream) :
    CodeStream :=
  if wanted || type == .void then code else code.popValue (.ofTy type)

/-- Compare the two values on the stack and branch. -/
def branchOnValues
    (op : BinOp)
    (condition : Condition)
    (operand : Primitive)
    (label : Label)
    (code : CodeStream) :
    CodeStream :=
  match ValueKind.ofPrimitive operand with
  | .int => code.emit (.branchIfInts condition label)
  | kind =>
      (code.emit (.compare kind (op == .lt || op == .le))).emit (.branchIf condition label)

/-- Push the truth value of a test, given the code that branches when the test
fails. -/
def testValue
    (branchUnless : Label → CodeStep)
    (code : CodeStream) :
    Except CodegenError CodeStream := do
  let falseLabel := code.nextLabel
  let endLabel := code.addLabel.nextLabel
  let tested ← branchUnless falseLabel code.addLabel.addLabel
  let failed := ((tested.emit (.intConst 1)).emit (.goto endLabel)).place falseLabel
  return (failed.emit (.intConst 0)).place endLabel

/-- Create an array of a length. -/
def newArray
    (table : ClassTable)
    (component : Ty)
    (length : Nat)
    (code : CodeStream) :
    Except CodegenError CodeStream :=
  if length ≤ 0x7FFFFFFF then
    let sized := code.emit (.intConst (Int32.ofNat length))
    .ok (sized.emit
      (match component.primitive? with
      | some kind => .newArray kind
      | none => .newReferenceArray (table.referenceName component)))
  else
    .error .arrayTooLarge

end CodeStream

namespace CodeContext

/-- The component type of an array that is created. -/
def componentType
    (context : CodeContext)
    (component : TypeExpr) :
    Except CodegenError Ty :=
  match context.table.resolve context.state.typeVars component with
  | .ok ty => .ok ty
  | .error cause => .error (.componentUnresolved cause)

/-- Compare two operands, given their code, and branch if the outcome is the
given one. -/
def branchOnComparison
    (context : CodeContext)
    (op : BinOp)
    (left right : Expr)
    (pushLeft pushRight : CodeStep)
    (branchIf : Bool)
    (label : Label)
    (code : CodeStream) :
    Except CodegenError CodeStream := do
  let leftType := context.exprType left
  let rightType := context.exprType right
  let condition ← op.branchCondition branchIf
  let pushed ← pushLeft code
  match BinOp.operandType? leftType rightType with
  | some operand =>
      let both ← pushRight (pushed.convertOperand leftType operand)
      return (both.convertOperand rightType operand).branchOnValues op condition operand label
  | none =>
      let both ← pushRight pushed
      return both.emit
        (if leftType.isReference then .branchIfReferences condition label
        else .branchIfInts condition label)

/-- Combine two operands, given their code, by an arithmetic operator. -/
def pushArithmetic
    (context : CodeContext)
    (op : BinOp)
    (left right : Expr)
    (pushLeft pushRight : CodeStep)
    (code : CodeStream) :
    Except CodegenError CodeStream := do
  let leftType := context.exprType left
  let rightType := context.exprType right
  match BinOp.operandType? leftType rightType with
  | none => throw (.operatorUndefined op leftType rightType)
  | some operand =>
      let pushed ← pushLeft code
      let both ← pushRight (pushed.convertOperand leftType operand)
      let arith ← op.arithOp
      return (both.convertOperand rightType operand).emit
        (.arith arith (.ofPrimitive operand))

/-- Assign a value, given its code with or without a result. The value of a
local that does not exist in the code is evaluated only. -/
def assignSimple
    (context : CodeContext)
    (id : LocalId)
    (value : Expr)
    (push : (wanted : Bool) → CodeStep)
    (wanted : Bool)
    (code : CodeStream) :
    Except CodegenError CodeStream := do
  if context.hasSlot id then
    let pushed ← push true code
    let converted :=
      pushed.convertAssigned context.table (context.exprType value) (context.localAt id).type
    converted.store context.scope id wanted
  else
    push wanted code

/-- Assign the result of an operator on a local and a value, given the code of
the value. The result is converted back to the type of the local. -/
def assignOperated
    (context : CodeContext)
    (id : LocalId)
    (op : BinOp)
    (value : Expr)
    (pushValue : CodeStep)
    (wanted : Bool)
    (code : CodeStream) :
    Except CodegenError CodeStream := do
  let type := (context.localAt id).type
  let valueType := context.exprType value
  match BinOp.operandType? type valueType, type.primitive? with
  | none, _ => throw (.compoundUndefined op type valueType)
  | some _, none => throw (.compoundTarget type)
  | some operand, some target =>
      let loaded ← code.load context.scope id
      let both ← pushValue (loaded.convert target operand)
      let arith ← op.arithOp
      let result := (both.convertOperand valueType operand).emit
        (.arith arith (.ofPrimitive operand))
      (result.convert operand target).store context.scope id wanted

/-- Assign to a local, plainly or through an operator. A small constant is
added to an integer in place. -/
def assign
    (context : CodeContext)
    (target : NameRef)
    (op : Option BinOp)
    (value : Expr)
    (push : (wanted : Bool) → CodeStep)
    (wanted : Bool)
    (code : CodeStream) :
    Except CodegenError CodeStream := do
  let id ← bindingOf target
  match op with
  | none => context.assignSimple id value push wanted code
  | some op =>
      match if (context.localAt id).type = .int then increment? op value else none with
      | some delta =>
          let added ← code.increment context.scope id delta
          if wanted then added.load context.scope id else return added
      | none => context.assignOperated id op value (push true) wanted code

/-- Call a static function whose arguments are on the stack. -/
def callFunction
    (context : CodeContext)
    (name : String)
    (info : FunctionInfo)
    (wanted : Bool)
    (code : CodeStream) :
    CodeStream :=
  let call := Instruction.invoke .static
    ⟨context.table.internalName info.owner, name, context.table.methodDescriptor info.signature⟩
  (code.emit call).keepResult info.signature.returnType wanted

/-- The way the methods of a type are found. -/
def invokeKind
    (context : CodeContext)
    (type : Ty) :
    InvokeKind :=
  if context.table.isInterface type then .interface else .virtual

/-- Call an instance method whose receiver and arguments are on the stack. A
result whose declared type is less precise is cast. -/
def callMethod
    (context : CodeContext)
    (name : String)
    (found : ClassTable.FoundMethod)
    (wanted : Bool)
    (code : CodeStream) :
    CodeStream :=
  let owner := found.owner.toTy
  let returned := found.seen.returnType
  let called := code.emit (.invoke (context.invokeKind owner)
    ⟨context.table.referenceName owner, name, context.table.methodDescriptor found.declared⟩)
  let cast :=
    if returned.isReference && returned.erasure != found.declared.returnType.erasure then
      called.emit (.checkCast (context.table.referenceName returned))
    else
      called
  cast.keepResult returned wanted

mutual

/-- The code of an expression, with its value if that is wanted. -/
def pushExpr
    (context : CodeContext) :
    Expr → (wanted : Bool) → CodeStep
  | .intLit _ value, wanted, code =>
      .ok (if wanted then code.emit (.intConst value) else code)
  | .boolLit _ value, wanted, code =>
      .ok (if wanted then code.emit (.intConst (if value then 1 else 0)) else code)
  | .stringLit _ value, wanted, code =>
      .ok (if wanted then code.emit (.stringConst value) else code)
  | .null _, wanted, code => .ok (if wanted then code.emit .nullConst else code)
  | .name _ ref, wanted, code =>
      if wanted then do
        let id ← bindingOf ref
        code.load context.scope id
      else
        .ok code
  | .newArray _ component elements, wanted, code =>
      if wanted then do
        let type ← context.componentType component
        let created ← code.newArray context.table type elements.length
        context.fillArray type elements 0 created
      else
        context.runExprs elements code
  | .binary _ op left right, wanted, code =>
      if wanted then
        if op.isComparison then
          code.testValue (context.branchOnComparison op left right
            (context.pushExpr left true) (context.pushExpr right true) false)
        else
          context.pushArithmetic op left right
            (context.pushExpr left true) (context.pushExpr right true) code
      else do
        let ran ← context.pushExpr left false code
        context.pushExpr right false ran
  | .assign _ target op value, wanted, code =>
      context.assign target.node op value (context.pushExpr value) wanted code
  | .call _ function args, wanted, code =>
      match context.table.function? function.node with
      | none => .error (.unknownFunction function.node)
      | some info => do
          let pushed ← context.pushArguments args info.signature.params code
          return context.callFunction function.node info wanted pushed
  | .methodCall _ receiver method args, wanted, code =>
      match context.table.lookupMethod (context.exprType receiver) method.node with
      | none => .error (.unknownMethod method.node (context.exprType receiver))
      | some found => do
          let pushed ← context.pushExpr receiver true code
          let pushed ← context.pushArguments args found.seen.params pushed
          return context.callMethod method.node found wanted pushed

/-- The effects of expressions, from left to right. -/
def runExprs
    (context : CodeContext) :
    List Expr → CodeStep
  | [], code => .ok code
  | expr :: rest, code => do
      let ran ← context.pushExpr expr false code
      context.runExprs rest ran

/-- Store values into the array on the stack, from an index on. -/
def fillArray
    (context : CodeContext)
    (component : Ty) :
    List Expr → (index : Nat) → CodeStep
  | [], _, code => .ok code
  | expr :: rest, index, code => do
      let indexed := (code.emit .dup).emit (.intConst (Int32.ofNat index))
      let pushed ← context.pushExpr expr true indexed
      let converted := pushed.convertAssigned context.table (context.exprType expr) component
      context.fillArray component rest (index + 1)
        (converted.emit (.arrayStore (.ofTy component)))

/-- Push arguments, each converted to the type of its parameter. -/
def pushArguments
    (context : CodeContext) :
    List Expr → List Ty → CodeStep
  | expr :: rest, param :: params, code => do
      let pushed ← context.pushExpr expr true code
      context.pushArguments rest params
        (pushed.convertAssigned context.table (context.exprType expr) param)
  | _, _, code => .ok code

end

/-- Branch if the value of a condition is the given one. -/
def branchOnValue
    (context : CodeContext)
    (expr : Expr)
    (branchIf : Bool)
    (label : Label)
    (code : CodeStream) :
    Except CodegenError CodeStream := do
  let pushed ← context.pushExpr expr true code
  let converted := pushed.convertAssigned context.table (context.exprType expr) .boolean
  return converted.emit (.branchIf (if branchIf then .ne else .eq) label)

/-- Branch if a condition has the given outcome. A comparison is tested without
making a truth value of it. -/
def branchOn
    (context : CodeContext)
    (expr : Expr)
    (branchIf : Bool)
    (label : Label)
    (code : CodeStream) :
    Except CodegenError CodeStream :=
  match expr with
  | .boolLit _ value => .ok (if value = branchIf then code.emit (.goto label) else code)
  | .binary _ op left right =>
      if op.isComparison then
        context.branchOnComparison op left right
          (context.pushExpr left true) (context.pushExpr right true) branchIf label code
      else
        context.branchOnValue expr branchIf label code
  | _ => context.branchOnValue expr branchIf label code

end CodeContext

end LoopLowering
