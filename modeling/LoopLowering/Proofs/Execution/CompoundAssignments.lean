import LoopLowering.Proofs.Code.Methods
import LoopLowering.Proofs.Code.OpenedRanges
import LoopLowering.Proofs.Execution.NumberMachine
import LoopLowering.Proofs.Execution.Operands

namespace LoopLowering

/-!
# Compound assignments of integers

The code of a compound assignment computes the result in the type that both operands
are promoted to and converts it back to the kind of its target. There is one kind for
the three small types and `int`, so that the result is narrowed to the width of the
kind only: the language assigns the same exactly if that is in the range of the target.
-/

namespace ArithOp

/-- The number that the code of a compound assignment stores: the result of the
operation, carried for the type of the variable. -/
def carried
    (op : ArithOp)
    (target value : IntegerType)
    (held given : Int) :
    Number :=
  .ofInt target (op.promoted target value held given)

variable
  (op : ArithOp)
  (target value : IntegerType)

/-- What is stored is what the language assigns exactly if it is in the range of the
variable. -/
theorem toInt_carried_eq_assigned_iff
    (held given : Int) :
    (op.carried target value held given).toInt = op.assigned target value held given ↔
      target.Holds (op.carried target value held given).toInt := by
  rw [← IntegerType.eq_narrow_iff, carried, Number.toInt_ofInt, IntegerType.narrow_narrow_carrier,
    assigned]

/-- What is stored in a variable that is carried as what it is, is in its range. -/
theorem holds_carried
    {target : IntegerType}
    (isCarrier : target.carrier = target)
    (held given : Int) :
    target.Holds (op.carried target value held given).toInt := by
  rw [carried, Number.toInt_ofInt, isCarrier]
  exact target.holds_narrow _

/-- Two operands are carried for the type that they are promoted to as what they are. -/
theorem carried_eq
    {held given : Number}
    (heldCarried : held.type = target.carrier)
    (givenCarried : given.type = value.carrier) :
    Number.ofInt target (Number.ofInt (target.promote value)
      (op.onIntegers (Number.ofInt (target.promote value) held.toInt).toInt
        (Number.ofInt (target.promote value) given.toInt).toInt)).toInt =
      op.carried target value held.toInt given.toInt := by
  have heldHolds := (IntegerType.holds_promote (heldCarried ▸ held.holds_toInt) value).1
  have givenHolds := (IntegerType.holds_promote (givenCarried ▸ given.holds_toInt) target).2
  simp only [Number.toInt_ofInt, IntegerType.carrier_promote,
    IntegerType.narrow_of_holds heldHolds, IntegerType.narrow_of_holds givenHolds]
  rfl

/-- On two integers of the smaller width, what is stored is the result on that width. -/
theorem carried_int
    (held given : Int32) :
    op.carried .int .int (Number.int held).toInt (Number.int given).toInt =
      .int (op.result held given) := by
  have combined := Number.combine?_eq op (show (Number.int held).type = IntegerType.int.carrier from
    rfl) (show (Number.int given).type = IntegerType.int.carrier from rfl)
  exact (Number.ofInt_narrow .int _).trans (Option.some.inj combined).symm

end ArithOp

/-- A machine has a number in a slot and gets another one by evaluating a value: the
operands of a compound assignment. -/
structure CompoundOperands
    {Other World : Type}
    (surroundings : Surroundings Other World)
    (pushValue : CodeStep)
    (target value : IntegerType)
    (slot : UInt16)
    (before : NumberMachine Other World)
    (held given : Number)
    (after : NumberMachine Other World) :
    Prop where
  isHeld : before.slots slot = some (.inl held)
  heldCarried : held.type = target.carrier
  givenCarried : given.type = value.carrier
  evaluates : pushValue.Turns surroundings before [given] after

namespace CodeContext

variable
  {Other World : Type}
  {surroundings : Surroundings Other World}
  {before after : NumberMachine Other World}
  {context : CodeContext}
  {id : LocalId}
  {slot : UInt16}
  {op : BinOp}
  {arith : ArithOp}
  {value : Expr}
  {targetType valueType : IntegerType}
  {held given : Number}

/-- An assignment that is compiled through its operator carries the result. -/
theorem turns_assignOperated
    {pushValue : CodeStep}
    (isLocal : (context.localAt id).type = .primitive targetType.primitive)
    (hasSlot : (context.localAt id).slot = some slot)
    (isValue : context.exprType value = .primitive valueType.primitive)
    (isArith : op.arithOp = .ok arith)
    (appends : pushValue.Appends)
    (operands : CompoundOperands surroundings pushValue targetType valueType slot before held given
      after)
    (wanted : Bool) :
    CodeStep.Turns (context.assignOperated id op value pushValue wanted) surroundings before
      (if wanted then [arith.carried targetType valueType held.toInt given.toInt] else [])
      (after.putSlot slot (arith.carried targetType valueType held.toInt given.toInt)) := by
  intro stream
  obtain ⟨isHeld, heldCarried, givenCarried, evaluates⟩ := operands
  let operand := targetType.promote valueType
  have isOperand : BinOp.operandType? (.primitive targetType.primitive)
      (.primitive valueType.primitive) = some operand.primitive := by
    simp [BinOp.operandType?, operand]
  have isKind : CodeStream.kindOf context.scope id = .ofPrimitive targetType.primitive :=
    congrArg ValueKind.ofTy isLocal
  let loaded := stream.emit (.load (CodeStream.kindOf context.scope id) slot)
  obtain ⟨both, isBoth, valueLeads⟩ :=
    evaluates (loaded.convert targetType.primitive operand.primitive)
  let combined := (both.convert valueType.primitive operand.primitive).emit
    (.arith arith (.ofPrimitive operand.primitive))
  have emitted : context.assignOperated id op value pushValue wanted stream = .ok
      ((((combined.convert operand.primitive targetType.primitive).copied
        (CodeStream.kindOf context.scope id) wanted).emit
          (.store (CodeStream.kindOf context.scope id) slot)).openLocal context.scope id) := by
    simp only [assignOperated, isLocal, isValue, isOperand, Ty.primitive?, bind_eq_ok,
      CodeStream.load_eq_ok, CodeStream.store_eq_ok]
    exact ⟨loaded, ⟨slot, hasSlot, rfl⟩, both, isBoth, arith, isArith, slot, hasSlot, rfl⟩
  refine ⟨_, emitted, fun code stack completes => ?_⟩
  have loads := (MethodCode.Passes.refl code surroundings stream (before.withStack stack)).load
    isHeld ((Number.kind_eq heldCarried).trans isKind.symm)
  have evaluated := (loads.convert heldCarried operand).trans
    ⟨(appends isBoth).extends_, valueLeads code _⟩
  have combines := (evaluated.convert givenCarried operand).arith arith
    (Number.type_ofInt _ _) (Number.type_ofInt _ _)
  have narrows := combines.convert (Number.type_ofInt _ _) targetType
  rw [arith.carried_eq targetType valueType heldCarried givenCarried] at narrows
  have stores := narrows.store ((Number.kind_eq (Number.type_ofInt _ _)).trans isKind.symm)
    slot wanted
  cases wanted <;> exact stores.leads completes

/-- The code of a literal pushes it and does nothing else. -/
theorem eq_of_turns_intLit
    {span : Span}
    {literal : Int32}
    (evaluates : (context.pushExpr (.intLit span literal) true).Turns surroundings before [given]
      after) :
    given = .int literal ∧ ∀ stack, after.withStack stack = before.withStack stack := by
  obtain ⟨next, isNext, leads⟩ := evaluates .empty
  obtain rfl : CodeStream.empty.emit (.intConst literal) = next := Except.ok.inj isNext
  -- In code that ends after the literal, an execution takes one step and is stuck.
  let code : MethodCode := ⟨"", #[.intConst literal], #[], 0, [], []⟩
  have completes : code.Completes (CodeStream.empty.emit (.intConst literal)) :=
    ⟨fun _ _ => rfl, by simp [CodeStream.offset?, CodeStream.emit, CodeStream.empty]⟩
  rcases (leads code [] completes).cases_head with same | ⟨second, isSecond, rest⟩
  · cases congrArg Prod.fst same
  · obtain rfl : (1, before.withStack [.inl (.int literal)]) = second := Option.some.inj isSecond
    rcases rest.cases_head with same | ⟨third, isThird, -⟩
    · have sameMachine : before.withStack [.inl (.int literal)] = after.withStack [.inl given] :=
        congrArg Prod.snd same
      refine ⟨?_, fun stack => ?_⟩
      · simpa using (congrArg NumberMachine.stack sameMachine).symm
      · exact congrArg (fun machine => machine.withStack stack) sameMachine.symm
    · cases isThird

/-- A constant that is added in place is carried as the result. -/
theorem turns_increment
    {delta : Int16}
    (isLocal : (context.localAt id).type = .int)
    (hasSlot : (context.localAt id).slot = some slot)
    {first literal : Int32}
    (isHeld : before.slots slot = some (.inl (.int first)))
    (isSum : first + Int32.ofInt delta.toInt = arith.result first literal)
    (wanted : Bool) :
    CodeStep.Turns
      (fun stream => do
        let added ← stream.increment context.scope id delta
        if wanted then added.load context.scope id else return added)
      surroundings before
      (if wanted then [.int (arith.result first literal)] else [])
      (before.putSlot slot (.int (arith.result first literal))) := by
  intro stream
  have isKind : (Number.int (arith.result first literal)).kind =
      CodeStream.kindOf context.scope id := (congrArg ValueKind.ofTy isLocal).symm
  have added : ∀ (code : MethodCode) (stack : List (Number ⊕ Other)),
      code.Passes surroundings stream (before.withStack stack)
        (stream.emit (.increment slot delta))
        ((before.putSlot slot (.int (arith.result first literal))).withStack stack) :=
    fun code stack => (MethodCode.Passes.refl code surroundings stream _).emit
      (show NumberMachine.addInPlace? slot delta _ = _ by
        simp only [NumberMachine.addInPlace?, NumberMachine.slots_withStack, isHeld, isSum,
          NumberMachine.putSlot_withStack])
  cases wanted with
  | false =>
      refine ⟨stream.emit (.increment slot delta), ?_, fun code stack completes => ?_⟩
      · simp only [bind_eq_ok, CodeStream.increment_eq_ok]
        exact ⟨_, ⟨slot, hasSlot, rfl⟩, rfl⟩
      · exact (added code stack).leads completes
  | true =>
      refine ⟨(stream.emit (.increment slot delta)).emit
        (.load (CodeStream.kindOf context.scope id) slot), ?_, fun code stack completes => ?_⟩
      · simp only [bind_eq_ok, CodeStream.increment_eq_ok, if_true, CodeStream.load_eq_ok]
        exact ⟨_, ⟨slot, hasSlot, rfl⟩, slot, hasSlot, rfl⟩
      · exact ((added code stack).load (by simp) isKind).leads completes

/-- A literal is pushed. -/
theorem turns_intLit
    (span : Span)
    (literal : Int32) :
    (context.pushExpr (.intLit span literal) true).Turns surroundings before [.int literal]
      before := by
  intro stream
  refine ⟨stream.emit (.intConst literal), rfl, fun code stack completes => ?_⟩
  exact ((MethodCode.Passes.refl code surroundings stream _).emit rfl).leads completes

/-- What is added in place is the result of the operation. -/
theorem add_increment?
    {delta : Int16}
    {literalSpan : Span}
    {literal : Int32}
    (isArith : op.arithOp = .ok arith)
    (small : increment? op (.intLit literalSpan literal) = some delta)
    (first : Int32) :
    first + Int32.ofInt delta.toInt = arith.result first literal := by
  obtain ⟨otherSpan, other, same, isSum⟩ := onInts_of_increment? small
  cases same
  have results := (isSum first).symm.trans (BinOp.onInts_of_arithOp isArith first literal)
  exact Word.int.inj results

/-- The code of a compound assignment carries the result, whichever way it is
compiled. -/
theorem turns_assign
    {target : NameRef}
    (binds : target.binding = some id)
    (isLocal : (context.localAt id).type = .primitive targetType.primitive)
    (hasSlot : (context.localAt id).slot = some slot)
    (isValue : context.exprType value = .primitive valueType.primitive)
    (isArith : op.arithOp = .ok arith)
    (operands : CompoundOperands surroundings (context.pushExpr value true) targetType valueType
      slot before held given after)
    (wanted : Bool) :
    CodeStep.Turns (context.assign target (some op) value (context.pushExpr value) wanted)
      surroundings before
      (if wanted then [arith.carried targetType valueType held.toInt given.toInt] else [])
      (after.putSlot slot (arith.carried targetType valueType held.toInt given.toInt)) := by
  intro stream
  simp only [assign, bindingOf_eq_ok.mpr binds, bind_eq_ok, Except.ok.injEq, exists_eq_left']
  split
  · next delta isDelta =>
      obtain ⟨isInt, small⟩ := Option.ite_none_right_eq_some.mp isDelta
      obtain ⟨literalSpan, literal, rfl, -⟩ := onInts_of_increment? small
      obtain ⟨rfl, same⟩ := eq_of_turns_intLit operands.evaluates
      obtain rfl : targetType = .int := by
        cases targetType <;> simp_all [IntegerType.primitive, Ty.int]
      obtain rfl : valueType = .int := by
        cases valueType <;> simp_all [IntegerType.primitive, Ty.int, exprType]
      obtain ⟨first, rfl⟩ : ∃ first, held = .int first := by
        cases held with
        | int first =>
            exact ⟨first, rfl⟩
        | long first =>
            cases operands.heldCarried
      rw [arith.carried_int]
      obtain ⟨next, isNext, leads⟩ := turns_increment isInt hasSlot operands.isHeld
        (add_increment? isArith small first) wanted stream
      refine ⟨next, isNext, fun code stack completes => ?_⟩
      rw [← NumberMachine.putSlot_withStack, same, NumberMachine.putSlot_withStack]
      exact leads code stack completes
  · exact turns_assignOperated isLocal hasSlot isValue isArith (appends_pushExpr context value true)
      operands wanted stream

end CodeContext

section Methods

variable
  {table : ClassTable}
  {options : CompilerOptions}
  {method : Method}

/-- In a method without errors, a compound assignment to a variable of an integer type
has a slot and an operation. Its code stores the result of the operation in the
promoted type, narrowed to the width in which the type of the variable is carried; an
increment in place stores the same as the code through the operation. This is what the
language assigns exactly if it is in the range of the variable, as it always is where
the variable is as wide as what it is carried in. -/
theorem stores_compoundAssignment
    {unit : CompilationUnit}
    (declared : ClassTable.ofUnit unit = .ok table)
    (clean : (analyzedMethod table options method).state.Clean)
    {checked : Checked Expr}
    (member : checked ∈ method.resolutions table options)
    {span : Span}
    {target : Spanned NameRef}
    {op : BinOp}
    {value : Expr}
    (isAssignment : checked.node = .assign span target (some op) value)
    {targetType valueType : IntegerType}
    (isTarget : checked.type = .primitive targetType.primitive)
    (isValue : (loweringContext table options method).exprType value =
      .primitive valueType.primitive) :
    ∃ id slot arith, target.node.binding = some id ∧
      ((loweringContext table options method).localAt id).slot = some slot ∧
      op.arithOp = .ok arith ∧
      ∀ {Other World : Type} {surroundings : Surroundings Other World}
        {before after : NumberMachine Other World} {held given : Number},
        CompoundOperands surroundings ((loweringContext table options method).pushExpr value true)
          targetType valueType slot before held given after →
        ∃ stored : Number,
          stored.type = targetType.carrier ∧
          stored.toInt = targetType.carrier.narrow
            (arith.promoted targetType valueType held.toInt given.toInt) ∧
          (stored.toInt = arith.assigned targetType valueType held.toInt given.toInt ↔
            targetType.Holds stored.toInt) ∧
          (targetType.carrier = targetType → targetType.Holds stored.toInt) ∧
          ∀ wanted,
            CodeStep.Turns ((loweringContext table options method).pushExpr checked.node wanted)
              surroundings before (if wanted then [stored] else []) (after.putSlot slot stored) ∧
            CodeStep.Turns ((loweringContext table options method).assignOperated id op value
              ((loweringContext table options method).pushExpr value true) wanted)
              surroundings before (if wanted then [stored] else []) (after.putSlot slot stored) := by
  have tableSound := ClassTable.ofUnit_sound unit.isAllowed_lenient declared
  obtain ⟨place, counted, typed⟩ :=
    types_loweringContext tableSound method.isAllowed_lenient clean member
  rw [isAssignment, CodeContext.HasType, isTarget] at typed
  obtain ⟨id, valueTy, binds, isUsed, -, applies, isLocal⟩ := typed
  obtain ⟨slot, hasSlot⟩ := slotted_loweringContext.exists_slot counted binds isUsed
  simp only [compoundApplies, Bool.and_eq_true, Bool.not_eq_true'] at applies
  obtain ⟨arith, isArith⟩ := CodeContext.exists_arithOp applies.1
  refine ⟨id, slot, arith, binds.bound, hasSlot, isArith, fun operands => ?_⟩
  refine ⟨arith.carried targetType valueType _ _, Number.type_ofInt _ _, Number.toInt_ofInt _ _,
    arith.toInt_carried_eq_assigned_iff targetType valueType _ _,
    fun isCarrier => arith.holds_carried valueType isCarrier _ _, fun wanted => ⟨?_, ?_⟩⟩
  · rw [isAssignment]
    exact CodeContext.turns_assign binds.bound isLocal hasSlot isValue isArith operands wanted
  · exact CodeContext.turns_assignOperated isLocal hasSlot isValue isArith
      (CodeContext.appends_pushExpr _ value true) operands wanted

end Methods

/-- A method that adds one to a parameter of a small type. -/
def Method.incrementsByte :
    Method where
  name := ⟨"m", .absent⟩
  typeParams := []
  params := [⟨⟨"b", .absent⟩, .named .absent "byte", false, none⟩]
  returnType := none
  body := {
    span := .absent
    stmts := [.expr .absent (.assign .absent ⟨.unbound "b", .absent⟩ (some .add)
      (.intLit .absent 1))]
    facts := .initial
  }

/-- A machine without surroundings in which every slot holds a number. -/
def NumberMachine.full
    (number : Number) :
    NumberMachine Empty Unit :=
  ⟨fun _ => some (.inl number), [], ()⟩

/-- The greatest number of a small type is incremented beyond the range, where the
language assigns the least one. -/
theorem incrementsByte_stores :
    ClassTable.ofUnit ⟨"Main", none, [], [], []⟩ = .ok .builtin ∧
      (analyzedMethod .builtin .standard .incrementsByte).state.Clean ∧
      ∃ checked ∈ Method.incrementsByte.resolutions .builtin .standard,
        ∃ (slot : UInt16) (stored : Number),
          CodeStep.Turns
            ((loweringContext .builtin .standard .incrementsByte).pushExpr checked.node true)
            (fun _ _ _ => none) (.full (.int 127)) [stored]
            ((NumberMachine.full (.int 127)).putSlot slot stored) ∧
          stored.toInt = 128 ∧ ArithOp.add.assigned .byte .int 127 1 = -128 := by
  have declared : ClassTable.ofUnit ⟨"Main", none, [], [], []⟩ = .ok .builtin := rfl
  have clean : (analyzedMethod .builtin .standard .incrementsByte).state.Clean := by
    decide +kernel
  refine ⟨declared, clean, ?_⟩
  have resolved : (Method.incrementsByte.resolutions .builtin .standard).map
      (fun checked => (checked.node, checked.type)) =
        [(.assign .absent ⟨⟨"b", some 0⟩, .absent⟩ (some .add) (.intLit .absent 1),
          .primitive .byte), (.intLit .absent 1, .int)] := by
    rfl
  obtain ⟨checked, rest, isList, isChecked, -⟩ := List.map_eq_cons_iff.mp resolved
  have member : checked ∈ Method.incrementsByte.resolutions .builtin .standard := by
    simp [isList]
  obtain ⟨id, slot, arith, -, -, isArith, stores⟩ := stores_compoundAssignment
    declared clean member (congrArg Prod.fst isChecked)
    (show checked.type = .primitive IntegerType.byte.primitive from congrArg Prod.snd isChecked)
    (show CodeContext.exprType _ (.intLit .absent 1) = .primitive IntegerType.int.primitive from rfl)
  obtain rfl : ArithOp.add = arith := Except.ok.inj isArith
  obtain ⟨stored, -, isStored, -, -, turns⟩ := stores
    (⟨rfl, rfl, rfl, CodeContext.turns_intLit .absent 1⟩ :
      CompoundOperands (fun _ _ _ => none) _ .byte .int slot (.full (.int 127)) (.int 127) (.int 1)
        (.full (.int 127)))
  exact ⟨checked, member, slot, stored, (turns true).1, isStored.trans (by decide), by decide⟩

end LoopLowering
