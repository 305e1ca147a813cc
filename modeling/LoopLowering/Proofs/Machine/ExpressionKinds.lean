import LoopLowering.Proofs.Code.Emission
import LoopLowering.Proofs.Machine.Deliveries

namespace LoopLowering

/-!
# What the code of an expression leaves

The code of an expression leaves one value of the kind of its type, or nothing,
on whatever stack it starts with. That takes code generation to know the types
it chooses conversions and comparisons by.
-/

/-- Void is no type of values. -/
theorem Ty.ne_void_of_isValue
    {strict : Bool}
    {ty : Ty}
    (value : ty.isValue strict = true) :
    ty ≠ .void := by
  rintro rfl
  cases value

/-- The kind of the result of a signature is the one its descriptor has. -/
theorem Signature.shape_result
    {strict : Bool}
    {signature : Signature}
    (sound : signature.isSound strict = true) :
    signature.shape.result =
      if signature.returnType = .void then none
      else some (.ofTy signature.returnType.erasure) := by
  simp only [isSound, Bool.and_eq_true, Bool.or_eq_true, beq_iff_eq] at sound
  rcases sound.2 with isVoid | value
  · simp [shape, isVoid, Ty.erasure]
  · simp [shape, Ty.ne_void_of_isValue value, Ty.ne_void_of_isValue (Ty.isValue_erasure value)]

/-- The kind of the values of a reference type. -/
theorem ValueKind.ofTy_of_isReference
    {ty : Ty}
    (isReference : ty.isReference = true) :
    ofTy ty = .reference := by
  cases ty <;> simp_all [Ty.isReference, ofTy]

/-- The value of a reference type is a reference. -/
theorem Ty.kinds_of_isReference
    {ty : Ty}
    (isReference : ty.isReference = true) :
    ty.kinds = [.reference] := by
  cases ty <;> simp_all [Ty.isReference, Ty.kinds, ValueKind.ofTy]

/-- Whether the result of a method is cast to what the receiver sees. -/
def ClassTable.FoundMethod.isCast
    (found : ClassTable.FoundMethod) :
    Bool :=
  found.seen.returnType.isReference &&
    found.seen.returnType.erasure != found.declared.returnType.erasure

/-- The kind of the value that a call of a signature leaves; where there is none,
any will do. -/
def Signature.resultKind
    (signature : Signature) :
    ValueKind :=
  signature.shape.result.getD .reference

/-- What a call of a sound signature leaves is the result that its descriptor
has. -/
theorem Signature.shape_result_toList
    {strict : Bool}
    {signature : Signature}
    (sound : signature.isSound strict = true) :
    signature.shape.result.toList = signature.returnType.leaves signature.resultKind := by
  rw [Signature.resultKind, Signature.shape_result sound, Ty.leaves]
  split <;> rfl

/-- The kind of the value that a call leaves is that of the erased result. -/
theorem Signature.resultKind_eq
    {strict : Bool}
    {signature : Signature}
    (sound : signature.isSound strict = true) :
    signature.resultKind =
      if signature.returnType = .void then .reference
      else .ofTy signature.returnType.erasure := by
  rw [Signature.resultKind, Signature.shape_result sound]
  split <;> rfl

/-- What is seen as a primitive type has it in its descriptor too. -/
theorem ClassInfo.erasure_of_primitive?_seenFrom
    {strict : Bool}
    {info : ClassInfo}
    {args : List Ty}
    (arguments : Ty.areArguments strict args = true)
    {ty : Ty}
    {kind : Primitive}
    (seen : (info.seenFrom args ty).primitive? = some kind) :
    ty.erasure = .primitive kind := by
  unfold seenFrom at seen
  split at seen
  · exact Ty.eq_of_primitive? seen
  · rw [Ty.primitive?_substitute (bindsArguments_bindings arguments)] at seen
    rw [Ty.eq_of_primitive? seen]
    rfl

/-- Wide values have a primitive type. -/
theorem Ty.exists_primitive_of_isWide
    {ty : Ty}
    (isWide : (ValueKind.ofTy ty).isWide = true) :
    ∃ kind, ty.primitive? = some kind := by
  cases isPrimitive : ty.primitive? with
  | none =>
      rw [ValueKind.ofTy_eq_reference isPrimitive] at isWide
      cases isWide
  | some kind =>
      exact ⟨kind, rfl⟩

/-- A method whose result is void is seen as one. -/
theorem ClassTable.FoundMethod.IsSound.void_iff
    {strict : Bool}
    {found : ClassTable.FoundMethod}
    (sound : found.IsSound strict) :
    found.declared.returnType = .void ↔ found.seen.returnType = .void := by
  obtain ⟨info, args, arguments, seen⟩ := sound.instantiated
  have isSeen : found.seen.returnType = info.seenFrom args found.declared.returnType := by
    rw [seen]
    rfl
  have declaredSound := sound.declared
  simp only [Signature.isSound, Bool.and_eq_true, Bool.or_eq_true, beq_iff_eq] at declaredSound
  rw [isSeen]
  rcases declaredSound.2 with isVoid | value
  · simp [isVoid, ClassInfo.seenFrom_void]
  · simp [Ty.ne_void_of_isValue value,
      Ty.ne_void_of_isValue (ClassInfo.isValue_seenFrom arguments value)]

/-- A method that is seen to have a wide result leaves a value of its kind. -/
theorem ClassTable.FoundMethod.IsSound.resultKind_of_isWide
    {strict : Bool}
    {found : ClassTable.FoundMethod}
    (sound : found.IsSound strict)
    (isWide : (ValueKind.ofTy found.seen.returnType).isWide = true) :
    found.declared.resultKind = .ofTy found.seen.returnType := by
  obtain ⟨kind, isPrimitive⟩ := Ty.exists_primitive_of_isWide isWide
  have seenAs := Ty.eq_of_primitive? isPrimitive
  have notVoid : found.declared.returnType ≠ .void := by
    rw [Ne, sound.void_iff, seenAs]
    simp
  obtain ⟨info, args, arguments, seen⟩ := sound.instantiated
  rw [seen] at isPrimitive
  rw [Signature.resultKind_eq sound.declared, if_neg notVoid, seenAs,
    ClassInfo.erasure_of_primitive?_seenFrom arguments isPrimitive]

/-- A signature with a wide result leaves a value of its kind. -/
theorem Signature.resultKind_of_isWide
    {strict : Bool}
    {signature : Signature}
    (sound : signature.isSound strict = true)
    (isWide : (ValueKind.ofTy signature.returnType).isWide = true) :
    signature.resultKind = .ofTy signature.returnType := by
  obtain ⟨kind, isPrimitive⟩ := Ty.exists_primitive_of_isWide isWide
  have returned := Ty.eq_of_primitive? isPrimitive
  rw [Signature.resultKind_eq sound, returned]
  rfl

/-- A signature without a result counts as leaving a reference. -/
theorem Signature.resultKind_of_void
    {strict : Bool}
    {signature : Signature}
    (sound : signature.isSound strict = true)
    (isVoid : signature.returnType = .void) :
    signature.resultKind = .reference := by
  rw [Signature.resultKind_eq sound, if_pos isVoid]

namespace CodeContext

/-- The kind of the value that the code of an expression leaves. The value of
an assignment to a local without a slot is not converted, and the result of a
call is what the descriptor says. -/
def deliveredKind
    (context : CodeContext) :
    Expr → ValueKind
  | .assign _ target none value =>
      if target.node.binding.any context.hasSlot then
        .ofTy (context.boundType target.node.binding)
      else
        context.deliveredKind value
  | .call _ function _ =>
      match context.table.function? function.node with
      | some info => info.signature.resultKind
      | none => .reference
  | .methodCall _ receiver method _ =>
      match context.table.lookupMethod (context.staticType receiver) method.node with
      | some found => if found.isCast then .reference else found.declared.resultKind
      | none => .reference
  | expr => .ofTy (context.staticType expr)

/-- Whether the code of an expression leaves a value of the kind of its type. -/
def Keeps
    (context : CodeContext)
    (expr : Expr) :
    Bool :=
  decide (context.deliveredKind expr = .ofTy (context.staticType expr))

/-- Whether a value that is assigned to a type is of a given kind once code
generation has converted it. -/
def Carries
    (context : CodeContext)
    (expr : Expr)
    (target : Ty)
    (kind : ValueKind) :
    Bool :=
  decide ((context.exprType expr).convertedKind target (context.deliveredKind expr) = some kind)

/-- Whether arguments are of the kinds that a descriptor names once they are
converted to the types of their parameters. -/
def Fits
    (context : CodeContext) :
    (args : List Expr) → (params : List Ty) → (kinds : List ValueKind) → Bool
  | expr :: rest, param :: params, kind :: kinds =>
      context.Carries expr param kind && context.Fits rest params kinds
  | [], [], [] => true
  | _, _, _ => false

/-- Whether code generation compares two values as what they are. -/
def Compares
    (context : CodeContext)
    (left right : Expr) :
    Bool :=
  (!(context.exprType left).isUnknown || !(context.staticType left).isReference) &&
    context.Keeps left && context.Keeps right

/-- The component type of an array that is created. -/
def createdComponent
    (context : CodeContext)
    (component : TypeExpr) :
    Ty :=
  match context.table.resolve context.state.typeVars component with
  | .ok ty => ty
  | .error _ => .unknown

/-- Whether a compound assignment adds a constant to its target in place. -/
def Increments
    (context : CodeContext)
    (target : NameRef)
    (op : BinOp)
    (value : Expr) :
    Bool :=
  decide (context.boundType target.binding = .int) && (increment? op value).isSome

mutual

/-- Whether the parts of an expression are used as what their code leaves. -/
def Faithful
    (context : CodeContext) :
    Expr → (wanted : Bool) → Bool
  | .intLit .., _ | .boolLit .., _ | .stringLit .., _ | .null _, _ | .name .., _ => true
  | .newArray _ component elements, wanted =>
      let type := context.createdComponent component
      (!wanted || elements.all (fun part => context.Carries part type (.ofTy type))) &&
        context.AllFaithful elements wanted
  | .binary _ _ left right, wanted =>
      (!wanted || context.Compares left right) &&
        context.Faithful left wanted && context.Faithful right wanted
  | .assign _ target none value, wanted =>
      let type := context.boundType target.node.binding
      if target.node.binding.any context.hasSlot then
        context.Carries value type (.ofTy type) && context.Faithful value true
      else
        context.Faithful value wanted
  | .assign _ target (some op) value, _ =>
      context.Increments target.node op value || context.Keeps value && context.Faithful value true
  | .call _ function args, wanted =>
      match context.table.function? function.node with
      | some info =>
          context.Fits args info.signature.params info.signature.shape.params &&
            context.AllFaithful args true &&
            info.signature.resultKind.drops info.signature.returnType wanted
      | none => false
  | .methodCall _ receiver method args, wanted =>
      match context.table.lookupMethod (context.staticType receiver) method.node with
      | some found =>
          context.Keeps receiver && context.Faithful receiver true &&
            context.Fits args found.seen.params found.declared.shape.params &&
            context.AllFaithful args true &&
            (!found.isCast || found.declared.resultKind == .reference) &&
            found.declared.resultKind.drops found.seen.returnType wanted
      | none => false

/-- Whether the parts of expressions are used as what their code leaves. -/
def AllFaithful
    (context : CodeContext) :
    List Expr → (wanted : Bool) → Bool
  | [], _ => true
  | expr :: rest, wanted => context.Faithful expr wanted && context.AllFaithful rest wanted

end

open CodeStream

variable
  {strict : Bool}
  {context : CodeContext}
  {place : Place}
  {read : DescriptorReader}
  {kinds : KindStack}
  {code middle after : CodeStream}

/-- The kinds of the values that the code of an expression of a type leaves. -/
def delivered
    (context : CodeContext)
    (expr : Expr)
    (ty : Ty) :
    KindStack :=
  ty.leaves (context.deliveredKind expr)

/-- What is not void leaves one value. -/
theorem delivered_of_ne_void
    {expr : Expr}
    {ty : Ty}
    (notVoid : ty ≠ .void) :
    context.delivered expr ty = [context.deliveredKind expr] :=
  Ty.leaves_of_ne_void notVoid _

/-- What is converted to a value leaves one. -/
theorem delivered_of_converts
    {strict : Bool}
    {expr : Expr}
    {ty target : Ty}
    (value : target.isValue strict = true)
    (converts : context.table.converts ty target = true) :
    context.delivered expr ty = [context.deliveredKind expr] := by
  refine delivered_of_ne_void ?_
  rintro rfl
  rw [context.table.converts_void value] at converts
  cases converts

/-- An expression that keeps its kind leaves what its type says. -/
theorem Keeps.delivered_eq
    {strict : Bool}
    {expr : Expr}
    {ty : Ty}
    (keeps : context.Keeps expr = true)
    (typed : context.HasType strict place expr ty) :
    context.delivered expr ty = ty.kinds := by
  simp only [Keeps, decide_eq_true_eq, typed.staticType] at keeps
  simp only [delivered, keeps, Ty.leaves, Ty.kinds]

/-- A comparison whose operands deliver their values branches and leaves
nothing. -/
theorem branches_branchOnComparison
    {op : BinOp}
    {left right : Expr}
    {leftTy rightTy ty : Ty}
    {pushLeft pushRight : CodeStep}
    (leftResult : leftTy.IsResult strict)
    (rightResult : rightTy.IsResult strict)
    (leftDelivers : ∀ {before done : CodeStream}, pushLeft before = .ok done →
      Delivers read leftTy.kinds before done)
    (rightDelivers : ∀ {before done : CodeStream}, pushRight before = .ok done →
      Delivers read rightTy.kinds before done)
    (found : op.resultType? leftTy rightTy = some ty)
    (leftTaken : leftTy.TakenFor (context.exprType left))
    (rightTaken : rightTy.TakenFor (context.exprType right))
    (compares : (context.exprType left).isUnknown = true → leftTy.isReference = false)
    {branchIf : Bool}
    {label : Label}
    (branched : context.branchOnComparison op left right pushLeft pushRight branchIf label code =
      .ok after) :
    Branches read label code after := by
  simp only [branchOnComparison, bind_eq_ok] at branched
  obtain ⟨condition, -, pushed, isPushed, branched⟩ := branched
  have first := leftDelivers isPushed
  cases BinOp.applies_of_resultType? leftResult.ne_unknown rightResult.ne_unknown found with
  | @numeric given other isLeft isRight operand =>
      subst isLeft isRight
      have areNumeric := BinOp.isNumeric_of_operandType? operand
      have isFirst := leftTaken.eq_of_isNumeric areNumeric.1
      have isSecond := rightTaken.eq_of_isNumeric areNumeric.2
      simp only [isFirst, isSecond, operand, bind_eq_ok, pure_eq_ok] at branched
      obtain ⟨both, isBoth, rfl⟩ := branched
      have converted := first.convertOperand rfl (given.promote other)
      have second := (converted.append (rightDelivers isBoth)).convertOperand rfl
        (given.promote other)
      exact second.branchOnValues (BinOp.isNumeric_promote _ _) op condition label
  | truthValues isLeft isRight isEquality noOperand =>
      subst isLeft isRight
      have noTaken := leftTaken.operandType?_eq_none rightTaken noOperand
      have notReference : (context.exprType left).isReference = false := leftTaken.isReference_eq
      simp only [noTaken, notReference, Bool.false_eq_true, if_false, bind_eq_ok, pure_eq_ok]
        at branched
      obtain ⟨both, isBoth, rfl⟩ := branched
      exact (first.append (rightDelivers isBoth)).branch rfl rfl rfl
  | references isLeft isRight isEquality noOperand =>
      have noTaken := leftTaken.operandType?_eq_none rightTaken noOperand
      have isReference : (context.exprType left).isReference = true := by
        cases missed : (context.exprType left).isUnknown with
        | true =>
            rw [compares missed] at isLeft
            cases isLeft
        | false =>
            rw [leftTaken.isReference_eq, isLeft, missed]
            rfl
      simp only [noTaken, isReference, if_true, bind_eq_ok, pure_eq_ok] at branched
      obtain ⟨both, isBoth, rfl⟩ := branched
      have pushedBoth := first.append (rightDelivers isBoth)
      rw [Ty.kinds_of_isReference isLeft, Ty.kinds_of_isReference isRight] at pushedBoth
      exact pushedBoth.branch rfl rfl rfl

/-- A compound assignment leaves the value that its target has then, if it is
wanted. -/
theorem delivers_assignOperated
    {id : LocalId}
    {op : BinOp}
    {value : Expr}
    {valueTy : Ty}
    {pushValue : CodeStep}
    {wanted : Bool}
    (result : valueTy.IsResult strict)
    (isValue : (context.localAt id).type.isValue strict = true)
    (applies : compoundApplies op (context.localAt id).type valueTy = true)
    (isTaken : valueTy.TakenFor (context.exprType value))
    (delivers : ∀ {before done : CodeStream}, pushValue before = .ok done →
      Delivers read valueTy.kinds before done)
    (assigned : context.assignOperated id op value pushValue wanted code = .ok after) :
    Delivers read (if wanted then [.ofTy (context.localAt id).type] else []) code after := by
  simp only [compoundApplies, Bool.and_eq_true, Bool.not_eq_true'] at applies
  obtain ⟨arithmetic, applies⟩ := applies
  cases found : op.resultType? (context.localAt id).type valueTy with
  | none =>
      simp [found] at applies
  | some computed =>
      obtain ⟨target, given, isTarget, isGiven, -, isSource, operand, -⟩ := operandType?_exprType
        (Ty.IsResult.ne_unknown (.inr (.inr isValue))) result.ne_unknown arithmetic found
        (.same _) isTaken
      rw [isTarget] at operand
      simp only [assignOperated, isTarget, operand, Ty.primitive?, bind_eq_ok] at assigned
      obtain ⟨loaded, isLoaded, both, isBoth, arith, -, stored⟩ := assigned
      have isKind : kindOf context.scope id = .ofPrimitive target := by
        change ValueKind.ofTy (context.localAt id).type = _
        rw [isTarget]
        rfl
      have first := (Delivers.refl read code).load isLoaded
      rw [isKind] at first
      have second := delivers isBoth
      rw [isGiven] at second
      have operands := ((first.convert (target.promote given)).append second).convertOperand isSource
        (target.promote given)
      have computed := (operands.arith arith).convert target
      rw [← isKind] at computed
      rw [isTarget]
      have isStored := computed.store stored
      rwa [isKind] at isStored

/-- Invoking a function takes its arguments and leaves its result. -/
theorem delivers_invokeFunction
    (reads : read.Reads context.table)
    (tableSound : context.table.Sound strict)
    {name : String}
    {info : FunctionInfo}
    (found : context.table.function? name = some info)
    (delivers : Delivers read (info.signature.shape.params.reverse ++ kinds) code middle) :
    Delivers read (info.signature.returnType.leaves info.signature.resultKind ++ kinds) code
      (middle.emit (.invoke .static
        ⟨context.table.internalName info.owner, name,
          context.table.methodDescriptor info.signature⟩)) := by
  have member := NameTable.mem_of_find? found
  refine delivers.emit ?_ rfl rfl
  simp only [Instruction.effect, reads.functions _ member, if_true, List.append_nil,
    popKinds_append, Option.map_some,
    Signature.shape_result_toList (tableSound.functions _ member)]

/-- Methods are not invoked as functions. -/
theorem invokeKind_ne_static
    (owner : Ty) :
    context.invokeKind owner ≠ .static := by
  unfold invokeKind
  split <;> nofun

/-- The descriptor of a method that is found is read as its declared signature. -/
theorem read_methodDescriptor
    (reads : read.Reads context.table)
    {receiver : Ty}
    {name : String}
    {found : ClassTable.FoundMethod}
    (finds : context.table.lookupMethod receiver name = some found) :
    read (context.table.methodDescriptor found.declared) = some found.declared.shape := by
  obtain ⟨entry, inTable, method, inClass, isDeclared⟩ :=
    ClassTable.exists_declared_of_lookupMethod finds
  have reading := reads.methods entry inTable method inClass
  rwa [isDeclared] at reading

/-- Invoking a method takes its receiver and arguments and leaves its result. -/
theorem delivers_invokeMethod
    (reads : read.Reads context.table)
    (tableSound : context.table.Sound strict)
    {receiver : Ty}
    (result : receiver.IsResult strict)
    {name : String}
    {found : ClassTable.FoundMethod}
    (finds : context.table.lookupMethod receiver name = some found)
    (delivers : Delivers read (found.declared.shape.params.reverse ++ .reference :: kinds) code
      middle) :
    Delivers read (found.seen.returnType.leaves found.declared.resultKind ++ kinds) code
      (middle.emit (.invoke (context.invokeKind found.owner.toTy)
        ⟨context.table.referenceName found.owner.toTy, name,
          context.table.methodDescriptor found.declared⟩)) := by
  have sound := ClassTable.isSound_lookupMethod tableSound result finds
  have sameVoid : found.declared.returnType.leaves found.declared.resultKind =
      found.seen.returnType.leaves found.declared.resultKind := by
    simp only [Ty.leaves, sound.void_iff]
  refine delivers.emit ?_ rfl rfl
  simp only [Instruction.effect, read_methodDescriptor reads finds, invokeKind_ne_static, if_false,
    Signature.shape_result_toList sound.declared, sameVoid]
  rw [List.append_cons _ _ kinds, popKinds_append]
  rfl

/-- Calling a function takes its arguments and leaves its result, if that is
wanted. -/
theorem delivers_callFunction
    (reads : read.Reads context.table)
    (tableSound : context.table.Sound strict)
    {name : String}
    {info : FunctionInfo}
    (found : context.table.function? name = some info)
    (delivers : Delivers read (info.signature.shape.params.reverse ++ kinds) code middle)
    {wanted : Bool}
    (drops : info.signature.resultKind.drops info.signature.returnType wanted = true) :
    Delivers read
      ((if wanted then info.signature.returnType.leaves info.signature.resultKind else []) ++ kinds)
      code (context.callFunction name info wanted middle) :=
  Delivers.keepResult (delivers_invokeFunction reads tableSound found delivers) drops

/-- Calling a method takes its receiver and arguments and leaves its result, if
that is wanted. -/
theorem delivers_callMethod
    (reads : read.Reads context.table)
    (tableSound : context.table.Sound strict)
    {receiver : Ty}
    (result : receiver.IsResult strict)
    {name : String}
    {found : ClassTable.FoundMethod}
    (finds : context.table.lookupMethod receiver name = some found)
    (delivers : Delivers read (found.declared.shape.params.reverse ++ .reference :: kinds) code
      middle)
    (casts : found.isCast = true → found.declared.resultKind = .reference)
    {wanted : Bool}
    (drops : found.declared.resultKind.drops found.seen.returnType wanted = true) :
    Delivers read
      ((if wanted then found.seen.returnType.leaves
        (if found.isCast then .reference else found.declared.resultKind) else []) ++ kinds) code
      (context.callMethod name found wanted middle) := by
  have called := delivers_invokeMethod reads tableSound result finds delivers
  cases isCast : found.isCast with
  | true =>
      have isReference := casts isCast
      have castWhen := isCast
      simp only [ClassTable.FoundMethod.isCast] at castWhen
      simp only [callMethod, castWhen, if_true]
      rw [isReference] at called drops
      refine Delivers.keepResult ?_ drops
      simp only [Bool.and_eq_true] at castWhen
      have notVoid : found.seen.returnType ≠ .void := by
        intro isVoid
        simp [isVoid, Ty.isReference] at castWhen
      rw [Ty.leaves_of_ne_void notVoid] at called ⊢
      exact called.emit rfl rfl rfl
  | false =>
      have castWhen := isCast
      simp only [ClassTable.FoundMethod.isCast] at castWhen
      simp only [callMethod, castWhen, Bool.false_eq_true, if_false]
      exact Delivers.keepResult called drops

/-- Creating an array leaves the array. -/
theorem delivers_creation
    (read : DescriptorReader)
    (table : ClassTable)
    (component : Ty)
    (length : Nat)
    (code : CodeStream) :
    Delivers read [.reference] code
      ((code.emit (.intConst (Int32.ofNat length))).emit (creation table component)) := by
  have plain : (creation table component).effect read [.int] = some [.reference] ∧
      (creation table component).target? = none ∧
      (creation table component).endsFlow = false := by
    unfold creation
    split <;> exact ⟨rfl, rfl, rfl⟩
  exact ((Delivers.refl read code).constant _).emit plain.1 plain.2.1 plain.2.2

mutual

/-- The code of an expression whose parts are used as what they are delivers
its value if that is wanted, and nothing otherwise. -/
theorem delivers_pushExpr
    (sound : context.Sound strict)
    (counted : place.count ≤ context.scope.locals.size)
    (reads : read.Reads context.table) :
    ∀ {expr : Expr} {wanted : Bool} {ty : Ty} {code after : CodeStream},
      context.HasType strict place expr ty →
      context.Faithful expr wanted = true →
      context.pushExpr expr wanted code = .ok after →
      Delivers read (if wanted then context.delivered expr ty else []) code after
  | .intLit .., wanted, ty, code, after, typed, _, pushed
  | .boolLit .., wanted, ty, code, after, typed, _, pushed
  | .stringLit .., wanted, ty, code, after, typed, _, pushed
  | .null _, wanted, ty, code, after, typed, _, pushed => by
      rw [HasType] at typed
      subst typed
      simp only [pushExpr, Except.ok.injEq] at pushed
      subst pushed
      cases wanted with
      | false =>
          exact .refl read code
      | true =>
          exact (Delivers.refl read code).emit rfl rfl rfl
  | .name _ ref, wanted, ty, code, after, typed, _, pushed => by
      rw [HasType] at typed
      obtain ⟨id, binds, -, rfl⟩ := typed
      cases wanted with
      | false =>
          simp only [pushExpr, Bool.false_eq_true, if_false, Except.ok.injEq] at pushed
          exact pushed ▸ .refl read code
      | true =>
          simp only [pushExpr, if_true, binds.bindingOf, bind_eq_ok, Except.ok.injEq,
            exists_eq_left'] at pushed
          have notVoid := Ty.ne_void_of_isValue (sound.isValue_local counted binds)
          simp only [if_true, delivered_of_ne_void notVoid, deliveredKind, staticType, boundType,
            binds.1]
          exact (Delivers.refl read code).load pushed
  | .newArray span component elements, wanted, ty, code, after, typed, faithful, pushed => by
      rw [HasType] at typed
      obtain ⟨componentTy, allowed, resolved, fill, rfl⟩ := typed
      simp only [Faithful, createdComponent, resolved, Bool.and_eq_true] at faithful
      cases wanted with
      | false =>
          simp only [pushExpr, Bool.false_eq_true, if_false] at pushed
          exact delivers_runExprs sound counted reads fill faithful.2 pushed
      | true =>
          have carries : elements.all (fun expr =>
              context.Carries expr componentTy (.ofTy componentTy)) = true := by
            simpa using faithful.1
          have value := (ClassTable.resolve_isValue sound.typeVars allowed resolved).1
          simp only [pushExpr, componentType, if_true, resolved, bind_eq_ok, newArray_eq_ok,
            Except.ok.injEq, exists_eq_left'] at pushed
          obtain ⟨created, ⟨-, rfl⟩, filled⟩ := pushed
          have empty := delivers_creation read context.table componentTy elements.length code
          have isArray : context.delivered (.newArray span component elements) (.array componentTy) =
              [.reference] := by
            simp [delivered, Ty.leaves, deliveredKind, staticType, resolved, ValueKind.ofTy]
          rw [if_pos rfl, isArray]
          exact delivers_fillArray sound counted reads fill value carries faithful.2 empty filled
  | .binary span op left right, wanted, ty, code, after, typed, faithful, pushed => by
      have emittable := emittable_of_pushExpr sound counted typed pushed
      have isStatic := typed.staticType
      rw [HasType] at typed
      obtain ⟨leftTy, rightTy, leftTyped, rightTyped, found⟩ := typed
      simp only [Faithful, Bool.and_eq_true] at faithful
      simp only [Emittable, Bool.and_eq_true] at emittable
      have leftTaken := leftTyped.takenFor sound counted emittable.1
      have rightTaken := rightTyped.takenFor sound counted emittable.2
      have leftResult := leftTyped.isResult sound counted
      have rightResult := rightTyped.isResult sound counted
      cases wanted with
      | false =>
          simp only [pushExpr, Bool.false_eq_true, if_false, bind_eq_ok] at pushed
          obtain ⟨ran, isRan, pushed⟩ := pushed
          exact (delivers_pushExpr sound counted reads leftTyped faithful.1.2 isRan).append
            (delivers_pushExpr sound counted reads rightTyped faithful.2 pushed)
      | true =>
          simp only [Bool.not_true, Bool.false_or, Compares, Bool.and_eq_true] at faithful
          obtain ⟨⟨⟨⟨compares, keepsLeft⟩, keepsRight⟩, faithfulLeft⟩, faithfulRight⟩ := faithful
          have leftDelivers : ∀ {before done : CodeStream},
              context.pushExpr left true before = .ok done →
              Delivers read leftTy.kinds before done := by
            intro before done isPushed
            rw [← Keeps.delivered_eq keepsLeft leftTyped]
            exact delivers_pushExpr sound counted reads leftTyped faithfulLeft isPushed
          have rightDelivers : ∀ {before done : CodeStream},
              context.pushExpr right true before = .ok done →
              Delivers read rightTy.kinds before done := by
            intro before done isPushed
            rw [← Keeps.delivered_eq keepsRight rightTyped]
            exact delivers_pushExpr sound counted reads rightTyped faithfulRight isPushed
          have notVoid : ty ≠ .void := Ty.ne_void_of_isValue (Ty.isValue_of_isPrimitive strict
            (Ty.isPrimitive_resultType? leftResult rightResult found))
          simp only [if_true, delivered_of_ne_void notVoid, deliveredKind, isStatic]
          simp only [pushExpr, if_true] at pushed
          cases isComparison : op.isComparison with
          | true =>
              have comparesReferences : (context.exprType left).isUnknown = true →
                  leftTy.isReference = false := by
                intro missed
                simpa [missed, leftTyped.staticType] using compares
              have isTruth := BinOp.eq_boolean_of_isComparison leftResult.ne_unknown
                rightResult.ne_unknown isComparison found
              subst isTruth
              rw [isComparison, if_pos rfl] at pushed
              exact delivers_testValue (fun branched => branches_branchOnComparison leftResult
                rightResult leftDelivers rightDelivers found leftTaken rightTaken comparesReferences
                branched) pushed
          | false =>
              obtain ⟨first, second, rfl, rfl, isFirst, isSecond, operand, rfl⟩ :=
                operandType?_exprType leftResult.ne_unknown rightResult.ne_unknown isComparison found
                  leftTaken rightTaken
              rw [isComparison, if_neg Bool.false_ne_true] at pushed
              simp only [pushArithmetic, operand, bind_eq_ok, pure_eq_ok] at pushed
              obtain ⟨one, isLeft, both, isRight, arith, -, rfl⟩ := pushed
              exact ((((leftDelivers isLeft).convertOperand isFirst (first.promote second)).append
                (rightDelivers isRight)).convertOperand isSecond (first.promote second)).arith arith
  | .assign span target none value, wanted, ty, code, after, typed, faithful, pushed => by
      rw [HasType] at typed
      obtain ⟨id, valueTy, binds, valueTyped, converts, rfl⟩ := typed
      simp only [Faithful, binds.1, Option.any_some, boundType] at faithful
      have isValue := sound.isValue_local counted binds
      simp only [pushExpr, assign, assignSimple, binds.bindingOf, bind_eq_ok, Except.ok.injEq,
        exists_eq_left'] at pushed
      simp only [delivered_of_ne_void (Ty.ne_void_of_isValue isValue), deliveredKind, binds.1,
        boundType, Option.any_some]
      cases slotted : context.hasSlot id with
      | true =>
          simp only [slotted, if_true, Bool.and_eq_true, Carries, decide_eq_true_eq] at faithful
          simp only [slotted, if_true, bind_eq_ok] at pushed ⊢
          obtain ⟨valued, isPushed, stored⟩ := pushed
          have pushedDelivers := delivers_pushExpr sound counted reads valueTyped faithful.2 isPushed
          rw [if_pos rfl, delivered_of_converts isValue converts] at pushedDelivers
          exact (pushedDelivers.convertAssigned reads faithful.1).store stored
      | false =>
          simp only [slotted, Bool.false_eq_true, if_false] at faithful pushed ⊢
          have pushedDelivers := delivers_pushExpr sound counted reads valueTyped faithful pushed
          rwa [delivered_of_converts isValue converts] at pushedDelivers
  | .assign span target (some op) value, wanted, ty, code, after, typed, faithful, pushed => by
      have emittable := emittable_of_pushExpr sound counted typed pushed
      rw [HasType] at typed
      obtain ⟨id, valueTy, binds, -, valueTyped, applies, rfl⟩ := typed
      simp only [Emittable] at emittable
      simp only [Faithful, Increments, binds.1, boundType] at faithful
      have isValue := sound.isValue_local counted binds
      simp only [pushExpr, assign, binds.bindingOf, bind_eq_ok, Except.ok.injEq,
        exists_eq_left'] at pushed
      simp only [delivered_of_ne_void (Ty.ne_void_of_isValue isValue), deliveredKind, staticType,
        binds.1, boundType]
      split at pushed
      · next delta _ =>
        simp only [bind_eq_ok] at pushed
        obtain ⟨added, isAdded, pushed⟩ := pushed
        obtain ⟨slot, -, rfl⟩ := increment_eq_ok.mp isAdded
        have incremented : Delivers read [] code (code.emit (.increment slot delta)) :=
          (Delivers.refl read code).emit rfl rfl rfl
        cases wanted with
        | false =>
            simp only [Bool.false_eq_true, if_false, pure_eq_ok] at pushed
            exact pushed ▸ incremented
        | true =>
            simp only [if_true] at pushed
            exact incremented.load pushed
      · next noIncrement =>
        have operated : context.Keeps value = true ∧ context.Faithful value true = true := by
          split at noIncrement
          · next isInt =>
              simpa [isInt, noIncrement] using faithful
          · next notInt =>
              simpa [notInt] using faithful
        refine delivers_assignOperated (valueTyped.isResult sound counted) isValue applies
          (valueTyped.takenFor sound counted emittable) (fun isPushed => ?_) pushed
        rw [← Keeps.delivered_eq operated.1 valueTyped]
        exact delivers_pushExpr sound counted reads valueTyped operated.2 isPushed
  | .call span function args, wanted, ty, code, after, typed, faithful, pushed => by
      rw [HasType] at typed
      obtain ⟨info, found, pass, rfl⟩ := typed
      simp only [Faithful, found, Bool.and_eq_true] at faithful
      obtain ⟨⟨fits, faithfulArgs⟩, drops⟩ := faithful
      have signatureSound := sound.table.functions _ (NameTable.mem_of_find? found)
      simp only [Signature.isSound, Bool.and_eq_true, List.all_eq_true] at signatureSound
      simp only [pushExpr, found, bind_eq_ok, pure_eq_ok] at pushed
      obtain ⟨arguments, arePushed, rfl⟩ := pushed
      have passed := delivers_pushArguments sound counted reads pass signatureSound.1 fits
        faithfulArgs (.refl read code) arePushed
      have called := delivers_callFunction reads sound.table found passed drops
      simp only [delivered, deliveredKind, found]
      rwa [List.append_nil] at called
  | .methodCall span receiver method args, wanted, ty, code, after, typed, faithful, pushed => by
      have emittable := emittable_of_pushExpr sound counted typed pushed
      rw [HasType] at typed
      obtain ⟨receiverTy, found, receiverTyped, finds, pass, rfl⟩ := typed
      simp only [Emittable, Bool.and_eq_true, Bool.not_eq_true'] at emittable
      simp only [Faithful, receiverTyped.staticType, finds, Bool.and_eq_true] at faithful
      obtain ⟨⟨⟨⟨⟨keeps, faithfulReceiver⟩, fits⟩, faithfulArgs⟩, casts⟩, drops⟩ := faithful
      have receiverResult := receiverTyped.isResult sound counted
      have foundSound := ClassTable.isSound_lookupMethod sound.table receiverResult finds
      have seenSound := foundSound.seen
      simp only [Signature.isSound, Bool.and_eq_true, List.all_eq_true] at seenSound
      have isFound := (receiverTyped.takenFor sound counted emittable.1.2).lookupMethod
        emittable.1.1 context.table method.node
      simp only [pushExpr, isFound, finds, bind_eq_ok, pure_eq_ok] at pushed
      obtain ⟨object, isObject, arguments, arePushed, rfl⟩ := pushed
      have onReceiver := delivers_pushExpr sound counted reads receiverTyped faithfulReceiver
        isObject
      rw [if_pos rfl, Keeps.delivered_eq keeps receiverTyped,
        Ty.kinds_of_isReference (ClassTable.isReference_of_lookupMethod finds)] at onReceiver
      have passed := delivers_pushArguments sound counted reads pass seenSound.1 fits
        faithfulArgs onReceiver arePushed
      have isReference : found.isCast = true → found.declared.resultKind = .reference := by
        intro isCast
        simpa [isCast] using casts
      have called := delivers_callMethod reads sound.table receiverResult finds passed isReference
        drops
      simp only [delivered, deliveredKind, receiverTyped.staticType, finds]
      rwa [List.append_nil] at called

theorem delivers_runExprs
    (sound : context.Sound strict)
    (counted : place.count ≤ context.scope.locals.size)
    (reads : read.Reads context.table) :
    ∀ {exprs : List Expr} {component : Ty} {code after : CodeStream},
      context.Fill strict place component exprs →
      context.AllFaithful exprs false = true →
      context.runExprs exprs code = .ok after →
      Delivers read [] code after
  | [], component, code, after, fill, _, ran => by
      simp only [runExprs, Except.ok.injEq] at ran
      exact ran ▸ .refl read code
  | expr :: rest, component, code, after, fill, faithful, ran => by
      rw [Fill] at fill
      obtain ⟨⟨ty, typed, -⟩, restFill⟩ := fill
      simp only [AllFaithful, Bool.and_eq_true] at faithful
      simp only [runExprs, bind_eq_ok] at ran
      obtain ⟨middle, first, remaining⟩ := ran
      exact (delivers_pushExpr sound counted reads typed faithful.1 first).append
        (delivers_runExprs sound counted reads restFill faithful.2 remaining)

theorem delivers_fillArray
    (sound : context.Sound strict)
    (counted : place.count ≤ context.scope.locals.size)
    (reads : read.Reads context.table) :
    ∀ {exprs : List Expr} {component : Ty} {index : Nat} {kinds : KindStack}
      {code middle after : CodeStream},
      context.Fill strict place component exprs →
      component.isValue strict = true →
      exprs.all (fun expr => context.Carries expr component (.ofTy component)) = true →
      context.AllFaithful exprs true = true →
      Delivers read (.reference :: kinds) code middle →
      context.fillArray component exprs index middle = .ok after →
      Delivers read (.reference :: kinds) code after
  | [], component, index, kinds, code, middle, after, fill, value, carries, _, delivers, filled => by
      simp only [fillArray, Except.ok.injEq] at filled
      exact filled ▸ delivers
  | expr :: rest, component, index, kinds, code, middle, after, fill, value, carries, faithful,
      delivers, filled => by
      rw [Fill] at fill
      obtain ⟨⟨ty, typed, converts⟩, restFill⟩ := fill
      simp only [AllFaithful, Bool.and_eq_true] at faithful
      simp only [List.all_cons, Bool.and_eq_true] at carries
      have carried := carries.1
      simp only [Carries, decide_eq_true_eq] at carried
      simp only [fillArray, bind_eq_ok] at filled
      obtain ⟨pushed, isPushed, remaining⟩ := filled
      have copied : Delivers read (.reference :: .reference :: kinds) code (middle.emit .dup) :=
        delivers.emit rfl rfl rfl
      have indexed := copied.constant (Int32.ofNat index)
      have valued := indexed.append (delivers_pushExpr sound counted reads typed faithful.1 isPushed)
      rw [if_pos rfl, delivered_of_converts value converts] at valued
      have converted := valued.convertAssigned reads carried
      have stores : (Instruction.arrayStore (.ofTy component)).effect read
          (.ofTy component :: .int :: .reference :: .reference :: kinds) =
            some (.reference :: kinds) := by
        simp [Instruction.effect, popKinds, ArrayKind.valueKind_ofTy]
      exact delivers_fillArray sound counted reads restFill value carries.2 faithful.2
        (converted.emit stores rfl rfl) remaining

theorem delivers_pushArguments
    (sound : context.Sound strict)
    (counted : place.count ≤ context.scope.locals.size)
    (reads : read.Reads context.table) :
    ∀ {exprs : List Expr} {params : List Ty} {named : List ValueKind} {kinds : KindStack}
      {code middle after : CodeStream},
      context.Pass strict place params exprs →
      (∀ param ∈ params, param.isValue strict = true) →
      context.Fits exprs params named = true →
      context.AllFaithful exprs true = true →
      Delivers read kinds code middle →
      context.pushArguments exprs params middle = .ok after →
      Delivers read (named.reverse ++ kinds) code after
  | [], params, named, kinds, code, middle, after, pass, values, fits, _, delivers, pushed => by
      rw [Pass] at pass
      subst pass
      cases named with
      | nil =>
          simp only [pushArguments, Except.ok.injEq] at pushed
          exact pushed ▸ delivers
      | cons kind others =>
          cases fits
  | expr :: rest, params, named, kinds, code, middle, after, pass, values, fits, faithful, delivers,
      pushed => by
      rw [Pass] at pass
      obtain ⟨param, others, ty, rfl, typed, converts, restPass⟩ := pass
      cases named with
      | nil =>
          cases fits
      | cons kind remainingKinds =>
          simp only [AllFaithful, Bool.and_eq_true] at faithful
          simp only [Fits, Bool.and_eq_true] at fits
          have carried := fits.1
          simp only [Carries, decide_eq_true_eq] at carried
          simp only [pushArguments, bind_eq_ok] at pushed
          obtain ⟨first, isPushed, remaining⟩ := pushed
          have valued := delivers.append
            (delivers_pushExpr sound counted reads typed faithful.1 isPushed)
          rw [if_pos rfl, delivered_of_converts (values param (by simp)) converts] at valued
          have passed := delivers_pushArguments sound counted reads restPass
            (fun other member => values other (by simp [member])) fits.2 faithful.2
            (valued.convertAssigned reads carried) remaining
          simpa using passed

end

end CodeContext

end LoopLowering
