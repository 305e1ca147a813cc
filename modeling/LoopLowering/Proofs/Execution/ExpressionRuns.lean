import LoopLowering.Proofs.Execution.ExpressionSteps

namespace LoopLowering

/-!
# Steps of calls and of new arrays

A call takes its arguments from the operands, and what it answers comes from
outside. A new array is created before its elements are put there.
-/

namespace CodeContext

variable
  {strict : Bool}
  {context : CodeContext}
  {code : MethodCode}
  {outside : Outside}
  {place : Place}
  {kept : Nat → Option Word}
  {set : VarSet}
  {stream next : CodeStream}
  {stack : List Word}
  {state : TreeState}
  {machine : Machine}

section Calls

variable
  {middle : CodeStream}
  {words : List Word}
  {datum : Datum}
  {memory : Memory}
  {shape : MethodShape}

/-- The operands of a call are those that its descriptor says. -/
theorem popWords_arguments
    (areKinds : words.map Word.kind = shape.params)
    (stack : List Word) :
    popWords shape.params.reverse (words.reverse ++ stack) = some (words.reverse, stack) := by
  rw [← areKinds, ← List.map_reverse, popWords_append]

/-- A function is called with its arguments and answers. -/
theorem brings_invokeFunction
    (ref : MethodRef)
    (reading : MethodShape.ofDescriptor ref.descriptor = some shape)
    (areKinds : words.map Word.kind = shape.params)
    (brings : code.Brings outside stream machine middle
      (context.Stands place set kept (words.reverse ++ stack) state))
    (answered : outside.answer (.function ref words) state.memory = (datum, memory)) :
    code.Brings outside stream machine (middle.emit (.invoke .static ref))
      (context.Stands place set kept (shape.result.toList.map datum.word ++ stack)
        (state.withMemory memory)) := by
  refine brings.emit rfl (fun slots => ?_) rfl
  simp only [Instruction.perform?, reading, popWords_arguments areKinds, Option.bind_eq_bind,
    Option.bind_some, if_true, Machine.withStack, Machine.call, List.reverse_reverse, answered]
  rfl

/-- A method is called on its receiver with its arguments and answers. -/
theorem brings_invokeMethod
    (ref : MethodRef)
    {kind : InvokeKind}
    (notStatic : kind ≠ .static)
    (reading : MethodShape.ofDescriptor ref.descriptor = some shape)
    (areKinds : words.map Word.kind = shape.params)
    {receiver : Reference}
    (brings : code.Brings outside stream machine middle
      (context.Stands place set kept (words.reverse ++ .reference receiver :: stack) state))
    (answered : outside.answer (.method ref.name ref.descriptor receiver words) state.memory =
      (datum, memory)) :
    code.Brings outside stream machine (middle.emit (.invoke kind ref))
      (context.Stands place set kept (shape.result.toList.map datum.word ++ stack)
        (state.withMemory memory)) := by
  refine brings.emit rfl (fun slots => ?_) rfl
  simp only [Instruction.perform?, reading, popWords_arguments areKinds, Option.bind_eq_bind,
    Option.bind_some, if_neg notStatic, Machine.withStack, Machine.call, List.reverse_reverse,
    answered]
  rfl

/-- The value of a call is what its caller sees of the answer. -/
theorem brings_keepResult
    {signature : Signature}
    (isWord : signature.returnType.isWord = true)
    (brings : code.Brings outside stream machine middle (context.Stands place set kept
      (signature.kinds.result.toList.map datum.word ++ stack) state))
    (wanted : Bool) :
    ∃ pushed,
      (Value.word (datum.word (.ofTy signature.returnType))).Leaves signature.returnType wanted
        pushed ∧
      code.Brings outside stream machine (middle.keepResult signature.returnType wanted)
        (context.Stands place set kept (pushed ++ stack) state) := by
  by_cases isVoid : signature.returnType = .void
  · refine ⟨[], .void isVoid, ?_⟩
    simpa [Signature.kinds, CodeStream.keepResult, isVoid] using brings
  · have isKind := datum.kind_word (Ty.ofTy_eq_or_of_isWord isWord)
    refine ⟨_, .ofWord isVoid isKind wanted, ?_⟩
    have notVoid : (signature.returnType == Ty.void) = false := beq_eq_false_iff_ne.mpr isVoid
    simp only [Signature.kinds, isVoid, if_false, Option.toList_some, List.map_cons, List.map_nil]
      at brings
    cases wanted with
    | true =>
        exact brings
    | false =>
        have narrow : (ValueKind.ofTy signature.returnType).isWide = false := by
          rcases Ty.ofTy_eq_or_of_isWord isWord with isKind | isKind <;> rw [isKind] <;> rfl
        simp only [CodeStream.keepResult, Bool.false_or, notVoid, Bool.false_eq_true, if_false,
          CodeStream.popValue, narrow, List.nil_append]
        exact brings.operate rfl fun slots => rfl

/-- A cast of a result changes nothing. -/
theorem brings_cast
    {found : ClassTable.FoundMethod}
    {ty : String}
    (brings : code.Brings outside stream machine middle (context.Stands place set kept
      (found.seen.kinds.result.toList.map datum.word ++ stack) state)) :
    code.Brings outside stream machine
      (if found.seen.returnType.isReference &&
          found.seen.returnType.erasure != found.declared.returnType.erasure then
        middle.emit (.checkCast ty)
      else middle)
      (context.Stands place set kept (found.seen.kinds.result.toList.map datum.word ++ stack)
        state) := by
  split
  · next isCast =>
      simp only [Bool.and_eq_true] at isCast
      have notVoid : found.seen.returnType ≠ .void := by
        intro isVoid
        simp [isVoid, Ty.isReference] at isCast
      refine brings.operate rfl fun slots => ?_
      simp only [Signature.kinds, notVoid, if_false, ValueKind.ofTy_of_isReference isCast.1,
        Option.toList_some, List.map_cons, List.map_nil]
      rfl
  · exact brings

/-- A new array is created. -/
theorem brings_creation
    {component : Ty}
    {length : Nat}
    (brings : code.Brings outside stream machine middle (context.Stands place set kept stack state))
    (bounded : length < 0x80000000) :
    code.Brings outside stream machine
      ((middle.emit (.intConst (Int32.ofNat length))).emit
        (CodeStream.creation context.table component))
      (context.Stands place set kept (.reference state.memory.next :: stack)
        (state.withMemory (state.memory.create length bounded))) := by
  have sized : code.Brings outside stream machine (middle.emit (.intConst (Int32.ofNat length)))
      (context.Stands place set kept (.int (Int32.ofNat length) :: stack) state) :=
    brings.operate rfl fun slots => rfl
  have isLength := toNat_toInt_ofNat bounded
  have fits : (Int32.ofNat length).toInt.toNat < 0x80000000 ∧ 0 ≤ Int32.ofNat length :=
    ⟨by rw [isLength]; exact bounded, zero_le_ofNat bounded⟩
  have isCreated := state.memory.create_congr isLength fits.1 bounded
  refine sized.emit ?_ (fun slots => ?_) rfl
  · unfold CodeStream.creation
    split <;> rfl
  · unfold CodeStream.creation
    split <;> simp only [Instruction.perform?, dif_pos fits, isCreated] <;> rfl

end Calls

section Arguments

variable
  {args : List Expr}
  {later : VarSet}

/-- The code of arguments pushes their values one after the other. -/
def PushesArguments
    (context : CodeContext)
    (code : MethodCode)
    (outside : Outside)
    (place : Place)
    (kept : Nat → Option Word)
    (args : List Expr)
    (params : List Ty)
    (before after : VarSet) :
    Prop :=
  ∀ {stream next : CodeStream} {stack : List Word} {state : TreeState} {machine : Machine},
    context.pushArguments args params stream = .ok next →
    context.Stands place before kept stack state machine →
    ∃ (words : List Word) (final : TreeState),
      context.EvaluatesAll outside state args (words.map .word) final ∧
      words.map Word.kind = params.map .ofTy ∧
      code.Brings outside stream machine next
        (context.Stands place after kept (words.reverse ++ stack) final)

/-- The code that fills an array puts the elements there one after the other. -/
def FillsArray
    (context : CodeContext)
    (code : MethodCode)
    (outside : Outside)
    (place : Place)
    (kept : Nat → Option Word)
    (component : Ty)
    (elements : List Expr)
    (index : Nat)
    (before after : VarSet) :
    Prop :=
  ∀ {stream next : CodeStream} {stack : List Word} {state : TreeState} {machine : Machine}
      {array : Reference},
    index + elements.length < 0x80000000 →
    context.fillArray component elements index stream = .ok next →
    context.Stands place before kept (.reference array :: stack) state machine →
    ∃ final, context.Fills outside state array index elements final ∧
      code.Brings outside stream machine next
        (context.Stands place after kept (.reference array :: stack) final)

/-- A function is called after its arguments. -/
theorem computes_call
    (executable : context.Executable strict)
    {span : Span}
    {function : Spanned String}
    {info : FunctionInfo}
    (found : context.table.function? function.node = some info)
    (isWord : info.signature.returnType.isWord = true)
    (sameShape : info.signature.shape = info.signature.kinds)
    (pushes : context.PushesArguments code outside place kept args info.signature.params set later)
    (wanted : Bool) :
    context.Computes code outside place kept (context.pushExpr (.call span function args) wanted)
      set later
      (context.Yields outside (.call span function args) info.signature.returnType wanted) := by
  intro stream next stack state machine pushed stands
  simp only [pushExpr, found, bind_eq_ok, pure_eq_ok] at pushed
  obtain ⟨arguments, arePushed, rfl⟩ := pushed
  obtain ⟨words, between, evaluates, areKinds, brings⟩ := pushes arePushed stands
  have reading := executable.reads.functions _ (NameTable.mem_of_find? found)
  rw [sameShape] at reading
  have called := brings_invokeFunction ⟨context.table.internalName info.owner, function.node,
    context.table.methodDescriptor info.signature⟩ reading areKinds brings rfl
  obtain ⟨left, leaves, brings⟩ := brings_keepResult isWord called wanted
  exact ⟨left, _, ⟨_, .call found evaluates rfl, leaves⟩, brings⟩

/-- A method is called after its receiver and its arguments. -/
theorem computes_methodCall
    (executable : context.Executable strict)
    {span : Span}
    {receiver : Expr}
    {receiverTy : Ty}
    {method : Spanned String}
    {found : ClassTable.FoundMethod}
    {middle : VarSet}
    (isReceiver : context.exprType receiver = receiverTy)
    (finds : context.table.lookupMethod receiverTy method.node = some found)
    (isWord : found.seen.returnType.isWord = true)
    (sameShape : found.declared.shape = found.seen.kinds)
    (computes : context.Computes code outside place kept (context.pushExpr receiver true) set middle
      (context.Yields outside receiver receiverTy true))
    (pushes : context.PushesArguments code outside place kept args found.seen.params middle later)
    (wanted : Bool) :
    context.Computes code outside place kept
      (context.pushExpr (.methodCall span receiver method args) wanted) set later
      (context.Yields outside (.methodCall span receiver method args) found.seen.returnType
        wanted) := by
  intro stream next stack state machine pushed stands
  have isReference := ClassTable.isReference_of_lookupMethod finds
  simp only [pushExpr, isReceiver, finds, bind_eq_ok, pure_eq_ok] at pushed
  obtain ⟨object, isPushed, arguments, arePushed, rfl⟩ := pushed
  obtain ⟨word, between, receiverEvaluates, receiverKind, at_, isThere, crosses⟩ :=
    computes.exists_word (by rintro rfl; cases isReference) isPushed stands
  rw [ValueKind.ofTy_of_isReference isReference] at receiverKind
  obtain ⟨object, rfl⟩ := Word.exists_reference receiverKind
  obtain ⟨words, later, evaluates, areKinds, brings⟩ := pushes arePushed isThere
  have reading := read_methodDescriptor executable.reads.toReads finds
  rw [sameShape] at reading
  have called := brings_invokeMethod ⟨context.table.referenceName found.owner.toTy, method.node,
    context.table.methodDescriptor found.declared⟩ (@invokeKind_ne_static context found.owner.toTy)
    reading areKinds (brings.ofCrosses crosses) rfl
  obtain ⟨left, leaves, brings⟩ := brings_keepResult isWord (brings_cast called) wanted
  refine ⟨left, _, ⟨_, .methodCall ?_ receiverEvaluates evaluates rfl, leaves⟩, brings⟩
  rw [isReceiver]
  exact finds

/-- A new array is created and filled if it is wanted, and stays unseen if not. -/
theorem computes_newArray
    {span : Span}
    {component : TypeExpr}
    {componentTy : Ty}
    {elements : List Expr}
    (resolved : context.table.resolve context.state.typeVars component = .ok componentTy)
    (runs : context.Computes code outside place kept (context.runExprs elements) set later
      (fun state pushed final =>
        ∃ values, context.EvaluatesAll outside state elements values final ∧ pushed = []))
    (fills : context.FillsArray code outside place kept componentTy elements 0 set later)
    (wanted : Bool) :
    context.Computes code outside place kept
      (context.pushExpr (.newArray span component elements) wanted) set later
      (context.Yields outside (.newArray span component elements) (.array componentTy) wanted) := by
  intro stream next stack state machine pushed stands
  cases wanted with
  | false =>
      simp only [pushExpr, Bool.false_eq_true, if_false] at pushed
      obtain ⟨words, final, ⟨values, evaluates, rfl⟩, brings⟩ := runs pushed stands
      exact ⟨[], final.hide values, ⟨_, .hiddenArray evaluates, .unwanted (by simp) rfl⟩,
        brings.imp fun at_ isThere => ⟨isThere.holds, isThere.operands, isThere.memory⟩⟩
  | true =>
      simp only [pushExpr, if_true, bind_eq_ok, CodeStream.newArray_eq_ok, componentType,
        resolved, Except.ok.injEq, exists_eq_left'] at pushed
      obtain ⟨created, ⟨fits, rfl⟩, filled⟩ := pushed
      have bounded : elements.length < 0x80000000 := by omega
      have begins : code.Brings outside stream machine stream
          (context.Stands place set kept stack state) := .refl stands stream
      obtain ⟨at_, isThere, crosses⟩ := brings_creation begins bounded
      obtain ⟨final, fills, brings⟩ := fills (by omega) filled isThere
      exact ⟨[.reference state.memory.next], final,
        ⟨_, .newArray bounded fills, .wanted (by simp) rfl⟩, brings.ofCrosses crosses⟩

/-- An element is put in an array before the others. -/
theorem fillsArray_cons
    {component ty : Ty}
    {expr : Expr}
    {rest : List Expr}
    {index : Nat}
    {middle : VarSet}
    (isType : context.exprType expr = ty)
    (valueWord : ty.isWord = true)
    (isWord : component.isWord = true)
    (becomes : ty.becomes component = true)
    (notVoid : ty ≠ .void)
    (computes : context.Computes code outside place kept (context.pushExpr expr true) set middle
      (context.Yields outside expr ty true))
    (fills : context.FillsArray code outside place kept component rest (index + 1) middle later) :
    context.FillsArray code outside place kept component (expr :: rest) index set later := by
  intro stream next stack state machine array bounded filled stands
  simp only [List.length_cons] at bounded
  simp only [fillArray, bind_eq_ok, isType, Ty.convertAssigned_of_becomes valueWord isWord becomes]
    at filled
  obtain ⟨pushed, isPushed, remaining⟩ := filled
  have begins : code.Brings outside stream machine stream
      (context.Stands place set kept (.reference array :: stack) state) := .refl stands stream
  have copied : code.Brings outside stream machine (stream.emit .dup) (context.Stands place set
      kept (.reference array :: .reference array :: stack) state) :=
    begins.operate rfl fun slots => rfl
  obtain ⟨at_, isThere, crosses⟩ : code.Brings outside stream machine
      ((stream.emit .dup).emit (.intConst (Int32.ofNat index))) (context.Stands place set kept
        (.int (Int32.ofNat index) :: .reference array :: .reference array :: stack) state) :=
    copied.operate rfl fun slots => rfl
  obtain ⟨word, between, evaluates, isKind, brings⟩ := computes.exists_word notVoid isPushed isThere
  have componentKind : word.kind = (ArrayKind.ofTy component).valueKind := by
    rw [ArrayKind.valueKind_ofTy]
    exact isKind.trans (Ty.ofTy_of_becomes valueWord isWord becomes)
  obtain ⟨at_, isThere, storing⟩ : code.Brings outside _ _
      (pushed.emit (.arrayStore (.ofTy component))) (context.Stands place middle kept
        (.reference array :: stack)
        (between.withMemory (between.memory.store array index word))) := by
    refine brings.emit rfl (fun slots => ?_) rfl
    simp only [Instruction.perform?, if_pos componentKind,
      toNat_toInt_ofNat (show index < 0x80000000 by omega)]
    rfl
  obtain ⟨final, fills, filling⟩ := fills (by omega) remaining isThere
  exact ⟨final, .cons evaluates fills, (filling.ofCrosses storing).ofCrosses crosses⟩

/-- An argument is pushed before the others. -/
theorem pushesArguments_cons
    {ty param : Ty}
    {expr : Expr}
    {params : List Ty}
    {middle : VarSet}
    (isType : context.exprType expr = ty)
    (valueWord : ty.isWord = true)
    (isWord : param.isWord = true)
    (becomes : ty.becomes param = true)
    (notVoid : ty ≠ .void)
    (computes : context.Computes code outside place kept (context.pushExpr expr true) set middle
      (context.Yields outside expr ty true))
    (pushes : context.PushesArguments code outside place kept args params middle later) :
    context.PushesArguments code outside place kept (expr :: args) (param :: params) set later := by
  intro stream next stack state machine pushed stands
  simp only [pushArguments, bind_eq_ok, isType,
    Ty.convertAssigned_of_becomes valueWord isWord becomes] at pushed
  obtain ⟨first, isPushed, remaining⟩ := pushed
  obtain ⟨word, between, evaluates, isKind, at_, isThere, crosses⟩ :=
    computes.exists_word notVoid isPushed stands
  obtain ⟨words, final, evaluatesRest, areKinds, brings⟩ := pushes remaining isThere
  refine ⟨word :: words, final, .cons evaluates evaluatesRest, ?_, ?_⟩
  · rw [List.map_cons, List.map_cons, areKinds, isKind,
      Ty.ofTy_of_becomes valueWord isWord becomes]
  · rw [List.reverse_cons, List.append_assoc]
    exact brings.ofCrosses crosses

end Arguments

end CodeContext

/-!
## Running the code of expressions

The code of an expression computes what its tree does: it makes the same calls, the
locals have the same values afterwards, and it leaves the value of the expression if
that is wanted. An array of which only the effects are wanted stays unseen.
-/

namespace CodeContext

variable
  {strict : Bool}
  {context : CodeContext}
  {code : MethodCode}
  {outside : Outside}
  {place : Place}
  {kept : Nat → Option Word}

/-- What converts to a type of values is not void. -/
theorem ne_void_of_converts
    {source target : Ty}
    (isValue : target.isValue strict = true)
    (converts : context.table.converts source target = true) :
    source ≠ .void := by
  rintro rfl
  rw [context.table.converts_void isValue] at converts
  cases converts

mutual

/-- The code of an expression computes what its tree does, and leaves its value if
that is wanted. -/
theorem computes_pushExpr
    (executable : context.Executable strict)
    (counted : place.count ≤ context.scope.locals.size) :
    ∀ {expr : Expr} {ty : Ty} {set : VarSet} (wanted : Bool),
      context.HasType strict place expr ty →
      context.Unboxed expr = true →
      expr.isUnreserved = true →
      expr.ReadsAssigned set →
      context.Computes code outside place kept (context.pushExpr expr wanted) set
        (expr.definite set) (context.Yields outside expr ty wanted)
  | .intLit _ value, ty, set, wanted, typed, _, _, _ => by
      rw [HasType] at typed
      subst typed
      exact computes_constant .int (.intConst value) (.int value)
        (fun _ => .intLit) nofun rfl rfl (fun _ => rfl) wanted
  | .boolLit _ value, ty, set, wanted, typed, _, _, _ => by
      rw [HasType] at typed
      subst typed
      exact computes_constant .boolean (.intConst (if value then 1 else 0)) (.truth value)
        (fun _ => .boolLit) nofun rfl rfl (fun _ => rfl) wanted
  | .stringLit _ value, ty, set, wanted, typed, _, _, _ => by
      rw [HasType] at typed
      subst typed
      exact computes_constant .string (.stringConst value) (.reference (.text value))
        (fun _ => .stringLit) nofun rfl rfl (fun _ => rfl) wanted
  | .null _, ty, set, wanted, typed, _, _, _ => by
      rw [HasType] at typed
      subst typed
      exact computes_constant .null .nullConst (.reference .null)
        (fun _ => .null) nofun rfl rfl (fun _ => rfl) wanted
  | .name _ ref, ty, set, wanted, typed, _, unreserved, reads => by
      rw [HasType] at typed
      obtain ⟨id, binds, -, rfl⟩ := typed
      simp only [Expr.isUnreserved_name, Bool.not_eq_true'] at unreserved
      simp only [Expr.ReadsAssigned] at reads
      exact computes_name binds (executable.reserves.isSource binds unreserved)
        (Ty.ne_void_of_isValue (executable.sound.isValue_local counted binds))
        (reads id binds.bound) wanted
  | .newArray _ component elements, ty, set, wanted, typed, unboxed, unreserved, reads => by
      rw [HasType] at typed
      obtain ⟨componentTy, allowed, resolved, fill, rfl⟩ := typed
      simp only [Unboxed, createdComponent, resolved, Bool.and_eq_true] at unboxed
      simp only [Expr.isUnreserved_newArray] at unreserved
      simp only [Expr.ReadsAssigned] at reads
      exact computes_newArray resolved
        (computes_runExprs executable counted fill unboxed.2 unreserved reads)
        (fillsArray_fillArray executable counted fill
          (ClassTable.resolve_isValue executable.sound.typeVars allowed resolved).1 unboxed.1.1
          unboxed.1.2 unboxed.2 unreserved reads) wanted
  | .binary span op left right, ty, set, wanted, typed, unboxed, unreserved, reads => by
      rw [HasType] at typed
      obtain ⟨leftTy, rightTy, leftTyped, rightTyped, found⟩ := typed
      simp only [Unboxed, Bool.and_eq_true] at unboxed
      simp only [Expr.isUnreserved_binary, Bool.and_eq_true] at unreserved
      simp only [Expr.ReadsAssigned] at reads
      have leftResult := leftTyped.isResult executable.sound counted
      have rightResult := rightTyped.isResult executable.sound counted
      have applies := BinOp.appliesToWords_of_resultType? leftResult.ne_unknown
        rightResult.ne_unknown
        (leftTyped.isWord executable.sound counted executable.words unboxed.1)
        (rightTyped.isWord executable.sound counted executable.words unboxed.2) found
      have notVoid : ty ≠ .void := Ty.ne_void_of_isValue (Ty.isValue_of_isPrimitive strict
        (Ty.isPrimitive_resultType? leftResult rightResult found))
      exact computes_binary
        (fun wanted => computes_pushExpr executable counted wanted leftTyped unboxed.1
          unreserved.1 reads.1)
        (fun wanted => computes_pushExpr executable counted wanted rightTyped unboxed.2
          unreserved.2 reads.2)
        (leftTyped.exprType executable.words) (rightTyped.exprType executable.words) applies
        (fun isComparison => BinOp.eq_boolean_of_isComparison leftResult.ne_unknown
          rightResult.ne_unknown isComparison found) notVoid wanted
  | .assign span target none value, ty, set, wanted, typed, unboxed, unreserved, reads => by
      intro pushed stands
      rw [HasType] at typed
      obtain ⟨id, valueTy, binds, valueTyped, converts, rfl⟩ := typed
      simp only [Unboxed, binds.bound, boundType, valueTyped.exprType executable.words,
        Bool.and_eq_true] at unboxed
      simp only [Expr.isUnreserved_assign, Bool.and_eq_true, Bool.not_eq_true'] at unreserved
      simp only [Expr.ReadsAssigned] at reads
      have localValue := executable.sound.isValue_local counted binds
      simp only [pushExpr, assign, binds.bindingOf, bind_eq_ok, Except.ok.injEq,
        exists_eq_left'] at pushed
      obtain ⟨words, final, ⟨assigned, between, evaluates, leaves, rfl⟩, brings⟩ :=
        computes_assignSimple executable (executable.reserves.isSource binds unreserved.1)
          binds.sees localValue (executable.words.isWord_local counted binds)
          (valueTyped.exprType executable.words)
          (valueTyped.isWord executable.sound counted executable.words unboxed.2) unboxed.1
          (ne_void_of_converts localValue converts)
          (fun wanted => computes_pushExpr executable counted wanted valueTyped unboxed.2
            unreserved.2 reads.2)
          wanted pushed stands
      simp only [Expr.definite, VarSet.insertBinding, binds.bound]
      exact ⟨words, _, ⟨assigned, .assign binds.bound evaluates, leaves⟩, brings⟩
  | .assign span target (some op) value, ty, set, wanted, typed, unboxed, unreserved, reads => by
      intro pushed stands
      rw [HasType] at typed
      obtain ⟨id, valueTy, binds, -, valueTyped, applies, rfl⟩ := typed
      simp only [Unboxed, Bool.and_eq_true] at unboxed
      simp only [Expr.isUnreserved_assign, Bool.and_eq_true, Bool.not_eq_true'] at unreserved
      simp only [Expr.ReadsAssigned, Option.isSome_some, true_imp_iff] at reads
      have isSource := executable.reserves.isSource binds unreserved.1
      have localValue := executable.sound.isValue_local counted binds
      have member := reads.1 id binds.bound
      obtain ⟨isInt, rfl⟩ := ints_of_compoundApplies
        (Ty.IsResult.ne_unknown (.inr (.inr localValue)))
        (valueTyped.isResult executable.sound counted).ne_unknown
        (executable.words.isWord_local counted binds)
        (valueTyped.isWord executable.sound counted executable.words unboxed.2) applies
      simp only [pushExpr, assign, binds.bindingOf, bind_eq_ok, Except.ok.injEq,
        exists_eq_left', isInt, if_true] at pushed
      simp only [Expr.definite, VarSet.insertBinding, binds.bound, isInt]
      cases small : increment? op value with
      | some delta =>
          rw [small] at pushed
          exact computes_increment executable binds isSource member isInt small wanted pushed stands
      | none =>
          rw [small] at pushed
          exact computes_assignOperated executable binds isSource member isInt
            (valueTyped.exprType executable.words)
            (computes_pushExpr executable counted true valueTyped unboxed.2 unreserved.2 reads.2)
            wanted pushed stands
  | .call span function args, ty, set, wanted, typed, unboxed, unreserved, reads => by
      rw [HasType] at typed
      obtain ⟨info, found, pass, rfl⟩ := typed
      simp only [Unboxed, found, Signature.isUnboxed, Bool.and_eq_true, decide_eq_true_eq]
        at unboxed
      simp only [Expr.isUnreserved_call] at unreserved
      simp only [Expr.ReadsAssigned] at reads
      have signature := executable.sound.table.functions _ (NameTable.mem_of_find? found)
      simp only [Signature.isSound, Bool.and_eq_true, List.all_eq_true] at signature
      exact computes_call executable found unboxed.1.1.1.2 unboxed.1.1.2
        (pushesArguments_pushArguments executable counted pass signature.1 unboxed.1.1.1.1
          unboxed.1.2 unboxed.2 unreserved reads) wanted
  | .methodCall span receiver method args, ty, set, wanted, typed, unboxed, unreserved, reads => by
      rw [HasType] at typed
      obtain ⟨receiverTy, found, receiverTyped, finds, pass, rfl⟩ := typed
      have isReceiver := receiverTyped.exprType executable.words
      simp only [Unboxed, isReceiver, finds, Signature.isUnboxed, Bool.and_eq_true,
        decide_eq_true_eq] at unboxed
      obtain ⟨⟨⟨⟨⟨areWords, isWord⟩, sameShape⟩, receiverUnboxed⟩, passes⟩, areUnboxed⟩ := unboxed
      simp only [Expr.isUnreserved_methodCall, Bool.and_eq_true] at unreserved
      simp only [Expr.ReadsAssigned] at reads
      have signature := (ClassTable.isSound_lookupMethod executable.sound.table
        (receiverTyped.isResult executable.sound counted) finds).seen
      simp only [Signature.isSound, Bool.and_eq_true, List.all_eq_true] at signature
      exact computes_methodCall executable isReceiver finds isWord sameShape
        (computes_pushExpr executable counted true receiverTyped receiverUnboxed unreserved.1
          reads.1)
        (pushesArguments_pushArguments executable counted pass signature.1 areWords passes
          areUnboxed unreserved.2 reads.2) wanted

theorem computes_runExprs
    (executable : context.Executable strict)
    (counted : place.count ≤ context.scope.locals.size) :
    ∀ {exprs : List Expr} {component : Ty} {set : VarSet},
      context.Fill strict place component exprs →
      context.AllUnboxed exprs = true →
      Expr.areUnreserved exprs = true →
      Expr.AllReadAssigned exprs set →
      context.Computes code outside place kept (context.runExprs exprs) set
        (Expr.definiteAll exprs set) (fun state pushed final =>
          ∃ values, context.EvaluatesAll outside state exprs values final ∧ pushed = [])
  | [], component, set, _, _, _, _ => by
      intro ran stands
      simp only [runExprs, Except.ok.injEq] at ran
      subst ran
      exact ⟨[], _, ⟨[], .nil, rfl⟩, .refl stands _⟩
  | expr :: rest, component, set, fill, unboxed, unreserved, reads => by
      intro ran stands
      rw [Fill] at fill
      obtain ⟨⟨ty, typed, -⟩, restFill⟩ := fill
      simp only [AllUnboxed, Bool.and_eq_true] at unboxed
      simp only [Expr.areUnreserved_cons, Bool.and_eq_true] at unreserved
      simp only [Expr.AllReadAssigned] at reads
      simp only [runExprs, bind_eq_ok] at ran
      obtain ⟨middle, isFirst, remaining⟩ := ran
      obtain ⟨pushed, between, ⟨value, evaluates, leaves⟩, at_, isThere, crosses⟩ :=
        computes_pushExpr executable counted false typed unboxed.1 unreserved.1 reads.1 isFirst
          stands
      obtain rfl := leaves.eq_nil
      obtain ⟨others, final, ⟨values, evaluatesRest, rfl⟩, brings⟩ :=
        computes_runExprs executable counted restFill unboxed.2 unreserved.2 reads.2 remaining
          isThere
      exact ⟨[], final, ⟨value :: values, .cons evaluates evaluatesRest, rfl⟩,
        brings.ofCrosses crosses⟩

theorem fillsArray_fillArray
    (executable : context.Executable strict)
    (counted : place.count ≤ context.scope.locals.size) :
    ∀ {exprs : List Expr} {component : Ty} {index : Nat} {set : VarSet},
      context.Fill strict place component exprs →
      component.isValue strict = true →
      component.isWord = true →
      exprs.all (fun part => (context.exprType part).becomes component) = true →
      context.AllUnboxed exprs = true →
      Expr.areUnreserved exprs = true →
      Expr.AllReadAssigned exprs set →
      context.FillsArray code outside place kept component exprs index set
        (Expr.definiteAll exprs set)
  | [], component, index, set, _, _, _, _, _, _, _ => by
      intro _ filled stands
      simp only [fillArray, Except.ok.injEq] at filled
      subst filled
      exact ⟨_, .nil, .refl stands _⟩
  | expr :: rest, component, index, set, fill, isValue, isWord, become, unboxed, unreserved,
      reads => by
      rw [Fill] at fill
      obtain ⟨⟨ty, typed, converts⟩, restFill⟩ := fill
      have isType := typed.exprType executable.words
      simp only [List.all_cons, Bool.and_eq_true, isType] at become
      simp only [AllUnboxed, Bool.and_eq_true] at unboxed
      simp only [Expr.areUnreserved_cons, Bool.and_eq_true] at unreserved
      simp only [Expr.AllReadAssigned] at reads
      exact fillsArray_cons isType
        (typed.isWord executable.sound counted executable.words unboxed.1) isWord become.1
        (ne_void_of_converts isValue converts)
        (computes_pushExpr executable counted true typed unboxed.1 unreserved.1 reads.1)
        (fillsArray_fillArray executable counted restFill isValue isWord become.2 unboxed.2
          unreserved.2 reads.2)

theorem pushesArguments_pushArguments
    (executable : context.Executable strict)
    (counted : place.count ≤ context.scope.locals.size) :
    ∀ {exprs : List Expr} {params : List Ty} {set : VarSet},
      context.Pass strict place params exprs →
      (∀ param ∈ params, param.isValue strict = true) →
      params.all Ty.isWord = true →
      context.PassesUnboxed exprs params = true →
      context.AllUnboxed exprs = true →
      Expr.areUnreserved exprs = true →
      Expr.AllReadAssigned exprs set →
      context.PushesArguments code outside place kept exprs params set (Expr.definiteAll exprs set)
  | [], params, set, pass, _, _, _, _, _, _ => by
      intro pushed stands
      rw [Pass] at pass
      subst pass
      simp only [pushArguments, Except.ok.injEq] at pushed
      subst pushed
      exact ⟨[], _, .nil, rfl, .refl stands _⟩
  | expr :: rest, params, set, pass, values, areWords, passes, unboxed, unreserved, reads => by
      rw [Pass] at pass
      obtain ⟨param, others, ty, rfl, typed, converts, restPass⟩ := pass
      have isType := typed.exprType executable.words
      simp only [List.forall_mem_cons] at values
      simp only [List.all_cons, Bool.and_eq_true] at areWords
      simp only [PassesUnboxed, isType, Bool.and_eq_true] at passes
      simp only [AllUnboxed, Bool.and_eq_true] at unboxed
      simp only [Expr.areUnreserved_cons, Bool.and_eq_true] at unreserved
      simp only [Expr.AllReadAssigned] at reads
      exact pushesArguments_cons isType
        (typed.isWord executable.sound counted executable.words unboxed.1) areWords.1 passes.1
        (ne_void_of_converts values.1 converts)
        (computes_pushExpr executable counted true typed unboxed.1 unreserved.1 reads.1)
        (pushesArguments_pushArguments executable counted restPass values.2 areWords.2 passes.2
          unboxed.2 unreserved.2 reads.2)

end

end CodeContext

end LoopLowering
