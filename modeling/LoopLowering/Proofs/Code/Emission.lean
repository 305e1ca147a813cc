import LoopLowering.Proofs.Code.StaticTypes

namespace LoopLowering

/-!
# Which expressions have code

The code of an expression of a method without errors fails only where an array
has too many elements or a method is called on what has no type for code
generation.
-/

/-- A step has code wherever it stands. -/
def CodeStep.Succeeds
    (step : CodeStep) :
    Prop :=
  ∀ code, ∃ after, step code = .ok after

namespace CodeContext

open CodeStream

variable
  {context : CodeContext}
  {code after : CodeStream}

/-- Both operands of a comparison have code. -/
theorem operands_of_branchOnComparison
    {op : BinOp}
    {left right : Expr}
    {pushLeft pushRight : CodeStep}
    {branchIf : Bool}
    {label : Label}
    (branched : context.branchOnComparison op left right pushLeft pushRight branchIf label code =
      .ok after) :
    (∃ before done, pushLeft before = .ok done) ∧ ∃ before done, pushRight before = .ok done := by
  simp only [branchOnComparison, bind_eq_ok] at branched
  obtain ⟨condition, -, pushed, isPushed, branched⟩ := branched
  split at branched
  · simp only [bind_eq_ok] at branched
    obtain ⟨both, isBoth, -⟩ := branched
    exact ⟨⟨_, _, isPushed⟩, ⟨_, _, isBoth⟩⟩
  · simp only [bind_eq_ok] at branched
    obtain ⟨both, isBoth, -⟩ := branched
    exact ⟨⟨_, _, isPushed⟩, ⟨_, _, isBoth⟩⟩

/-- A bound name is bound to one local. -/
theorem Binds.bindingOf
    {place : Place}
    {ref : NameRef}
    {id : Nat}
    (binds : context.Binds place ref id) :
    bindingOf ref = .ok id := by
  simp only [CodeContext.bindingOf, binds.1]

section Emittable

variable
  {strict : Bool}
  {place : Place}

mutual

/-- Nothing in an expression that has code keeps it from being generated. -/
theorem emittable_of_pushExpr
    (sound : context.Sound strict)
    (counted : place.count ≤ context.scope.locals.size) :
    ∀ {expr : Expr} {wanted : Bool} {ty : Ty} {code after : CodeStream},
      context.HasType strict place expr ty →
      context.pushExpr expr wanted code = .ok after →
      context.Emittable expr wanted = true
  | .intLit .., wanted, ty, code, after, typed, _ | .boolLit .., wanted, ty, code, after, typed, _
  | .stringLit .., wanted, ty, code, after, typed, _ | .null _, wanted, ty, code, after, typed, _
  | .name .., wanted, ty, code, after, typed, _ => by
      rw [Emittable]
  | .newArray _ component elements, wanted, ty, code, after, typed, pushed => by
      rw [HasType] at typed
      obtain ⟨componentTy, -, -, fill, -⟩ := typed
      simp only [Emittable, Bool.and_eq_true]
      cases wanted with
      | false =>
          simp only [pushExpr, Bool.false_eq_true, if_false] at pushed
          exact ⟨rfl, emittable_of_runExprs sound counted fill pushed⟩
      | true =>
          simp only [pushExpr, if_true, bind_eq_ok, newArray_eq_ok] at pushed
          obtain ⟨type, -, created, ⟨small, -⟩, filled⟩ := pushed
          exact ⟨by simpa using small, emittable_of_fillArray sound counted fill filled⟩
  | .binary _ op left right, wanted, ty, code, after, typed, pushed => by
      rw [HasType] at typed
      obtain ⟨leftTy, rightTy, leftTyped, rightTyped, -⟩ := typed
      simp only [Emittable, Bool.and_eq_true]
      cases wanted with
      | false =>
          simp only [pushExpr, Bool.false_eq_true, if_false, bind_eq_ok] at pushed
          obtain ⟨ran, isRan, pushed⟩ := pushed
          exact ⟨emittable_of_pushExpr sound counted leftTyped isRan,
            emittable_of_pushExpr sound counted rightTyped pushed⟩
      | true =>
          simp only [pushExpr, if_true] at pushed
          split at pushed
          · obtain ⟨tested, branched, -⟩ := testValue_eq_ok.mp pushed
            obtain ⟨⟨_, _, isLeft⟩, ⟨_, _, isRight⟩⟩ := operands_of_branchOnComparison branched
            exact ⟨emittable_of_pushExpr sound counted leftTyped isLeft,
              emittable_of_pushExpr sound counted rightTyped isRight⟩
          · simp only [pushArithmetic] at pushed
            split at pushed
            · simp only [throw_eq_ok] at pushed
            · simp only [bind_eq_ok] at pushed
              obtain ⟨first, isLeft, both, isRight, -⟩ := pushed
              exact ⟨emittable_of_pushExpr sound counted leftTyped isLeft,
                emittable_of_pushExpr sound counted rightTyped isRight⟩
  | .assign _ target none value, wanted, ty, code, after, typed, pushed => by
      rw [HasType] at typed
      obtain ⟨id, valueTy, binds, valueTyped, -⟩ := typed
      simp only [pushExpr, assign, binds.bindingOf, bind_eq_ok, Except.ok.injEq,
        exists_eq_left'] at pushed
      simp only [Emittable, binds.1, Option.any_some]
      simp only [assignSimple] at pushed
      split at pushed
      · next slotted =>
          simp only [bind_eq_ok] at pushed
          obtain ⟨valued, isPushed, -⟩ := pushed
          simpa [slotted] using emittable_of_pushExpr sound counted valueTyped isPushed
      · next slotless =>
          simpa [slotless] using emittable_of_pushExpr sound counted valueTyped pushed
  | .assign _ target (some op) value, wanted, ty, code, after, typed, pushed => by
      rw [HasType] at typed
      obtain ⟨id, valueTy, binds, -, valueTyped, -⟩ := typed
      simp only [pushExpr, assign, bind_eq_ok] at pushed
      obtain ⟨id, -, assigned⟩ := pushed
      simp only [Emittable]
      split at assigned
      · next delta small =>
          split at small
          · cases value with
            | intLit span literal =>
                rw [Emittable]
            | _ =>
                cases small
          · cases small
      · simp only [assignOperated] at assigned
        split at assigned
        · simp only [throw_eq_ok] at assigned
        · simp only [throw_eq_ok] at assigned
        · simp only [bind_eq_ok] at assigned
          obtain ⟨loaded, -, both, isBoth, -⟩ := assigned
          exact emittable_of_pushExpr sound counted valueTyped isBoth
  | .call _ function args, wanted, ty, code, after, typed, pushed => by
      rw [HasType] at typed
      obtain ⟨info, found, pass, -⟩ := typed
      simp only [pushExpr, found, bind_eq_ok] at pushed
      obtain ⟨arguments, arePushed, -⟩ := pushed
      simp only [Emittable]
      exact emittable_of_pushArguments sound counted pass arePushed
  | .methodCall _ receiver method args, wanted, ty, code, after, typed, pushed => by
      rw [HasType] at typed
      obtain ⟨receiverTy, found, receiverTyped, finds, pass, -⟩ := typed
      simp only [pushExpr] at pushed
      split at pushed
      · cases pushed
      · next taken isTaken =>
          simp only [bind_eq_ok] at pushed
          obtain ⟨object, isPushed, arguments, arePushed, -⟩ := pushed
          have receiverEmittable := emittable_of_pushExpr sound counted receiverTyped isPushed
          have known : (context.exprType receiver).isUnknown = false := by
            cases missed : context.exprType receiver with
            | unknown =>
                rw [missed, Ty.lookupMethod_unknown] at isTaken
                cases isTaken
            | _ =>
                rfl
          rw [(receiverTyped.takenFor sound counted receiverEmittable).lookupMethod known, finds,
            Option.some.injEq] at isTaken
          subst isTaken
          simp only [Emittable, known, receiverEmittable, Bool.not_false, Bool.true_and]
          exact emittable_of_pushArguments sound counted pass arePushed

theorem emittable_of_runExprs
    (sound : context.Sound strict)
    (counted : place.count ≤ context.scope.locals.size) :
    ∀ {exprs : List Expr} {component : Ty} {code after : CodeStream},
      context.Fill strict place component exprs →
      context.runExprs exprs code = .ok after →
      context.AllEmittable exprs false = true
  | [], component, code, after, fill, _ => by
      rw [AllEmittable]
  | expr :: rest, component, code, after, fill, ran => by
      rw [Fill] at fill
      obtain ⟨⟨ty, typed, -⟩, restFill⟩ := fill
      simp only [runExprs, bind_eq_ok] at ran
      obtain ⟨middle, first, remaining⟩ := ran
      simp only [AllEmittable, Bool.and_eq_true]
      exact ⟨emittable_of_pushExpr sound counted typed first,
        emittable_of_runExprs sound counted restFill remaining⟩

theorem emittable_of_fillArray
    (sound : context.Sound strict)
    (counted : place.count ≤ context.scope.locals.size) :
    ∀ {exprs : List Expr} {component given : Ty} {index : Nat} {code after : CodeStream},
      context.Fill strict place component exprs →
      context.fillArray given exprs index code = .ok after →
      context.AllEmittable exprs true = true
  | [], component, given, index, code, after, fill, _ => by
      rw [AllEmittable]
  | expr :: rest, component, given, index, code, after, fill, filled => by
      rw [Fill] at fill
      obtain ⟨⟨ty, typed, -⟩, restFill⟩ := fill
      simp only [fillArray, bind_eq_ok] at filled
      obtain ⟨pushed, isPushed, remaining⟩ := filled
      simp only [AllEmittable, Bool.and_eq_true]
      exact ⟨emittable_of_pushExpr sound counted typed isPushed,
        emittable_of_fillArray sound counted restFill remaining⟩

theorem emittable_of_pushArguments
    (sound : context.Sound strict)
    (counted : place.count ≤ context.scope.locals.size) :
    ∀ {exprs : List Expr} {params : List Ty} {code after : CodeStream},
      context.Pass strict place params exprs →
      context.pushArguments exprs params code = .ok after →
      context.AllEmittable exprs true = true
  | [], params, code, after, pass, _ => by
      rw [AllEmittable]
  | expr :: rest, params, code, after, pass, pushed => by
      rw [Pass] at pass
      obtain ⟨param, others, ty, rfl, typed, -, restPass⟩ := pass
      simp only [pushArguments, bind_eq_ok] at pushed
      obtain ⟨first, isPushed, remaining⟩ := pushed
      simp only [AllEmittable, Bool.and_eq_true]
      exact ⟨emittable_of_pushExpr sound counted typed isPushed,
        emittable_of_pushArguments sound counted restPass remaining⟩

end

end Emittable

/-- Every local that is used exists in the code. -/
def Slotted
    (context : CodeContext) :
    Prop :=
  ∀ id < context.scope.locals.size, (context.localAt id).isUsed = true →
    context.hasSlot id = true

/-- The operands of a comparison that have code can be compared. -/
theorem exists_branchOnComparison
    {op : BinOp}
    (isComparison : op.isComparison = true)
    (context : CodeContext)
    (left right : Expr)
    {pushLeft pushRight : CodeStep}
    (leftSucceeds : pushLeft.Succeeds)
    (rightSucceeds : pushRight.Succeeds)
    (branchIf : Bool)
    (label : Label) :
    CodeStep.Succeeds
      (context.branchOnComparison op left right pushLeft pushRight branchIf label) := by
  intro code
  obtain ⟨condition, isCondition⟩ : ∃ condition, op.branchCondition branchIf = .ok condition := by
    cases op with
    | add | sub | mul =>
        cases isComparison
    | _ =>
        exact ⟨_, rfl⟩
  obtain ⟨pushed, isPushed⟩ := leftSucceeds code
  simp only [branchOnComparison, bind_eq_ok]
  cases BinOp.operandType? (context.exprType left) (context.exprType right) with
  | some operand =>
      obtain ⟨both, isBoth⟩ := rightSucceeds (pushed.convertOperand (context.exprType left) operand)
      simp only [bind_eq_ok, pure_eq_ok]
      exact ⟨_, condition, isCondition, pushed, isPushed, both, isBoth, rfl⟩
  | none =>
      obtain ⟨both, isBoth⟩ := rightSucceeds pushed
      simp only [bind_eq_ok, pure_eq_ok]
      exact ⟨_, condition, isCondition, pushed, isPushed, both, isBoth, rfl⟩

/-- A value that has code can be assigned. -/
theorem exists_assignSimple
    (context : CodeContext)
    (id : LocalId)
    (value : Expr)
    {push : (wanted : Bool) → CodeStep}
    (wanted : Bool)
    (succeeds : (push (wanted || context.hasSlot id)).Succeeds) :
    CodeStep.Succeeds (context.assignSimple id value push wanted) := by
  intro code
  obtain ⟨pushed, isPushed⟩ := succeeds code
  simp only [assignSimple]
  cases slotted : context.hasSlot id with
  | false =>
      rw [slotted, Bool.or_false] at isPushed
      exact ⟨pushed, by simpa using isPushed⟩
  | true =>
      rw [slotted, Bool.or_true] at isPushed
      obtain ⟨slot, isSlot⟩ := Option.isSome_iff_exists.mp slotted
      simp only [if_true, bind_eq_ok, store_eq_ok]
      exact ⟨_, pushed, isPushed, slot, isSlot, rfl⟩

section Succeeds

variable
  {strict : Bool}
  {place : Place}

/-- A used local has a slot. -/
theorem Slotted.exists_slot
    (slotted : context.Slotted)
    (counted : place.count ≤ context.scope.locals.size)
    {ref : NameRef}
    {id : Nat}
    (binds : context.Binds place ref id)
    (isUsed : (context.localAt id).isUsed = true) :
    ∃ slot, (context.scope.localAt id).slot = some slot :=
  Option.isSome_iff_exists.mp (slotted id (Nat.lt_of_lt_of_le binds.2.1 counted) isUsed)

/-- A numeric operator knows the operands of an arithmetic expression. -/
theorem operandType?_exprType
    {op : BinOp}
    {left right takenLeft takenRight ty : Ty}
    (leftKnown : left.isUnknown = false)
    (rightKnown : right.isUnknown = false)
    (arithmetic : op.isComparison = false)
    (found : op.resultType? left right = some ty)
    (leftTaken : left.TakenFor takenLeft)
    (rightTaken : right.TakenFor takenRight) :
    ∃ first second, left = .primitive first ∧ right = .primitive second ∧
      takenLeft = .primitive first ∧ takenRight = .primitive second ∧
      BinOp.operandType? takenLeft takenRight = some (first.promote second) ∧
      ty = .primitive (first.promote second) := by
  cases BinOp.applies_of_resultType? leftKnown rightKnown found with
  | @numeric first second isLeft isRight operand =>
      subst isLeft isRight
      have areNumeric := BinOp.isNumeric_of_operandType? operand
      have isFirst := leftTaken.eq_of_isNumeric areNumeric.1
      have isSecond := rightTaken.eq_of_isNumeric areNumeric.2
      rw [isFirst, isSecond]
      exact ⟨first, second, rfl, rfl, rfl, rfl, operand, by simp [arithmetic]⟩
  | truthValues _ _ isEquality | references _ _ isEquality =>
      rw [BinOp.isComparison_of_isEquality isEquality] at arithmetic
      cases arithmetic

/-- An operator that is not a comparison is arithmetic. -/
theorem exists_arithOp
    {op : BinOp}
    (arithmetic : op.isComparison = false) :
    ∃ arith, op.arithOp = .ok arith := by
  cases op with
  | add | sub | mul =>
      exact ⟨_, rfl⟩
  | _ =>
      cases arithmetic

mutual

/-- An expression that can be generated has code. -/
theorem exists_pushExpr
    (sound : context.Sound strict)
    (counted : place.count ≤ context.scope.locals.size)
    (slotted : context.Slotted) :
    ∀ {expr : Expr} {wanted : Bool} {ty : Ty},
      context.HasType strict place expr ty →
      context.Emittable expr wanted = true →
      (context.pushExpr expr wanted).Succeeds
  | .intLit .., wanted, ty, typed, _, code | .boolLit .., wanted, ty, typed, _, code
  | .stringLit .., wanted, ty, typed, _, code | .null _, wanted, ty, typed, _, code => by
      simp only [pushExpr]
      exact ⟨_, rfl⟩
  | .name _ ref, wanted, ty, typed, _, code => by
      rw [HasType] at typed
      obtain ⟨id, binds, isUsed, -⟩ := typed
      cases wanted with
      | false =>
          exact ⟨code, by simp only [pushExpr, Bool.false_eq_true, if_false]⟩
      | true =>
          obtain ⟨slot, isSlot⟩ := slotted.exists_slot counted binds isUsed
          simp only [pushExpr, if_true, binds.bindingOf, bind_eq_ok, load_eq_ok]
          exact ⟨_, id, rfl, slot, isSlot, rfl⟩
  | .newArray _ component elements, wanted, ty, typed, emittable, code => by
      rw [HasType] at typed
      obtain ⟨componentTy, -, resolved, fill, -⟩ := typed
      simp only [Emittable, Bool.and_eq_true] at emittable
      cases wanted with
      | false =>
          simp only [pushExpr, Bool.false_eq_true, if_false]
          exact exists_runExprs sound counted slotted fill emittable.2 code
      | true =>
          have small : elements.length ≤ 0x7FFFFFFF := by
            simpa using emittable.1
          simp only [pushExpr, componentType, if_true, resolved, bind_eq_ok, newArray_eq_ok]
          obtain ⟨after, filled⟩ := exists_fillArray sound counted slotted fill emittable.2 componentTy
            0 ((code.emit (.intConst (Int32.ofNat elements.length))).emit
              (creation context.table componentTy))
          exact ⟨after, componentTy, rfl, _, ⟨small, rfl⟩, filled⟩
  | .binary _ op left right, wanted, ty, typed, emittable, code => by
      rw [HasType] at typed
      obtain ⟨leftTy, rightTy, leftTyped, rightTyped, found⟩ := typed
      simp only [Emittable, Bool.and_eq_true] at emittable
      have leftSucceeds := exists_pushExpr sound counted slotted leftTyped emittable.1
      have rightSucceeds := exists_pushExpr sound counted slotted rightTyped emittable.2
      cases wanted with
      | false =>
          obtain ⟨ran, isRan⟩ := leftSucceeds code
          obtain ⟨after, isAfter⟩ := rightSucceeds ran
          simp only [pushExpr, Bool.false_eq_true, if_false, bind_eq_ok]
          exact ⟨after, ran, isRan, isAfter⟩
      | true =>
          simp only [pushExpr, if_true]
          cases isComparison : op.isComparison with
          | true =>
              obtain ⟨tested, isTested⟩ := exists_branchOnComparison isComparison context left right
                leftSucceeds rightSucceeds false code.nextLabel code.addLabel.addLabel
              exact ⟨_, testValue_eq_ok.mpr ⟨tested, isTested, rfl⟩⟩
          | false =>
              obtain ⟨first, second, -, -, -, -, operand, -⟩ := operandType?_exprType
                (leftTyped.isResult sound counted).ne_unknown
                (rightTyped.isResult sound counted).ne_unknown isComparison found
                (leftTyped.takenFor sound counted emittable.1)
                (rightTyped.takenFor sound counted emittable.2)
              obtain ⟨arith, isArith⟩ := exists_arithOp isComparison
              obtain ⟨pushed, isPushed⟩ := leftSucceeds code
              obtain ⟨both, isBoth⟩ := rightSucceeds
                (pushed.convertOperand (context.exprType left) (first.promote second))
              simp only [Bool.false_eq_true, if_false, pushArithmetic, operand, bind_eq_ok,
                pure_eq_ok]
              exact ⟨_, pushed, isPushed, both, isBoth, arith, isArith, rfl⟩
  | .assign _ target none value, wanted, ty, typed, emittable, code => by
      rw [HasType] at typed
      obtain ⟨id, valueTy, binds, valueTyped, -⟩ := typed
      simp only [Emittable, binds.1, Option.any_some] at emittable
      simp only [pushExpr, assign, binds.bindingOf, bind_eq_ok, Except.ok.injEq, exists_eq_left']
      exact exists_assignSimple context id value wanted
        (exists_pushExpr sound counted slotted valueTyped emittable) code
  | .assign _ target (some op) value, wanted, ty, typed, emittable, code => by
      rw [HasType] at typed
      obtain ⟨id, valueTy, binds, isUsed, valueTyped, applies, isType⟩ := typed
      simp only [Emittable] at emittable
      obtain ⟨slot, isSlot⟩ := slotted.exists_slot counted binds isUsed
      simp only [pushExpr, assign, binds.bindingOf, bind_eq_ok, Except.ok.injEq, exists_eq_left']
      split
      · simp only [bind_eq_ok, increment_eq_ok]
        cases wanted with
        | false =>
            exact ⟨_, _, ⟨slot, isSlot, rfl⟩, rfl⟩
        | true =>
            simp only [if_true, load_eq_ok]
            exact ⟨_, _, ⟨slot, isSlot, rfl⟩, slot, isSlot, rfl⟩
      · simp only [compoundApplies, Bool.and_eq_true, Bool.not_eq_true'] at applies
        obtain ⟨arithmetic, applies⟩ := applies
        cases found : op.resultType? ty valueTy with
        | none =>
            simp [found] at applies
        | some result =>
            have known := (sound.isValue_local counted binds)
            rw [isType] at known
            obtain ⟨first, second, isFirst, -, -, -, operand, -⟩ := operandType?_exprType
              (Ty.IsResult.ne_unknown (.inr (.inr known)))
              (valueTyped.isResult sound counted).ne_unknown arithmetic found
              (.same ty) (valueTyped.takenFor sound counted emittable)
            obtain ⟨arith, isArith⟩ := exists_arithOp arithmetic
            subst isFirst
            obtain ⟨both, isBoth⟩ := exists_pushExpr sound counted slotted valueTyped emittable
              ((code.emit (.load (kindOf context.scope id) slot)).convert first
                (first.promote second))
            simp only [assignOperated, isType, operand, Ty.primitive?, bind_eq_ok, load_eq_ok,
              store_eq_ok]
            exact ⟨_, _, ⟨slot, isSlot, rfl⟩, both, isBoth, arith, isArith, slot, isSlot, rfl⟩
  | .call _ function args, wanted, ty, typed, emittable, code => by
      rw [HasType] at typed
      obtain ⟨info, found, pass, -⟩ := typed
      simp only [Emittable] at emittable
      obtain ⟨pushed, isPushed⟩ := exists_pushArguments sound counted slotted pass emittable code
      simp only [pushExpr, found, bind_eq_ok, pure_eq_ok]
      exact ⟨_, pushed, isPushed, rfl⟩
  | .methodCall _ receiver method args, wanted, ty, typed, emittable, code => by
      rw [HasType] at typed
      obtain ⟨receiverTy, found, receiverTyped, finds, pass, -⟩ := typed
      simp only [Emittable, Bool.and_eq_true, Bool.not_eq_true'] at emittable
      obtain ⟨⟨known, receiverEmittable⟩, argsEmittable⟩ := emittable
      have isFound := (receiverTyped.takenFor sound counted receiverEmittable).lookupMethod known
        context.table method.node
      obtain ⟨object, isObject⟩ := exists_pushExpr sound counted slotted receiverTyped
        receiverEmittable code
      obtain ⟨pushed, isPushed⟩ := exists_pushArguments sound counted slotted pass argsEmittable
        object
      simp only [pushExpr, isFound, finds, bind_eq_ok, pure_eq_ok]
      exact ⟨_, object, isObject, pushed, isPushed, rfl⟩

theorem exists_runExprs
    (sound : context.Sound strict)
    (counted : place.count ≤ context.scope.locals.size)
    (slotted : context.Slotted) :
    ∀ {exprs : List Expr} {component : Ty},
      context.Fill strict place component exprs →
      context.AllEmittable exprs false = true →
      CodeStep.Succeeds (context.runExprs exprs)
  | [], component, fill, _, code => by
      exact ⟨code, by rw [runExprs]⟩
  | expr :: rest, component, fill, emittable, code => by
      rw [Fill] at fill
      obtain ⟨⟨ty, typed, -⟩, restFill⟩ := fill
      simp only [AllEmittable, Bool.and_eq_true] at emittable
      obtain ⟨ran, isRan⟩ := exists_pushExpr sound counted slotted typed emittable.1 code
      obtain ⟨after, isAfter⟩ := exists_runExprs sound counted slotted restFill emittable.2 ran
      simp only [runExprs, bind_eq_ok]
      exact ⟨after, ran, isRan, isAfter⟩

theorem exists_fillArray
    (sound : context.Sound strict)
    (counted : place.count ≤ context.scope.locals.size)
    (slotted : context.Slotted) :
    ∀ {exprs : List Expr} {component : Ty},
      context.Fill strict place component exprs →
      context.AllEmittable exprs true = true →
      ∀ (given : Ty) (index : Nat), CodeStep.Succeeds (context.fillArray given exprs index)
  | [], component, fill, _, given, index, code => by
      exact ⟨code, by rw [fillArray]⟩
  | expr :: rest, component, fill, emittable, given, index, code => by
      rw [Fill] at fill
      obtain ⟨⟨ty, typed, -⟩, restFill⟩ := fill
      simp only [AllEmittable, Bool.and_eq_true] at emittable
      obtain ⟨pushed, isPushed⟩ := exists_pushExpr sound counted slotted typed emittable.1
        ((code.emit .dup).emit (.intConst (Int32.ofNat index)))
      obtain ⟨after, isAfter⟩ := exists_fillArray sound counted slotted restFill emittable.2 given
        (index + 1)
        ((pushed.convertAssigned context.table (context.exprType expr) given).emit
          (.arrayStore (.ofTy given)))
      simp only [fillArray, bind_eq_ok]
      exact ⟨after, pushed, isPushed, isAfter⟩

theorem exists_pushArguments
    (sound : context.Sound strict)
    (counted : place.count ≤ context.scope.locals.size)
    (slotted : context.Slotted) :
    ∀ {exprs : List Expr} {params : List Ty},
      context.Pass strict place params exprs →
      context.AllEmittable exprs true = true →
      CodeStep.Succeeds (context.pushArguments exprs params)
  | [], params, pass, _, code => by
      exact ⟨code, by rw [pushArguments]; nofun⟩
  | expr :: rest, params, pass, emittable, code => by
      rw [Pass] at pass
      obtain ⟨param, others, ty, rfl, typed, -, restPass⟩ := pass
      simp only [AllEmittable, Bool.and_eq_true] at emittable
      obtain ⟨pushed, isPushed⟩ := exists_pushExpr sound counted slotted typed emittable.1 code
      obtain ⟨after, isAfter⟩ := exists_pushArguments sound counted slotted restPass emittable.2
        (pushed.convertAssigned context.table (context.exprType expr) param)
      simp only [pushArguments, bind_eq_ok]
      exact ⟨after, pushed, isPushed, isAfter⟩

end

end Succeeds

end CodeContext

end LoopLowering
