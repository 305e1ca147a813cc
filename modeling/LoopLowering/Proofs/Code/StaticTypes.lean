import LoopLowering.Proofs.Code.Steps
import LoopLowering.Proofs.Resolution.Expressions
import LoopLowering.Proofs.Types.ValueTypes

namespace LoopLowering

/-!
# What code generation takes an expression for

Code generation computes the types of expressions again, and resolves the
component type of a created array without the type variables of the method.
What it misses is the type of such an array, and that of a comparison with one.
-/

namespace Ty

/-- Types that code generation treats alike: a type and itself, or two arrays. -/
inductive Alike :
    (first second : Ty) → Prop where
  | same (ty : Ty) : Alike ty ty
  | arrays (component other : Ty) : Alike (.array component) (.array other)

/-- All arrays have the same methods. -/
theorem Alike.lookupMethod_eq
    {first second : Ty}
    (alike : first.Alike second)
    (table : ClassTable)
    (name : String) :
    table.lookupMethod second name = table.lookupMethod first name := by
  cases alike <;> rfl

/-- All arrays are operands of the same operators. -/
theorem Alike.resultType?_eq
    {left right otherLeft otherRight : Ty}
    (leftAlike : left.Alike otherLeft)
    (rightAlike : right.Alike otherRight)
    (op : BinOp) :
    op.resultType? otherLeft otherRight = op.resultType? left right := by
  cases leftAlike with
  | same =>
      cases rightAlike with
      | same =>
          rfl
      | arrays component other =>
          cases left with
          | primitive kind =>
              cases kind <;> rfl
          | _ =>
              rfl
  | arrays component other =>
      cases rightAlike with
      | same =>
          cases right <;> rfl
      | arrays =>
          rfl

/-- What code generation may take a type for. -/
inductive TakenFor :
    (ty taken : Ty) → Prop where
  | same (ty : Ty) : TakenFor ty ty
  /-- A type variable hides a class of the same name. -/
  | otherArray (component other : Ty) : TakenFor (.array component) (.array other)
  | missedArray (component : Ty) : TakenFor (.array component) .unknown
  | missedTruth : TakenFor .boolean .unknown

/-- A type that is not missed is treated alike. -/
theorem TakenFor.alike
    {ty taken : Ty}
    (isTaken : ty.TakenFor taken)
    (known : taken.isUnknown = false) :
    ty.Alike taken := by
  cases isTaken with
  | same =>
      exact .same ty
  | otherArray component other =>
      exact .arrays component other
  | missedArray | missedTruth =>
      cases known

/-- A type that is not missed has the same methods. -/
theorem TakenFor.lookupMethod
    {ty taken : Ty}
    (isTaken : ty.TakenFor taken)
    (known : taken.isUnknown = false)
    (table : ClassTable)
    (name : String) :
    table.lookupMethod taken name = table.lookupMethod ty name :=
  (isTaken.alike known).lookupMethod_eq table name

/-- Only one type is unknown. -/
theorem isUnknown_iff
    {ty : Ty} :
    ty.isUnknown = true ↔ ty = .unknown := by
  cases ty <;> simp [isUnknown]

/-- No type has no methods. -/
theorem lookupMethod_unknown
    (table : ClassTable)
    (name : String) :
    table.lookupMethod .unknown name = none := by
  simp [ClassTable.lookupMethod, ClassTable.receiverClasses, ClassTable.receiverClass?,
    ClassTable.reachable, ClassTable.walk_nil]

/-- A number is taken for what it is. -/
theorem TakenFor.eq_of_isNumeric
    {kind : Primitive}
    {taken : Ty}
    (isTaken : TakenFor (.primitive kind) taken)
    (numeric : kind.isNumeric = true) :
    taken = .primitive kind := by
  cases isTaken with
  | same =>
      rfl
  | missedTruth =>
      cases numeric

/-- A type that is not missed is taken for a reference exactly if it is one. -/
theorem TakenFor.isReference_eq
    {ty taken : Ty}
    (isTaken : ty.TakenFor taken) :
    taken.isReference = (ty.isReference && !taken.isUnknown) := by
  cases isTaken with
  | same =>
      cases ty <;> rfl
  | _ =>
      rfl

/-- What is missed or has another component is no number. -/
theorem TakenFor.operandType?_eq_none
    {left right takenLeft takenRight : Ty}
    (leftTaken : left.TakenFor takenLeft)
    (rightTaken : right.TakenFor takenRight)
    (noOperand : BinOp.operandType? left right = none) :
    BinOp.operandType? takenLeft takenRight = none := by
  cases leftTaken with
  | same =>
      cases rightTaken with
      | same =>
          exact noOperand
      | _ =>
          cases left <;> rfl
  | _ =>
      rfl

/-- The result of an operator may be missed where one of its operands is. -/
theorem TakenFor.resultType?
    {op : BinOp}
    {left right takenLeft takenRight ty : Ty}
    (leftTaken : left.TakenFor takenLeft)
    (rightTaken : right.TakenFor takenRight)
    (leftKnown : left.isUnknown = false)
    (rightKnown : right.isUnknown = false)
    (found : op.resultType? left right = some ty) :
    ty.TakenFor ((op.resultType? takenLeft takenRight).getD .unknown) := by
  have missed : ∀ {operand : Ty}, operand.isUnknown = false → operand.TakenFor .unknown →
      (operand = left ∨ operand = right) → ty = .boolean := by
    intro operand known isTaken isOperand
    have notNumeric : ∀ kind : Primitive, kind.isNumeric = true → operand ≠ .primitive kind := by
      rintro kind numeric rfl
      cases isTaken.eq_of_isNumeric numeric
    cases BinOp.applies_of_resultType? leftKnown rightKnown found with
    | @numeric first second isLeft isRight operand =>
        subst isLeft isRight
        have bothNumeric := BinOp.isNumeric_of_operandType? operand
        rcases isOperand with isLeft | isRight
        · exact absurd isLeft (notNumeric first bothNumeric.1)
        · exact absurd isRight (notNumeric second bothNumeric.2)
    | truthValues | references =>
        rfl
  by_cases leftMissed : takenLeft = .unknown
  · subst leftMissed
    rw [missed leftKnown leftTaken (.inl rfl)]
    exact .missedTruth
  by_cases rightMissed : takenRight = .unknown
  · subst rightMissed
    rw [missed rightKnown rightTaken (.inr rfl)]
    have isMissed : op.resultType? takenLeft .unknown = some .unknown := by
      simp [BinOp.resultType?, isUnknown]
    rw [isMissed]
    exact .missedTruth
  have known : ∀ {taken : Ty}, taken ≠ .unknown → taken.isUnknown = false :=
    fun notMissed => Bool.eq_false_iff.mpr (mt isUnknown_iff.mp notMissed)
  rw [(leftTaken.alike (known leftMissed)).resultType?_eq (rightTaken.alike (known rightMissed)),
    found]
  exact .same ty

end Ty

namespace CodeContext

/-- The type of an expression whose names are bound, with the type variables of
the method in scope. -/
def staticType
    (context : CodeContext) :
    Expr → Ty
  | .intLit .. => .int
  | .boolLit .. => .boolean
  | .stringLit .. => .string
  | .null _ => .null
  | .name _ ref => context.boundType ref.binding
  | .newArray _ component _ =>
      match context.table.resolve context.state.typeVars component with
      | .ok ty => .array ty
      | .error _ => .unknown
  | .binary _ op left right =>
      (op.resultType? (context.staticType left) (context.staticType right)).getD .unknown
  | .assign _ target _ _ => context.boundType target.node.binding
  | .call _ function _ =>
      match context.table.function? function.node with
      | some info => info.signature.returnType
      | none => .unknown
  | .methodCall _ receiver method _ =>
      match context.table.lookupMethod (context.staticType receiver) method.node with
      | some found => found.seen.returnType
      | none => .unknown

variable
  {strict : Bool}
  {context : CodeContext}
  {place : Place}

/-- The type of an expression can be computed from the bindings of its names. -/
theorem HasType.staticType :
    ∀ {expr : Expr} {ty : Ty},
      context.HasType strict place expr ty →
      context.staticType expr = ty
  | .intLit .., ty, typed | .boolLit .., ty, typed | .stringLit .., ty, typed
  | .null _, ty, typed => by
      rw [HasType] at typed
      exact typed.symm
  | .name _ ref, ty, typed => by
      rw [HasType] at typed
      obtain ⟨id, binds, -, rfl⟩ := typed
      simp only [CodeContext.staticType, binds.1, boundType]
  | .newArray _ component elements, ty, typed => by
      rw [HasType] at typed
      obtain ⟨componentTy, -, resolved, -, rfl⟩ := typed
      simp only [CodeContext.staticType, resolved]
  | .binary _ op left right, ty, typed => by
      rw [HasType] at typed
      obtain ⟨leftTy, rightTy, leftTyped, rightTyped, found⟩ := typed
      simp only [CodeContext.staticType, leftTyped.staticType, rightTyped.staticType, found,
        Option.getD_some]
  | .assign _ target none value, ty, typed => by
      rw [HasType] at typed
      obtain ⟨id, valueTy, binds, -, -, rfl⟩ := typed
      simp only [CodeContext.staticType, binds.1, boundType]
  | .assign _ target (some op) value, ty, typed => by
      rw [HasType] at typed
      obtain ⟨id, valueTy, binds, -, -, -, rfl⟩ := typed
      simp only [CodeContext.staticType, binds.1, boundType]
  | .call _ function args, ty, typed => by
      rw [HasType] at typed
      obtain ⟨info, found, -, rfl⟩ := typed
      simp only [CodeContext.staticType, found]
  | .methodCall _ receiver method args, ty, typed => by
      rw [HasType] at typed
      obtain ⟨receiverTy, found, receiverTyped, finds, -, rfl⟩ := typed
      simp only [CodeContext.staticType, receiverTyped.staticType, finds]

mutual

/-- Whether an expression can be generated: no array in it has more elements
than an array can have, and no method is called on what has no type. -/
def Emittable
    (context : CodeContext) :
    Expr → (wanted : Bool) → Bool
  | .intLit .., _ | .boolLit .., _ | .stringLit .., _ | .null _, _ | .name .., _ => true
  | .newArray _ _ elements, wanted =>
      (!wanted || decide (elements.length ≤ 0x7FFFFFFF)) && context.AllEmittable elements wanted
  | .binary _ _ left right, wanted =>
      context.Emittable left wanted && context.Emittable right wanted
  | .assign _ target none value, wanted =>
      context.Emittable value (wanted || target.node.binding.any context.hasSlot)
  | .assign _ _ (some _) value, _ => context.Emittable value true
  | .call _ _ args, _ => context.AllEmittable args true
  | .methodCall _ receiver _ args, _ =>
      !(context.exprType receiver).isUnknown && context.Emittable receiver true &&
        context.AllEmittable args true

/-- Whether expressions can all be generated. -/
def AllEmittable
    (context : CodeContext) :
    List Expr → (wanted : Bool) → Bool
  | [], _ => true
  | expr :: rest, wanted => context.Emittable expr wanted && context.AllEmittable rest wanted

end

/-- What code generation takes an expression for that it can generate. -/
theorem HasType.takenFor
    (sound : context.Sound strict)
    (counted : place.count ≤ context.scope.locals.size) :
    ∀ {expr : Expr} {wanted : Bool} {ty : Ty},
      context.HasType strict place expr ty →
      context.Emittable expr wanted = true →
      ty.TakenFor (context.exprType expr)
  | .intLit .., wanted, ty, typed, _ | .boolLit .., wanted, ty, typed, _
  | .stringLit .., wanted, ty, typed, _ | .null _, wanted, ty, typed, _ => by
      rw [HasType] at typed
      subst typed
      exact .same _
  | .name _ ref, wanted, ty, typed, _ => by
      rw [HasType] at typed
      obtain ⟨id, binds, -, rfl⟩ := typed
      simp only [exprType, binds.1, boundType]
      exact .same _
  | .newArray _ component elements, wanted, ty, typed, _ => by
      rw [HasType] at typed
      obtain ⟨componentTy, -, -, -, rfl⟩ := typed
      simp only [exprType]
      split
      · exact .otherArray _ _
      · exact .missedArray _
  | .binary _ op left right, wanted, ty, typed, emittable => by
      rw [HasType] at typed
      obtain ⟨leftTy, rightTy, leftTyped, rightTyped, found⟩ := typed
      simp only [Emittable, Bool.and_eq_true] at emittable
      exact (leftTyped.takenFor sound counted emittable.1).resultType?
        (rightTyped.takenFor sound counted emittable.2)
        (leftTyped.isResult sound counted).ne_unknown
        (rightTyped.isResult sound counted).ne_unknown found
  | .assign _ target none value, wanted, ty, typed, _ => by
      rw [HasType] at typed
      obtain ⟨id, valueTy, binds, -, -, rfl⟩ := typed
      simp only [exprType, binds.1, boundType]
      exact .same _
  | .assign _ target (some op) value, wanted, ty, typed, _ => by
      rw [HasType] at typed
      obtain ⟨id, valueTy, binds, -, -, -, rfl⟩ := typed
      simp only [exprType, binds.1, boundType]
      exact .same _
  | .call _ function args, wanted, ty, typed, _ => by
      rw [HasType] at typed
      obtain ⟨info, found, -, rfl⟩ := typed
      simp only [exprType, found]
      exact .same _
  | .methodCall _ receiver method args, wanted, ty, typed, emittable => by
      rw [HasType] at typed
      obtain ⟨receiverTy, found, receiverTyped, finds, -, rfl⟩ := typed
      simp only [Emittable, Bool.and_eq_true, Bool.not_eq_true'] at emittable
      have taken := receiverTyped.takenFor sound counted emittable.1.2
      simp only [exprType, taken.lookupMethod emittable.1.1, finds]
      exact .same _

end CodeContext

end LoopLowering
