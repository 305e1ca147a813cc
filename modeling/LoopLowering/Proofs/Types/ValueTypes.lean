import LoopLowering.Types.Supertypes
import LoopLowering.Types.Resolve
import LoopLowering.Types.Compatibility
import LoopLowering.Types.Operators

namespace LoopLowering

/-!
# Types of values and operators on them

The types that values can have, and what the operators and conversions that apply to
them are given.

## Types of values

The types that values can have are those a written type resolves to. They hold
no failed resolution at any depth, and nothing is instantiated at a primitive
type. Resolution does not ask for more, so a variable or wildcard may still be
bounded by a primitive type; the strict types are those in which none is.
-/

namespace Ty

mutual

/-- Whether values can have a type. -/
def isValue
    (strict : Bool) :
    Ty → Bool
  | .primitive _ | .wildcard => true
  | .classType _ args => areArguments strict args
  | .typeVar _ bound | .wildcardExtends bound =>
      bound.isValue strict && !(strict && bound.isPrimitive)
  | .array component => component.isValue strict
  | .null | .void | .unknown => false

/-- Whether a class can be instantiated at every type of a list. -/
def areArguments
    (strict : Bool) :
    List Ty → Bool
  | [] => true
  | ty :: rest => ty.isValue strict && !ty.isPrimitive && areArguments strict rest

end

/-- A type that a class can be instantiated at. -/
def IsArgument
    (strict : Bool)
    (ty : Ty) :
    Prop :=
  ty.isValue strict = true ∧ ty.isPrimitive = false

/-- Arguments are judged one by one. -/
theorem areArguments_iff
    (strict : Bool)
    (types : List Ty) :
    areArguments strict types = true ↔ ∀ ty ∈ types, ty.IsArgument strict := by
  induction types with
  | nil =>
      simp [areArguments]
  | cons ty rest inductionHypothesis =>
      simp [areArguments, IsArgument, inductionHypothesis]

/-- The type of an expression: of a value, of the null literal, or of a call
without a result. -/
def IsResult
    (strict : Bool)
    (ty : Ty) :
    Prop :=
  ty = .null ∨ ty = .void ∨ ty.isValue strict = true

/-- The type of an expression is never a failed resolution. -/
theorem IsResult.ne_unknown
    {strict : Bool}
    {ty : Ty}
    (result : ty.IsResult strict) :
    ty.isUnknown = false := by
  rcases result with rfl | rfl | value
  · rfl
  · rfl
  · cases ty <;> simp_all [isValue, isUnknown]

/-- Erasing a type of values leaves one. -/
theorem isValue_erasure
    {strict : Bool} :
    ∀ {ty : Ty},
      ty.isValue strict = true →
      ty.erasure.isValue strict = true
  | .primitive _, _ | .classType .., _ | .wildcard, _ => by
      simp [erasure, object, isValue, areArguments]
  | .typeVar _ bound, value | .wildcardExtends bound, value => by
      simp only [isValue, Bool.and_eq_true] at value
      have erased := isValue_erasure value.1
      simpa only [erasure] using erased
  | .array _, value => by
      simp only [isValue] at value
      have erased := isValue_erasure value
      simpa only [erasure, isValue] using erased
  | .null, value | .void, value | .unknown, value => by
      simp [isValue] at value

/-- The replacements of a substitution are types a class can be instantiated
at. -/
def BindsArguments
    (strict : Bool)
    (bindings : List (String × Ty)) :
    Prop :=
  ∀ entry ∈ bindings, entry.2.IsArgument strict

/-- What a table binds a name to is among its replacements. -/
theorem BindsArguments.lookup
    {strict : Bool}
    {bindings : List (String × Ty)}
    (binds : BindsArguments strict bindings)
    {name : String}
    {ty : Ty}
    (found : bindings.lookup name = some ty) :
    ty.IsArgument strict := by
  induction bindings with
  | nil =>
      simp at found
  | cons entry rest inductionHypothesis =>
      rw [List.lookup_cons] at found
      by_cases same : name == entry.1
      · simp only [same, Option.some.injEq] at found
        subst found
        exact binds entry (by simp)
      · simp only [same] at found
        exact inductionHypothesis (fun other member => binds other (by simp [member])) found

/-- Substitution neither makes nor removes a primitive type. -/
theorem primitive?_substitute
    {strict : Bool}
    {bindings : List (String × Ty)}
    (binds : BindsArguments strict bindings)
    (ty : Ty) :
    (ty.substitute bindings).primitive? = ty.primitive? := by
  cases ty with
  | typeVar name bound =>
      simp only [substitute]
      cases found : bindings.lookup name with
      | none =>
          rfl
      | some bound =>
          have argument := binds.lookup found
          cases bound <;> simp_all [IsArgument, isPrimitive, primitive?]
  | _ =>
      simp [substitute, primitive?]

/-- A type is primitive exactly if it is some primitive type. -/
theorem isPrimitive_eq_isSome
    (ty : Ty) :
    ty.isPrimitive = ty.primitive?.isSome := by
  cases ty <;> rfl

mutual

/-- Substitution keeps types of values. -/
theorem isValue_substitute
    {strict : Bool}
    {bindings : List (String × Ty)}
    (binds : BindsArguments strict bindings) :
    ∀ {ty : Ty},
      ty.isValue strict = true →
      (ty.substitute bindings).isValue strict = true
  | .primitive _, _ | .wildcard, _ => by
      simp [substitute, isValue]
  | .classType _ args, value => by
      simp only [isValue] at value
      simpa only [substitute, isValue] using areArguments_substitute binds value
  | .typeVar name bound, value => by
      simp only [substitute]
      cases found : bindings.lookup name with
      | none =>
          simpa using value
      | some replacement =>
          exact (binds.lookup found).1
  | .wildcardExtends bound, value => by
      simp only [isValue, Bool.and_eq_true, isPrimitive_eq_isSome] at value
      simp only [substitute, isValue, Bool.and_eq_true, isPrimitive_eq_isSome,
        primitive?_substitute binds]
      exact ⟨isValue_substitute binds value.1, value.2⟩
  | .array component, value => by
      simp only [isValue] at value
      simpa only [substitute, isValue] using isValue_substitute binds value
  | .null, value | .void, value | .unknown, value => by
      simp [isValue] at value

theorem areArguments_substitute
    {strict : Bool}
    {bindings : List (String × Ty)}
    (binds : BindsArguments strict bindings) :
    ∀ {types : List Ty},
      areArguments strict types = true →
      areArguments strict (substituteAll bindings types) = true
  | [], _ => by
      simp [substituteAll, areArguments]
  | ty :: rest, arguments => by
      simp only [areArguments, Bool.and_eq_true, isPrimitive_eq_isSome] at arguments
      simp only [substituteAll, areArguments, Bool.and_eq_true, isPrimitive_eq_isSome,
        primitive?_substitute binds]
      exact ⟨⟨isValue_substitute binds arguments.1.1, arguments.1.2⟩,
        areArguments_substitute binds arguments.2⟩

end

end Ty

/-!
## Operators and conversions on values

What an operator that applies was given, and what a conversion that exists
converts, told apart by which of the types are primitive.
-/

namespace BinOp

/-- The type a numeric operator works in is numeric. -/
theorem isNumeric_promote
    (first second : Primitive) :
    (first.promote second).isNumeric = true := by
  cases first <;> cases second <;> rfl

/-- A numeric operator works on numbers. -/
theorem isNumeric_of_operandType?
    {first second operand : Primitive}
    (found : operandType? (.primitive first) (.primitive second) = some operand) :
    first.isNumeric = true ∧ second.isNumeric = true := by
  simp only [operandType?] at found
  split at found
  · next areNumeric =>
      simpa using areNumeric
  · cases found

/-- How an operator applies to operands whose types are known. -/
inductive Applies
    (op : BinOp)
    (left right : Ty) :
    Ty → Prop where
  | numeric {first second : Primitive} (isLeft : left = .primitive first)
      (isRight : right = .primitive second)
      (operand : operandType? left right = some (first.promote second)) :
      Applies op left right (if op.isComparison then .boolean else .primitive (first.promote second))
  | truthValues (isLeft : left = .boolean) (isRight : right = .boolean)
      (isEquality : op.isEquality = true) (noOperand : operandType? left right = none) :
      Applies op left right .boolean
  | references (isLeft : left.isReference = true) (isRight : right.isReference = true)
      (isEquality : op.isEquality = true) (noOperand : operandType? left right = none) :
      Applies op left right .boolean

/-- An operator that has a result applies in one of the three ways. -/
theorem applies_of_resultType?
    {op : BinOp}
    {left right ty : Ty}
    (leftKnown : left.isUnknown = false)
    (rightKnown : right.isUnknown = false)
    (found : op.resultType? left right = some ty) :
    op.Applies left right ty := by
  simp only [resultType?, leftKnown, rightKnown, Bool.or_self, Bool.false_eq_true, if_false]
    at found
  split at found
  · next operand isOperand =>
      cases found
      unfold operandType? at isOperand
      split at isOperand
      · next first second =>
          split at isOperand
          · next areNumeric =>
              cases isOperand
              exact .numeric rfl rfl (by simp [operandType?, areNumeric])
          · cases isOperand
      · cases isOperand
  · next noOperand =>
      unfold equalityResult? at found
      split at found
      · split at found
        · next isEquality =>
            cases found
            exact .truthValues rfl rfl isEquality noOperand
        · cases found
      · split at found
        · next applies =>
            cases found
            simp only [Bool.and_eq_true] at applies
            exact .references applies.1.1 applies.1.2 applies.2 noOperand
        · cases found

/-- An equality test is a comparison. -/
theorem isComparison_of_isEquality
    {op : BinOp}
    (isEquality : op.isEquality = true) :
    op.isComparison = true := by
  cases op <;> simp_all [BinOp.isEquality, isComparison]

/-- A comparison yields a truth value. -/
theorem eq_boolean_of_isComparison
    {op : BinOp}
    {left right ty : Ty}
    (leftKnown : left.isUnknown = false)
    (rightKnown : right.isUnknown = false)
    (isComparison : op.isComparison = true)
    (found : op.resultType? left right = some ty) :
    ty = .boolean := by
  cases applies_of_resultType? leftKnown rightKnown found with
  | numeric =>
      rw [if_pos isComparison]
  | truthValues | references =>
      rfl

end BinOp

namespace Ty

/-- A type is the primitive type that it is. -/
theorem eq_of_primitive?
    {ty : Ty}
    {kind : Primitive}
    (isKind : ty.primitive? = some kind) :
    ty = .primitive kind := by
  cases ty <;> simp_all [primitive?]

/-- The type of objects is not primitive. -/
theorem primitive?_of_isObject
    {ty : Ty}
    (isObject : ty.isObject = true) :
    ty.primitive? = none := by
  cases ty <;> simp_all [Ty.isObject, primitive?]

end Ty

namespace ClassTable

/-- Nothing converts from void to a type of values. -/
theorem converts_void
    {strict : Bool}
    (table : ClassTable)
    {target : Ty}
    (value : target.isValue strict = true) :
    table.converts .void target = false := by
  cases target with
  | null | void | unknown =>
      simp [Ty.isValue] at value
  | _ =>
      simp [converts, isAssignable, isBoxable, Ty.isUntyped, Ty.withoutWildcards, Ty.unwrapsTo,
        Ty.isReference]

/-- Only a wrapper converts from a reference to a primitive type. -/
theorem unboxed?_of_converts
    {table : ClassTable}
    {source : Ty}
    {kind : Primitive}
    (known : source.isUnknown = false)
    (notPrimitive : source.primitive? = none)
    (converts : table.converts source (.primitive kind) = true) :
    ∃ given, unboxed? source = some given := by
  cases unboxed : unboxed? source with
  | some given =>
      exact ⟨given, rfl⟩
  | none =>
      cases source <;>
        simp_all [ClassTable.converts, isAssignable, isBoxable, Ty.primitive?, Ty.isUnknown]

end ClassTable

end LoopLowering
