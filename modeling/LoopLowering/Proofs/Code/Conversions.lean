import LoopLowering.Code.Conversion
import LoopLowering.Loop.Classify
import LoopLowering.Proofs.Code.Steps
import LoopLowering.Proofs.Types.ValueTypes
import LoopLowering.Types.Builtins

namespace LoopLowering

/-!
# Conversions of elements and of assigned values

How a loop converts its elements is decided when the loop is classified, long before it has
code, while an assignment looks at the two types when its code is made. Both arrive at the
same instructions for every variable that holds values, so that an element is bound to the
loop variable as if it were assigned to it.
-/

namespace ElementConversion

/-- A primitive element is widened unless it has the type of the variable. -/
theorem between_primitives
    (source target : Primitive) :
    between (.primitive source) (.primitive target) =
      if source = target then .none else .widening source target :=
  rfl

/-- A primitive element is boxed for a reference. -/
theorem between_boxed
    (source : Primitive)
    {declared : Ty}
    (isDeclared : declared.primitive? = Option.none) :
    between (.primitive source) declared = .boxing source ∨
      between (.primitive source) declared = .boxingThenWidening source := by
  have isSource : (Ty.primitive source).primitive? = some source := rfl
  simp only [between, isSource, isDeclared]
  split
  · exact .inl rfl
  · exact .inr rfl

/-- A wrapper is unboxed for a primitive variable. -/
theorem between_unboxed
    {element : Ty}
    (isElement : element.primitive? = Option.none)
    {given : Primitive}
    (unboxes : ClassTable.unboxed? element = some given)
    (target : Primitive) :
    between element (.primitive target) = .unboxing given target := by
  have isTarget : (Ty.primitive target).primitive? = some target := rfl
  simp only [between, isElement, isTarget, unboxes]

/-- A reference stays what it is for a reference. -/
theorem between_references
    {element declared : Ty}
    (isElement : element.primitive? = Option.none)
    (isDeclared : declared.primitive? = Option.none) :
    between element declared = .none := by
  simp only [between, isElement, isDeclared]

end ElementConversion

namespace CodeStream

/-- A value of the type it is wanted in is not converted. -/
theorem convert_self
    (kind : Primitive)
    (code : CodeStream) :
    code.convert kind kind = code := by
  simp [convert]

/-- An element is converted for a variable as a value that is assigned to it. A primitive
element needs a variable that holds values. -/
theorem convertElement_between
    (table : ClassTable)
    {element declared : Ty}
    (holdsValues : element.isPrimitive = true →
      declared.isPrimitive = true ∨ declared.isReference = true)
    (code : CodeStream) :
    code.convertElement table (.between element declared) =
      code.convertAssigned table element declared := by
  cases isElement : element.primitive? with
  | some source =>
      obtain rfl := Ty.eq_of_primitive? isElement
      cases isDeclared : declared.primitive? with
      | some target =>
          obtain rfl := Ty.eq_of_primitive? isDeclared
          rw [ElementConversion.between_primitives]
          by_cases same : source = target
          · subst same
            rw [if_pos rfl]
            exact (convert_self source code).symm
          · rw [if_neg same]
            rfl
      | none =>
          have isReference : declared.isReference = true := by
            rcases holdsValues rfl with isPrimitive | isReference
            · rw [Ty.isPrimitive_eq_isSome, isDeclared] at isPrimitive
              cases isPrimitive
            · exact isReference
          have assigned : code.convertAssigned table (.primitive source) declared =
              code.emit (table.boxingCall source) := by
            simp only [convertAssigned, isElement, isDeclared, if_pos isReference]
          rw [assigned]
          rcases ElementConversion.between_boxed source isDeclared with isBoxing | isBoxing
          all_goals
            rw [isBoxing]
            rfl
  | none =>
      cases isDeclared : declared.primitive? with
      | some target =>
          simp only [ElementConversion.between, convertAssigned, isElement, isDeclared]
          cases ClassTable.unboxed? element <;> rfl
      | none =>
          rw [ElementConversion.between_references isElement isDeclared]
          simp only [convertAssigned, isElement, isDeclared]
          rfl

/-- The elements that a loop binds to a variable are converted as values of their type that are
assigned to it, with the conversion that the classification of the loop has chosen. -/
theorem elements_convertAsAssigned
    (table : ClassTable)
    (element : Ty)
    {declared : Ty}
    (holdsValues : declared.isPrimitive = true ∨ declared.isReference = true)
    (code : CodeStream) :
    code.convertElement table (.between element declared) =
        code.convertAssigned table element declared ∧
      ∀ collection classified, table.classify declared collection = .ok classified →
        code.convertElement table classified.conversion =
          code.convertAssigned table classified.elementType declared := by
  refine ⟨convertElement_between table (fun _ => holdsValues) code, ?_⟩
  intro collection classified isClassified
  simp only [ClassTable.classify, bind_eq_ok, pure_eq_ok] at isClassified
  obtain ⟨⟨shape, produced⟩, -, rfl⟩ := isClassified
  exact convertElement_between table (fun _ => holdsValues) code

/-- A type variable that is bounded by the wrapper of `int` through another variable. -/
def integerVariable :
    Ty :=
  .typeVar "T" (.typeVar "U" (.named "Integer"))

/-- A variable of type `long` gets the elements of a list of such a variable as it gets an
assigned value: unboxed and widened. -/
theorem integerVariable_convertsAsAssigned :
    Ty.isPrimitive (.primitive .long) = true ∧
      CodeStream.empty.convertElement .builtin (.between integerVariable (.primitive .long)) =
        (CodeStream.empty.emit (.invoke .virtual ⟨"java/lang/Integer", "intValue", "()I"⟩)).emit
          (.convert .int .long) ∧
      CodeStream.empty.convertAssigned .builtin integerVariable (.primitive .long) =
        (CodeStream.empty.emit (.invoke .virtual ⟨"java/lang/Integer", "intValue", "()I"⟩)).emit
          (.convert .int .long) := by
  have holdsValues : Ty.isPrimitive (.primitive .long) = true := rfl
  have assigned : CodeStream.empty.convertAssigned .builtin integerVariable (.primitive .long) =
      (CodeStream.empty.emit (.invoke .virtual ⟨"java/lang/Integer", "intValue", "()I"⟩)).emit
        (.convert .int .long) := by
    decide
  have asAssigned := (elements_convertAsAssigned .builtin integerVariable (.inl holdsValues)
    CodeStream.empty).1
  exact ⟨holdsValues, asAssigned.trans assigned, assigned⟩

end CodeStream

end LoopLowering
