import LoopLowering.Proofs.Code.Methods
import LoopLowering.Proofs.Machine.Descriptors
import LoopLowering.Proofs.Machine.Failures

namespace LoopLowering

/-!
# What the expressions of a method leave

Resolution gives an expression its type, and code generation chooses its
conversions and comparisons by types that it works out again. The code of an
expression is right on every path exactly if both agree wherever it matters.
-/

namespace CodeContext

/-- An expression without a value counts as leaving a reference. -/
theorem deliveredKind_of_void
    {strict : Bool}
    {context : CodeContext}
    {place : Place}
    (sound : context.Sound strict)
    (counted : place.count ≤ context.scope.locals.size)
    {expr : Expr}
    (typed : context.HasType strict place expr .void) :
    context.deliveredKind expr = .reference := by
  cases expr with
  | intLit | boolLit | stringLit | null =>
      rw [HasType] at typed
      cases typed
  | name span ref =>
      rw [HasType] at typed
      obtain ⟨id, binds, -, isVoid⟩ := typed
      exact absurd isVoid (Ty.ne_void_of_isValue (sound.isValue_local counted binds))
  | newArray span component elements =>
      rw [HasType] at typed
      obtain ⟨componentTy, -, -, -, isVoid⟩ := typed
      cases isVoid
  | binary span op left right =>
      rw [HasType] at typed
      obtain ⟨leftTy, rightTy, leftTyped, rightTyped, found⟩ := typed
      cases Ty.isPrimitive_resultType? (leftTyped.isResult sound counted)
        (rightTyped.isResult sound counted) found
  | assign span target op value =>
      cases op with
      | none =>
          rw [HasType] at typed
          obtain ⟨id, valueTy, binds, -, -, isVoid⟩ := typed
          exact absurd isVoid (Ty.ne_void_of_isValue (sound.isValue_local counted binds))
      | some op =>
          rw [HasType] at typed
          obtain ⟨id, valueTy, binds, -, -, -, isVoid⟩ := typed
          exact absurd isVoid (Ty.ne_void_of_isValue (sound.isValue_local counted binds))
  | call span function args =>
      rw [HasType] at typed
      obtain ⟨info, found, -, isVoid⟩ := typed
      simp only [deliveredKind, found]
      exact Signature.resultKind_of_void
        (sound.table.functions _ (NameTable.mem_of_find? found)) isVoid
  | methodCall span receiver method args =>
      rw [HasType] at typed
      obtain ⟨receiverTy, found, receiverTyped, finds, -, isVoid⟩ := typed
      have foundSound := ClassTable.isSound_lookupMethod sound.table
        (receiverTyped.isResult sound counted) finds
      have notCast : found.isCast = false := by
        simp [ClassTable.FoundMethod.isCast, isVoid, Ty.isReference]
      simp only [deliveredKind, receiverTyped.staticType, finds, notCast, Bool.false_eq_true, if_false]
      exact Signature.resultKind_of_void foundSound.declared
        (foundSound.void_iff.mpr isVoid)

/-- What an expression leaves is what its type says exactly if it keeps its
kind. -/
theorem keeps_iff_delivered_eq
    {strict : Bool}
    {context : CodeContext}
    {place : Place}
    (sound : context.Sound strict)
    (counted : place.count ≤ context.scope.locals.size)
    {expr : Expr}
    {ty : Ty}
    (typed : context.HasType strict place expr ty) :
    context.Keeps expr = true ↔ context.delivered expr ty = ty.kinds := by
  constructor
  · exact fun keeps => Keeps.delivered_eq keeps typed
  · intro same
    simp only [Keeps, typed.staticType, decide_eq_true_eq]
    by_cases isVoid : ty = .void
    · subst isVoid
      exact deliveredKind_of_void sound counted typed
    · simpa [delivered, Ty.kinds, Ty.leaves, isVoid] using same

end CodeContext

section Methods

variable
  {table : ClassTable}
  {options : CompilerOptions}
  {method : Method}
  {read : DescriptorReader}

open CodeStream

/-- The code of an expression in a method without errors leaves exactly one
value of the kind of its type if that is wanted, and nothing otherwise, on
every path and whatever the stack is before, exactly if its parts are used as
what their code leaves, and it is itself what its type says. -/
theorem leavesExactly_pushExpr_iff
    {unit : CompilationUnit}
    (declared : ClassTable.ofUnit unit = .ok table)
    (clean : (analyzedMethod table options method).state.Clean)
    (reads : read.Reads table)
    {checked : Checked Expr}
    (member : checked ∈ method.resolutions table options)
    {wanted : Bool}
    {code after : CodeStream}
    (pushed : (loweringContext table options method).pushExpr checked.node wanted code =
      .ok after) :
    LeavesExactly read (if wanted then checked.type.kinds else []) code after ↔
      (loweringContext table options method).Faithful checked.node wanted = true ∧
        (wanted = true → (loweringContext table options method).Keeps checked.node = true) := by
  have tableSound := ClassTable.ofUnit_sound unit.isAllowed_lenient declared
  have sound := sound_loweringContext tableSound method.isAllowed_lenient clean
  obtain ⟨place, counted, typed⟩ :=
    types_loweringContext tableSound method.isAllowed_lenient clean member
  have keepsIff := CodeContext.keeps_iff_delivered_eq sound counted typed
  cases faithful : (loweringContext table options method).Faithful checked.node wanted with
  | false =>
      have fails := CodeContext.fails_pushExpr sound counted reads typed faithful pushed
      simpa using fails.not_leavesExactly
  | true =>
      have delivers := CodeContext.delivers_pushExpr sound counted reads typed faithful pushed
      simp only [true_and]
      constructor
      · rintro leaves rfl
        exact keepsIff.mpr (delivers.arrives.eq_of_leavesExactly leaves)
      · intro keeps
        cases wanted with
        | false =>
            exact delivers.leavesExactly
        | true =>
            rw [if_pos rfl, ← keepsIff.mp (keeps rfl)]
            exact delivers.leavesExactly

end Methods

/-- A method that compares a new array of its type parameter. -/
def Method.comparesNewArray :
    Method where
  name := ⟨"m", .absent⟩
  typeParams := [⟨"T", none⟩]
  params := []
  returnType := some (.named .absent "boolean")
  body := {
    span := .absent
    stmts := [.returnWith .absent (some (.binary .absent .eq
      (.newArray .absent (.named .absent "T") []) (.null .absent)))]
    facts := .initial
  }

/-- A comparison with a new array of a type parameter is reported by no pass,
and its code compares references as integers. -/
theorem comparesNewArray_notLeavesExactly :
    ClassTable.ofUnit ⟨"Main", none, [], [], []⟩ = .ok .builtin ∧
      (analyzedMethod .builtin .standard .comparesNewArray).state.Clean ∧
      MethodShape.ofDescriptor.Reads .builtin ∧
      ∃ checked ∈ Method.comparesNewArray.resolutions .builtin .standard, ∃ after,
        (loweringContext .builtin .standard .comparesNewArray).pushExpr checked.node true .empty =
          .ok after ∧
        ¬CodeStream.LeavesExactly MethodShape.ofDescriptor checked.type.kinds .empty after := by
  have declared : ClassTable.ofUnit ⟨"Main", none, [], [], []⟩ = .ok .builtin := rfl
  have clean : (analyzedMethod .builtin .standard .comparesNewArray).state.Clean := by
    decide +kernel
  have reads := ClassTable.reads_ofDescriptor
    (ClassTable.ofUnit_sound (CompilationUnit.isAllowed_lenient _) declared) (by decide +kernel)
  refine ⟨declared, clean, reads, ?_⟩
  have evaluated : (Method.comparesNewArray.resolutions .builtin .standard).any (fun checked =>
      ((loweringContext .builtin .standard .comparesNewArray).pushExpr checked.node true
        .empty).toOption.isSome &&
        !(loweringContext .builtin .standard .comparesNewArray).Faithful checked.node true) = true := by
    decide +kernel
  simp only [List.any_eq_true, Bool.and_eq_true, Bool.not_eq_true'] at evaluated
  obtain ⟨checked, member, hasCode, unfaithful⟩ := evaluated
  cases pushed : (loweringContext .builtin .standard .comparesNewArray).pushExpr checked.node true
      .empty with
  | error cause =>
      rw [pushed] at hasCode
      cases hasCode
  | ok after =>
      refine ⟨checked, member, after, pushed, fun leaves => ?_⟩
      have faithful := ((leavesExactly_pushExpr_iff declared clean reads member pushed).mp leaves).1
      rw [unfaithful] at faithful
      cases faithful

end LoopLowering
