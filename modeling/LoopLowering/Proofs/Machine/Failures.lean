import LoopLowering.Proofs.Code.Expressions
import LoopLowering.Proofs.Machine.ExpressionKinds

namespace LoopLowering

/-!
# Code that fails on a path

An expression whose parts are not used as what their code leaves has code with a
path to an instruction that does not find its operands. Together with what
faithful code delivers, this tells exactly which expressions have code that
leaves what it should.
-/

/-- Values of other kinds than the expected ones are not popped for them. -/
theorem popKinds_eq_none
    (below : KindStack) :
    ∀ {expected kinds : KindStack},
      kinds.length = expected.length →
      kinds ≠ expected →
      popKinds expected (kinds ++ below) = none
  | [], [], _, different => absurd rfl different
  | wanted :: others, kind :: kinds, sameLength, different => by
      rw [List.cons_append, popKinds]
      split
      · next same =>
          refine popKinds_eq_none below (by simpa using sameLength) ?_
          rintro rfl
          exact different (by rw [same])
      · rfl

/-- An operand that is of the kind of its type after a conversion is so before. -/
theorem Primitive.eq_of_convertedKind
    {source target : Primitive}
    {kind : ValueKind}
    (converted : source.convertedKind target kind = some (.ofPrimitive target)) :
    kind = .ofPrimitive source := by
  unfold Primitive.convertedKind at converted
  split at converted
  · next same =>
      cases converted
      exact same.symm
  · split at converted
    · assumption
    · cases converted

namespace CodeStream

/-- Some path through a piece of code leads, from whatever stack, to an
instruction in it that does not find its operands. -/
def Fails
    (read : DescriptorReader)
    (before after : CodeStream) :
    Prop :=
  ∀ below, ∃ state instruction,
    KindPath read after before.position after.position ⟨before.position, below⟩ state ∧
      before.position ≤ state.offset ∧ state.offset < after.position ∧
      after.instructions[state.offset]? = some instruction ∧
      instruction.effect read state.stack = none

namespace Fails

variable
  {read : DescriptorReader}
  {kinds : KindStack}
  {before code after : CodeStream}

/-- Code that fails on a path does not leave the same on every path. -/
theorem not_leavesExactly
    (fails : Fails read before after)
    (leaves : LeavesExactly read kinds before after) :
    False := by
  obtain ⟨state, instruction, path, -, high, fetched, refuses⟩ := fails []
  obtain ⟨-, -, top, isTop, -, executes⟩ := leaves [] state path
  obtain ⟨found, next, isFound, effect, -⟩ := executes high
  rw [fetched, Option.some.injEq] at isFound
  subst isFound
  rw [isTop, List.append_nil, effect] at refuses
  cases refuses

/-- Code that fails still fails with more code after it. -/
theorem extend
    (fails : Fails read before code)
    (extends_ : code.Extends after) :
    Fails read before after := by
  intro below
  obtain ⟨state, instruction, path, low, high, fetched, refuses⟩ := fails below
  exact ⟨state, instruction, path.extend extends_ (Nat.le_refl _) (Nat.le_refl _)
    extends_.position, low, Nat.lt_of_lt_of_le high extends_.position,
    (extends_.instruction _ high).trans fetched, refuses⟩

/-- Code that fails also fails after other code. -/
theorem prepend
    (arrives : Arrives read kinds before code)
    (position : before.position ≤ code.position)
    (extends_ : code.Extends after)
    (fails : Fails read code after) :
    Fails read before after := by
  intro below
  obtain ⟨state, instruction, path, low, high, fetched, refuses⟩ := fails (kinds ++ below)
  refine ⟨state, instruction, ?_, Nat.le_trans position low, high, fetched, refuses⟩
  exact ((arrives below).extend extends_ (Nat.le_refl _) (Nat.le_refl _) extends_.position).trans
    (path.extend (.refl after) (Nat.le_refl _) position (Nat.le_refl _))

/-- An instruction fails if it does not find its operands. -/
theorem emit
    (arrives : Arrives read kinds before code)
    (position : before.position ≤ code.position)
    {instruction : Instruction}
    (refuses : ∀ below, instruction.effect read (kinds ++ below) = none) :
    Fails read before (code.emit instruction) := by
  intro below
  refine ⟨⟨code.position, kinds ++ below⟩, instruction, ?_, position, ?_,
    instruction_emit instruction code, refuses below⟩
  · exact (arrives below).extend (extends_emit instruction code) (Nat.le_refl _) (Nat.le_refl _)
      (extends_emit instruction code).position
  · rw [position_emit]
    exact Nat.lt_succ_self _

end Fails

/-- Code leaves the same on every path as on one of them. -/
theorem Arrives.eq_of_leavesExactly
    {read : DescriptorReader}
    {kinds other : KindStack}
    {before after : CodeStream}
    (arrives : Arrives read kinds before after)
    (leaves : LeavesExactly read other before after) :
    kinds = other := by
  obtain ⟨-, -, top, isTop, atEnd, -⟩ := leaves [] _ (arrives [])
  rw [← atEnd rfl]
  simpa using isTop

section Operands

variable
  {read : DescriptorReader}
  {kinds : KindStack}
  {kind other : ValueKind}
  {before code after : CodeStream}

/-- A conversion between primitive types fails on a value of a kind that it does
not take. -/
theorem fails_convertKind
    {source target : Primitive}
    (arrives : Arrives read (kind :: kinds) before code)
    (position : before.position ≤ code.position)
    (notConverted : source.convertedKind target kind = none) :
    Fails read before (code.convert source target) := by
  unfold Primitive.convertedKind at notConverted
  unfold CodeStream.convert
  split at notConverted
  · cases notConverted
  · next different =>
      split at notConverted
      · cases notConverted
      · next notSource =>
          rw [if_neg different]
          refine .emit arrives position fun below => ?_
          simp [Instruction.effect, popKinds, notSource]

/-- A conversion to the type that a value is assigned to fails on a value of a
kind that it does not take. -/
theorem fails_convertAssigned
    {table : ClassTable}
    (reads : read.Reads table)
    {source target : Ty}
    (arrives : Arrives read (kind :: kinds) before code)
    (position : before.position ≤ code.position)
    (notConverted : source.convertedKind target kind = none) :
    Fails read before (code.convertAssigned table source target) := by
  cases isSource : source.primitive? with
  | some given =>
      cases isTarget : target.primitive? with
      | some wanted =>
          simp only [Ty.convertedKind, isSource, isTarget] at notConverted
          simp only [CodeStream.convertAssigned, isSource, isTarget]
          exact fails_convertKind arrives position notConverted
      | none =>
          simp only [Ty.convertedKind, isSource, isTarget] at notConverted
          simp only [CodeStream.convertAssigned, isSource, isTarget]
          split at notConverted
          · next isReference =>
              split at notConverted
              · cases notConverted
              · next notGiven =>
                  rw [if_pos isReference]
                  refine .emit arrives position fun below => ?_
                  simp [ClassTable.boxingCall, Instruction.effect, reads.boxing, popKinds, notGiven]
          · cases notConverted
  | none =>
      cases isTarget : target.primitive? with
      | some wanted =>
          cases wrapped : ClassTable.unboxed? source with
          | some given =>
              simp only [Ty.convertedKind, isSource, isTarget, wrapped] at notConverted
              simp only [CodeStream.convertAssigned, isSource, isTarget, wrapped]
              split at notConverted
              · cases notConverted
              · next notReference =>
                  have unboxes : Fails read before
                      (code.emit (ClassTable.unboxingCall table given)) := by
                    refine Fails.emit arrives position fun below => ?_
                    simp [ClassTable.unboxingCall, Instruction.effect, reads.unboxing, popKinds,
                      notReference]
                  exact unboxes.extend ((Appends.refl _).convert _ _).extends_
          | none =>
              simp [Ty.convertedKind, isSource, isTarget, wrapped] at notConverted
      | none =>
          simp [Ty.convertedKind, isSource, isTarget] at notConverted

/-- Storing to a local fails on a value of another kind. -/
theorem fails_store
    {scope : MethodScope}
    {id : LocalId}
    {keep : Bool}
    (arrives : Arrives read (kind :: kinds) before code)
    (position : before.position ≤ code.position)
    (different : kind ≠ kindOf scope id)
    (stored : code.store scope id keep = .ok after) :
    Fails read before after := by
  obtain ⟨slot, -, rfl⟩ := store_eq_ok.mp stored
  refine Fails.extend ?_ ((Appends.refl _).same (openLocal_same _ _ _).1
    (openLocal_same _ _ _).2).extends_
  have refuses : ∀ stack, (Instruction.store (kindOf scope id) slot).effect read (kind :: stack) =
      none := by
    simp [Instruction.effect, popKinds, different]
  cases keep with
  | false =>
      exact .emit arrives position fun below => refuses _
  | true =>
      -- a copy of another width may take the value below along, but the value stays on top
      simp only [copied, if_true]
      generalize copying : (if (kindOf scope id).isWide = true then Instruction.dup2 else .dup) =
        copy
      have copies : ∀ stack next, copy.effect read (kind :: stack) = some next →
          ∃ rest, next = kind :: rest := by
        intro stack next effect
        rw [← copying] at effect
        split at effect
        · simp only [Instruction.effect] at effect
          split at effect
          · cases effect
            exact ⟨_, rfl⟩
          · split at effect
            · split at effect
              · cases effect
              · cases effect
                exact ⟨_, rfl⟩
            · cases effect
        · simp only [Instruction.effect] at effect
          split at effect
          · cases effect
          · cases effect
            exact ⟨_, rfl⟩
      have goesOn : copy.endsFlow = false := by
        rw [← copying]
        split <;> rfl
      intro below
      have extendsCopy := extends_emit copy code
      have extendsStore := extends_emit (.store (kindOf scope id) slot) (code.emit copy)
      have whole := extendsCopy.trans extendsStore
      have path := (arrives below).extend whole (Nat.le_refl _) (Nat.le_refl _) whole.position
      have isCopy := (extendsStore.instruction code.position (by simp)).trans
        (instruction_emit copy code)
      cases effect : copy.effect read (kind :: kinds ++ below) with
      | none =>
          refine ⟨_, copy, path, position, ?_, isCopy, effect⟩
          simp only [position_emit]
          omega
      | some next =>
          obtain ⟨rest, rfl⟩ := copies _ _ effect
          refine ⟨⟨code.position + 1, kind :: rest⟩, _, ?_, ?_, ?_, ?_, refuses rest⟩
          · refine path.next position ?_ isCopy effect goesOn
            simp only [position_emit]
            omega
          · simp only
            omega
          · simp
          · have fetched := instruction_emit (.store (kindOf scope id) slot) (code.emit copy)
            rwa [position_emit] at fetched

/-- An arithmetic operation fails on operands of other kinds. -/
theorem fails_arith
    {operand : ValueKind}
    (arrives : Arrives read [kind, other] before code)
    (position : before.position ≤ code.position)
    (different : [kind, other] ≠ [operand, operand])
    (op : ArithOp) :
    Fails read before (code.emit (.arith op operand)) := by
  refine .emit arrives position fun below => ?_
  have refuses : popKinds [operand, operand] ([kind, other] ++ below) = none :=
    popKinds_eq_none below rfl different
  simp only [Instruction.effect, refuses, Option.map_none, ite_self]

/-- A comparison fails on operands of other kinds. -/
theorem fails_branchOnValues
    {operand : Primitive}
    (arrives : Arrives read [kind, other] before code)
    (position : before.position ≤ code.position)
    (different : [kind, other] ≠ [.ofPrimitive operand, .ofPrimitive operand])
    (op : BinOp)
    (condition : Condition)
    (label : Label) :
    Fails read before (code.branchOnValues op condition operand label) := by
  have refuses : ∀ below, popKinds [.ofPrimitive operand, .ofPrimitive operand]
      ([kind, other] ++ below) = none := fun below => popKinds_eq_none below rfl different
  unfold CodeStream.branchOnValues
  split
  · next isInt =>
      rw [isInt] at refuses
      exact .emit arrives position fun below => refuses below
  · refine (Fails.emit arrives position fun below => ?_).extend (extends_emit _ _)
    simp only [Instruction.effect, refuses, Option.map_none, ite_self]

end Operands

end CodeStream

namespace CodeContext

open CodeStream

variable
  {strict : Bool}
  {context : CodeContext}
  {place : Place}
  {read : DescriptorReader}

/-- A reference that code generation has no type for is a new array. -/
theorem deliveredKind_of_isUnknown
    {expr : Expr}
    {ty : Ty}
    (typed : context.HasType strict place expr ty)
    (sound : context.Sound strict)
    (counted : place.count ≤ context.scope.locals.size)
    (emittable : context.Emittable expr true = true)
    (isReference : ty.isReference = true)
    (missed : (context.exprType expr).isUnknown = true) :
    context.deliveredKind expr = .reference := by
  have known : ty.isUnknown = false := (typed.isResult sound counted).ne_unknown
  cases expr with
  | newArray span component elements =>
      rw [HasType] at typed
      obtain ⟨componentTy, -, resolved, -, rfl⟩ := typed
      simp [deliveredKind, staticType, resolved, ValueKind.ofTy]
  | binary span op left right =>
      rw [HasType] at typed
      obtain ⟨leftTy, rightTy, leftTyped, rightTyped, found⟩ := typed
      have isPrimitive := Ty.isPrimitive_resultType? (leftTyped.isResult sound counted)
        (rightTyped.isResult sound counted) found
      cases ty <;> simp_all [Ty.isPrimitive, Ty.isReference]
  | intLit | boolLit | stringLit | null =>
      simp only [exprType] at missed
      cases missed
  | name span ref =>
      rw [HasType] at typed
      obtain ⟨id, binds, -, rfl⟩ := typed
      simp [exprType, binds.1, boundType, known] at missed
  | assign span target op value =>
      have isBound : context.boundType target.node.binding = ty := by
        cases op with
        | none =>
            rw [HasType] at typed
            obtain ⟨id, valueTy, binds, -, -, rfl⟩ := typed
            simp [binds.1, boundType]
        | some op =>
            rw [HasType] at typed
            obtain ⟨id, valueTy, binds, -, -, -, rfl⟩ := typed
            simp [binds.1, boundType]
      simp [exprType, isBound, known] at missed
  | call span function args =>
      rw [HasType] at typed
      obtain ⟨info, found, -, rfl⟩ := typed
      simp [exprType, found, known] at missed
  | methodCall span receiver method args =>
      rw [HasType] at typed
      obtain ⟨receiverTy, found, receiverTyped, finds, -, rfl⟩ := typed
      simp only [Emittable, Bool.and_eq_true, Bool.not_eq_true'] at emittable
      have isFound := (receiverTyped.takenFor sound counted emittable.1.2).lookupMethod
        emittable.1.1 context.table method.node
      simp [exprType, isFound, finds, known] at missed

/-- A right operand whose code fails, or whose code leaves a value while one of
the two operands is not what it is used as. -/
def MisusesOperand
    (read : DescriptorReader)
    (pushRight : CodeStep)
    (rightKind : ValueKind)
    (misused : Prop) :
    Prop :=
  (∀ {before done : CodeStream}, pushRight before = .ok done → Fails read before done) ∨
    ((∀ {before done : CodeStream}, pushRight before = .ok done →
      Delivers read [rightKind] before done) ∧ misused)

/-- Two operands that are converted to a common type either fail or are not
both of the kind of that type, if one of them is not what it is used as. -/
theorem fails_or_arrives_operands
    {first second operand : Primitive}
    {leftKind rightKind : ValueKind}
    {pushRight : CodeStep}
    {code pushed both : CodeStream}
    (leftDelivers : Delivers read [leftKind] code pushed)
    (misuses : MisusesOperand read pushRight rightKind
      ¬(leftKind = .ofPrimitive first ∧ rightKind = .ofPrimitive second))
    (rightAppends : pushRight.Appends)
    (isBoth : pushRight (pushed.convert first operand) = .ok both) :
    Fails read code (both.convert second operand) ∨
      ∃ one two, Delivers read [two, one] code (both.convert second operand) ∧
        [two, one] ≠ [.ofPrimitive operand, .ofPrimitive operand] := by
  have rest := (rightAppends isBoth).convert second operand
  cases isFirst : first.convertedKind operand leftKind with
  | none =>
      exact .inl ((fails_convertKind leftDelivers.arrives leftDelivers.appends.position
        isFirst).extend rest.extends_)
  | some one =>
      have firstDelivers := leftDelivers.convertKind isFirst
      rcases misuses with fails | ⟨delivers, misused⟩
      · exact .inl (((fails isBoth).extend ((Appends.refl both).convert _ _).extends_).prepend
          firstDelivers.arrives firstDelivers.appends.position rest.extends_)
      · have bothDeliver := firstDelivers.append (delivers isBoth)
        cases isSecond : second.convertedKind operand rightKind with
        | none =>
            exact .inl (fails_convertKind bothDeliver.arrives bothDeliver.appends.position isSecond)
        | some two =>
            refine .inr ⟨one, two, bothDeliver.convertKind isSecond, ?_⟩
            intro same
            simp only [List.cons.injEq, and_true] at same
            obtain ⟨rfl, rfl⟩ := same
            exact misused ⟨Primitive.eq_of_convertedKind isFirst,
              Primitive.eq_of_convertedKind isSecond⟩

/-- A comparison fails if one of its operands is not what code generation
compares it as. -/
theorem fails_branchOnComparison
    {op : BinOp}
    {left right : Expr}
    {leftTy rightTy ty : Ty}
    {leftKind rightKind : ValueKind}
    {pushLeft pushRight : CodeStep}
    {code after : CodeStream}
    (leftResult : leftTy.IsResult strict)
    (rightResult : rightTy.IsResult strict)
    (leftDelivers : ∀ {before done : CodeStream}, pushLeft before = .ok done →
      Delivers read [leftKind] before done)
    (misuses : MisusesOperand read pushRight rightKind
      ¬((leftTy.isReference = true → (context.exprType left).isUnknown = false) ∧
        leftKind = .ofTy leftTy ∧ rightKind = .ofTy rightTy))
    (rightAppends : pushRight.Appends)
    (found : op.resultType? leftTy rightTy = some ty)
    (leftTaken : leftTy.TakenFor (context.exprType left))
    (rightTaken : rightTy.TakenFor (context.exprType right))
    (missesArray : leftTy.isReference = true → (context.exprType left).isUnknown = true →
      leftKind = .reference)
    {branchIf : Bool}
    {label : Label}
    (branched : context.branchOnComparison op left right pushLeft pushRight branchIf label code =
      .ok after) :
    Fails read code after := by
  simp only [branchOnComparison, bind_eq_ok] at branched
  obtain ⟨condition, -, pushed, isPushed, branched⟩ := branched
  have first := leftDelivers isPushed
  -- operands that are compared as they are fail unless both are of the kind that is compared
  have failsRaw : ∀ {both : CodeStream} {instruction : Instruction} {kind : ValueKind},
      pushRight pushed = .ok both →
      (∀ stack, instruction.effect read stack = popKinds [kind, kind] stack) →
      ([rightKind, leftKind] = [kind, kind] →
        (leftTy.isReference = true → (context.exprType left).isUnknown = false) ∧
          leftKind = .ofTy leftTy ∧ rightKind = .ofTy rightTy) →
      Fails read code (both.emit instruction) := by
    intro both instruction kind isBoth effect proper
    rcases misuses with fails | ⟨delivers, misused⟩
    · exact ((fails isBoth).extend (extends_emit _ _)).prepend first.arrives first.appends.position
        ((rightAppends isBoth).emit _).extends_
    · have both := first.append (delivers isBoth)
      refine .emit both.arrives both.appends.position fun below => ?_
      rw [effect]
      exact popKinds_eq_none below rfl fun same => misused (proper same)
  cases BinOp.applies_of_resultType? leftResult.ne_unknown rightResult.ne_unknown found with
  | @numeric given other isLeft isRight operand =>
      subst isLeft isRight
      have areNumeric := BinOp.isNumeric_of_operandType? operand
      have isFirst := leftTaken.eq_of_isNumeric areNumeric.1
      have isSecond := rightTaken.eq_of_isNumeric areNumeric.2
      simp only [isFirst, isSecond, operand, bind_eq_ok, pure_eq_ok] at branched
      obtain ⟨both, isBoth, rfl⟩ := branched
      have misusesNumbers : MisusesOperand read pushRight rightKind
          ¬(leftKind = .ofPrimitive given ∧ rightKind = .ofPrimitive other) := by
        rcases misuses with fails | ⟨delivers, misused⟩
        · exact .inl fails
        · exact .inr ⟨delivers, fun proper =>
            misused ⟨fun isReference => (by cases isReference), proper⟩⟩
      rcases fails_or_arrives_operands first misusesNumbers rightAppends isBoth with
        fails | ⟨one, two, delivers, different⟩
      · exact fails.extend ((Appends.refl _).branchOnValues _ _ _ _).extends_
      · exact fails_branchOnValues delivers.arrives delivers.appends.position different op condition
          label
  | truthValues isLeft isRight isEquality noOperand =>
      subst isLeft isRight
      have noTaken := leftTaken.operandType?_eq_none rightTaken noOperand
      have notReference : (context.exprType left).isReference = false := leftTaken.isReference_eq
      simp only [noTaken, notReference, Bool.false_eq_true, if_false, bind_eq_ok, pure_eq_ok]
        at branched
      obtain ⟨both, isBoth, rfl⟩ := branched
      refine failsRaw isBoth (fun stack => rfl) fun same => ?_
      simp only [List.cons.injEq, and_true] at same
      exact ⟨fun isReference => (by cases isReference), same.2, same.1⟩
  | references isLeft isRight isEquality noOperand =>
      have noTaken := leftTaken.operandType?_eq_none rightTaken noOperand
      cases missed : (context.exprType left).isUnknown with
      | true =>
          have notReference : (context.exprType left).isReference = false := by
            rw [leftTaken.isReference_eq, missed, Bool.not_true, Bool.and_false]
          simp only [noTaken, notReference, Bool.false_eq_true, if_false, bind_eq_ok, pure_eq_ok]
            at branched
          obtain ⟨both, isBoth, rfl⟩ := branched
          refine failsRaw isBoth (fun stack => rfl) fun same => ?_
          simp [missesArray isLeft missed] at same
      | false =>
          have isReference : (context.exprType left).isReference = true := by
            rw [leftTaken.isReference_eq, isLeft, missed]
            rfl
          simp only [noTaken, isReference, if_true, bind_eq_ok, pure_eq_ok] at branched
          obtain ⟨both, isBoth, rfl⟩ := branched
          refine failsRaw isBoth (fun stack => rfl) fun same => ?_
          simp only [List.cons.injEq, and_true] at same
          refine ⟨fun _ => missed, ?_, ?_⟩
          · rw [same.2, ValueKind.ofTy_of_isReference isLeft]
          · rw [same.1, ValueKind.ofTy_of_isReference isRight]

/-- A test that is made a value fails if it fails as a branch. -/
theorem fails_testValue
    {branchUnless : Label → CodeStep}
    {code after : CodeStream}
    (fails : ∀ {label : Nat} {before done : CodeStream},
      branchUnless label before = .ok done → Fails read before done)
    (appends : ∀ {label : Nat} {before done : CodeStream},
      branchUnless label before = .ok done → Appends [] before done)
    (tested : code.testValue branchUnless = .ok after) :
    Fails read code after := by
  obtain ⟨middle, isTested, rfl⟩ := testValue_eq_ok.mp tested
  have labeled := ((Appends.refl code).addLabel.addLabel).trans (appends isTested)
  have extends_ : middle.Extends (((((middle.emit (.intConst 1)).emit
      (.goto code.addLabel.nextLabel)).place code.nextLabel).emit (.intConst 0)).place
        code.addLabel.nextLabel) := by
    have firstOpen := (labeled.isOpen code.nextLabel (by simp)).2
    have secondOpen := (labeled.isOpen code.addLabel.nextLabel (by simp)).2
    have different : code.nextLabel ≠ code.addLabel.nextLabel := by
      simp [nextLabel, addLabel]
    refine (((extends_emit _ middle).trans (extends_emit _ _)).trans
      (extends_place ?_)).trans ((extends_emit _ _).trans (extends_place ?_))
    · change (middle.labels[code.nextLabel]?).join = none
      rw [firstOpen]
      rfl
    · change ((CodeStream.place code.nextLabel ((middle.emit (.intConst 1)).emit
        (.goto code.addLabel.nextLabel))).labels[code.addLabel.nextLabel]?).join = none
      rw [labels_place different]
      change (middle.labels[code.addLabel.nextLabel]?).join = none
      rw [secondOpen]
      rfl
  exact (fails isTested).extend extends_

/-- A result of another width is not dropped. -/
theorem fails_keepResult
    {kinds : KindStack}
    {type : Ty}
    {kind : ValueKind}
    {before code : CodeStream}
    (delivers : Delivers read (type.leaves kind ++ kinds) before code)
    {wanted : Bool}
    (isWide : (ValueKind.ofTy type).isWide = true → kind = .ofTy type)
    (nothing : type = .void → kind = .reference)
    (keeps : kind.drops type wanted = false) :
    Fails read before (code.keepResult type wanted) := by
  simp only [ValueKind.drops, Bool.or_eq_false_iff, beq_eq_false_iff_ne] at keeps
  obtain ⟨rfl, different⟩ := keeps
  have narrow : (ValueKind.ofTy type).isWide = false := by
    cases wide : (ValueKind.ofTy type).isWide with
    | false =>
        rfl
    | true =>
        rw [isWide wide] at different
        exact absurd rfl different
  have wide : kind.isWide = true := by
    rw [narrow] at different
    simpa using different
  have notVoid : type ≠ .void := by
    intro isVoid
    rw [nothing isVoid] at wide
    cases wide
  have kept : (type == Ty.void) = false := beq_eq_false_iff_ne.mpr notVoid
  rw [Ty.leaves_of_ne_void notVoid] at delivers
  simp only [keepResult, Bool.false_or, kept, Bool.false_eq_true, if_false, popValue, narrow]
  refine .emit delivers.arrives delivers.appends.position fun below => ?_
  simp [Instruction.effect, wide]

/-- A comparison fails if its first operand does. -/
theorem fails_branchOnComparison_left
    {op : BinOp}
    {left right : Expr}
    {pushLeft pushRight : CodeStep}
    {code after : CodeStream}
    (fails : ∀ {before done : CodeStream}, pushLeft before = .ok done → Fails read before done)
    (rightAppends : pushRight.Appends)
    {branchIf : Bool}
    {label : Label}
    (branched : context.branchOnComparison op left right pushLeft pushRight branchIf label code =
      .ok after) :
    Fails read code after := by
  simp only [branchOnComparison, bind_eq_ok] at branched
  obtain ⟨condition, -, pushed, isPushed, branched⟩ := branched
  refine (fails isPushed).extend ?_
  split at branched
  · simp only [bind_eq_ok, pure_eq_ok] at branched
    obtain ⟨both, isBoth, rfl⟩ := branched
    exact ((((Appends.refl pushed).convertOperand _ _).trans (rightAppends isBoth)).convertOperand
      _ _ |>.branchOnValues _ _ _ _).extends_
  · simp only [bind_eq_ok, pure_eq_ok] at branched
    obtain ⟨both, isBoth, rfl⟩ := branched
    exact ((rightAppends isBoth).emit _).extends_

/-- An arithmetic operation fails if one of its operands does, or is not what
it is computed as. -/
theorem fails_pushArithmetic
    {op : BinOp}
    {left right : Expr}
    {first second : Primitive}
    {leftKind rightKind : ValueKind}
    {pushLeft pushRight : CodeStep}
    {code after : CodeStream}
    (isFirst : context.exprType left = .primitive first)
    (isSecond : context.exprType right = .primitive second)
    (leftDelivers : ∀ {before done : CodeStream}, pushLeft before = .ok done →
      Delivers read [leftKind] before done)
    (misuses : MisusesOperand read pushRight rightKind
      ¬(leftKind = .ofPrimitive first ∧ rightKind = .ofPrimitive second))
    (rightAppends : pushRight.Appends)
    (pushed : context.pushArithmetic op left right pushLeft pushRight code = .ok after) :
    Fails read code after := by
  simp only [pushArithmetic, isFirst, isSecond] at pushed
  split at pushed
  · cases pushed
  · simp only [bind_eq_ok, pure_eq_ok] at pushed
    obtain ⟨one, isLeft, both, isRight, arith, -, rfl⟩ := pushed
    rcases fails_or_arrives_operands (leftDelivers isLeft) misuses rightAppends isRight with
      fails | ⟨one, two, delivers, different⟩
    · exact fails.extend (extends_emit _ _)
    · exact fails_arith delivers.arrives delivers.appends.position different arith

/-- An arithmetic operation fails if its first operand does. -/
theorem fails_pushArithmetic_left
    {op : BinOp}
    {left right : Expr}
    {pushLeft pushRight : CodeStep}
    {code after : CodeStream}
    (fails : ∀ {before done : CodeStream}, pushLeft before = .ok done → Fails read before done)
    (rightAppends : pushRight.Appends)
    (pushed : context.pushArithmetic op left right pushLeft pushRight code = .ok after) :
    Fails read code after := by
  simp only [pushArithmetic] at pushed
  split at pushed
  · cases pushed
  · simp only [bind_eq_ok, pure_eq_ok] at pushed
    obtain ⟨one, isLeft, both, isRight, arith, -, rfl⟩ := pushed
    exact (fails isLeft).extend ((((Appends.refl one).convertOperand _ _).trans
      (rightAppends isRight)).convertOperand _ _ |>.emit _).extends_

/-- A compound assignment fails if its value does, or is not what is computed
with. -/
theorem fails_assignOperated
    {id : LocalId}
    {op : BinOp}
    {value : Expr}
    {valueTy : Ty}
    {kind : ValueKind}
    {pushValue : CodeStep}
    {wanted : Bool}
    {code after : CodeStream}
    (result : valueTy.IsResult strict)
    (isValue : (context.localAt id).type.isValue strict = true)
    (applies : compoundApplies op (context.localAt id).type valueTy = true)
    (isTaken : valueTy.TakenFor (context.exprType value))
    (misuses : MisusesOperand read pushValue kind ¬kind = .ofTy valueTy)
    (appends : pushValue.Appends)
    (assigned : context.assignOperated id op value pushValue wanted code = .ok after) :
    Fails read code after := by
  simp only [compoundApplies, Bool.and_eq_true, Bool.not_eq_true'] at applies
  obtain ⟨arithmetic, applies⟩ := applies
  cases found : op.resultType? (context.localAt id).type valueTy with
  | none =>
      simp [found] at applies
  | some computed =>
      obtain ⟨target, given, isTarget, isGiven, -, isSource, operand, -⟩ := operandType?_exprType
        (Ty.IsResult.ne_unknown (.inr (.inr isValue))) result.ne_unknown arithmetic found
        (.same _) isTaken
      rw [isTarget] at operand
      simp only [assignOperated, isTarget, operand, Ty.primitive?, bind_eq_ok] at assigned
      obtain ⟨loaded, isLoaded, both, isBoth, arith, -, stored⟩ := assigned
      rw [isSource] at stored
      have storing := ((((Appends.refl _).emit (.arith arith
        (.ofPrimitive (target.promote given)))).convert (target.promote given) target).store
          stored).extends_
      have isKind : kindOf context.scope id = .ofPrimitive target := by
        change ValueKind.ofTy (context.localAt id).type = _
        rw [isTarget]
        rfl
      have first := (Delivers.refl read code).load isLoaded
      rw [isKind] at first
      have misusesOperand : MisusesOperand read pushValue kind
          ¬(ValueKind.ofPrimitive target = .ofPrimitive target ∧ kind = .ofPrimitive given) := by
        rcases misuses with fails | ⟨delivers, misused⟩
        · exact .inl fails
        · rw [isGiven] at misused
          exact .inr ⟨delivers, fun proper => misused proper.2⟩
      rcases fails_or_arrives_operands first misusesOperand appends isBoth with
        fails | ⟨one, two, delivers, different⟩
      · exact fails.extend storing
      · exact (fails_arith delivers.arrives delivers.appends.position different arith).extend
          (((Appends.refl _).convert (target.promote given) target).store stored).extends_

/-- A call of a function fails on arguments that are not what its descriptor
names, or if it drops another number of words than its result has. -/
theorem fails_callFunction
    (reads : read.Reads context.table)
    (tableSound : context.table.Sound strict)
    {name : String}
    {info : FunctionInfo}
    (found : context.table.function? name = some info)
    {given : List ValueKind}
    (sameLength : given.length = info.signature.params.length)
    {code middle : CodeStream}
    (delivers : Delivers read given.reverse code middle)
    {wanted : Bool}
    (misused : ¬(given = info.signature.shape.params ∧
      info.signature.resultKind.drops info.signature.returnType wanted = true)) :
    Fails read code (context.callFunction name info wanted middle) := by
  have member := NameTable.mem_of_find? found
  have sound := tableSound.functions _ member
  by_cases fits : given = info.signature.shape.params
  · have drops : info.signature.resultKind.drops info.signature.returnType wanted = false := by
      simpa [fits] using misused
    subst fits
    rw [← List.append_nil (List.reverse _)] at delivers
    exact fails_keepResult (delivers_invokeFunction reads tableSound found delivers)
      (Signature.resultKind_of_isWide sound) (Signature.resultKind_of_void sound) drops
  · refine (Fails.emit delivers.arrives delivers.appends.position fun below => ?_).extend
      ((Appends.refl _).keepResult _ _).extends_
    have refuses : popKinds info.signature.shape.params.reverse (given.reverse ++ below) = none :=
      popKinds_eq_none below (by simp [sameLength, Signature.shape])
        (fun same => fits (List.reverse_inj.mp same))
    simp only [Instruction.effect, reads.functions _ member, if_true, List.append_nil, refuses,
      Option.map_none]

/-- A call of a method fails on a receiver that is no reference, on arguments
that are not what its descriptor names, if its result is cast and is no
reference, or if it drops another number of words than its result has. -/
theorem fails_callMethod
    (reads : read.Reads context.table)
    (tableSound : context.table.Sound strict)
    {receiver : Ty}
    (result : receiver.IsResult strict)
    {name : String}
    {found : ClassTable.FoundMethod}
    (finds : context.table.lookupMethod receiver name = some found)
    {given : List ValueKind}
    (sameLength : given.length = found.seen.params.length)
    {kind : ValueKind}
    {code middle : CodeStream}
    (delivers : Delivers read (given.reverse ++ [kind]) code middle)
    {wanted : Bool}
    (misused : ¬(kind = .reference ∧ given = found.declared.shape.params ∧
      (found.isCast = true → found.declared.resultKind = .reference) ∧
      found.declared.resultKind.drops found.seen.returnType wanted = true)) :
    Fails read code (context.callMethod name found wanted middle) := by
  have sound := ClassTable.isSound_lookupMethod tableSound result finds
  have called : (middle.emit (.invoke (context.invokeKind found.owner.toTy)
      ⟨context.table.referenceName found.owner.toTy, name,
        context.table.methodDescriptor found.declared⟩)).Extends
          (context.callMethod name found wanted middle) := by
    simp only [callMethod]
    suffices cast : Appends [] _ _ from (cast.keepResult _ _).extends_
    split
    · exact (Appends.refl _).emit _
    · exact .refl _
  by_cases fits : kind = .reference ∧ given = found.declared.shape.params
  · obtain ⟨rfl, rfl⟩ := fits
    have invoked := delivers_invokeMethod reads tableSound result finds delivers
    cases isCast : found.isCast with
    | true =>
        have castWhen := isCast
        simp only [ClassTable.FoundMethod.isCast] at castWhen
        have notVoid : found.seen.returnType ≠ .void := by
          intro isVoid
          simp [isVoid, Ty.isReference] at castWhen
        simp only [callMethod, castWhen, if_true]
        rw [Ty.leaves_of_ne_void notVoid] at invoked
        by_cases isReference : found.declared.resultKind = .reference
        · have drops : found.declared.resultKind.drops found.seen.returnType wanted = false := by
            simpa [isReference] using misused
          rw [isReference] at invoked drops
          have cast : Delivers read (found.seen.returnType.leaves .reference ++ []) code
              ((middle.emit (.invoke (context.invokeKind found.owner.toTy)
                ⟨context.table.referenceName found.owner.toTy, name,
                  context.table.methodDescriptor found.declared⟩)).emit
                    (.checkCast (context.table.referenceName found.seen.returnType))) := by
            rw [Ty.leaves_of_ne_void notVoid]
            exact invoked.emit rfl rfl rfl
          exact fails_keepResult cast
            (fun isWide => isReference.symm.trans (sound.resultKind_of_isWide isWide))
            (fun _ => rfl) drops
        · refine (Fails.emit invoked.arrives invoked.appends.position fun below => ?_).extend
            ((Appends.refl _).keepResult _ _).extends_
          simp [Instruction.effect, popKinds, isReference]
    | false =>
        have drops : found.declared.resultKind.drops found.seen.returnType wanted = false := by
          simpa [isCast] using misused
        have castWhen := isCast
        simp only [ClassTable.FoundMethod.isCast] at castWhen
        simp only [callMethod, castWhen, Bool.false_eq_true, if_false]
        exact fails_keepResult invoked sound.resultKind_of_isWide
          (fun isVoid => Signature.resultKind_of_void sound.declared (sound.void_iff.mpr isVoid))
          drops
  · refine (Fails.emit delivers.arrives delivers.appends.position fun below => ?_).extend called
    have refuses : popKinds (found.declared.shape.params.reverse ++ [.reference])
        (given.reverse ++ [kind] ++ below) = none := by
      refine popKinds_eq_none below
        (by simp [sameLength, Signature.shape, sound.length_params]) fun same => ?_
      obtain ⟨sameArguments, sameReceiver⟩ := List.append_inj' same rfl
      exact fits ⟨by simpa using sameReceiver, List.reverse_inj.mp sameArguments⟩
    simp only [Instruction.effect, read_methodDescriptor reads finds, invokeKind_ne_static, if_false,
      refuses, Option.map_none]

/-- When a comparison is made between what its operands are. -/
theorem compares_iff
    {left right : Expr}
    {leftTy rightTy : Ty}
    (leftTyped : context.HasType strict place left leftTy)
    (rightTyped : context.HasType strict place right rightTy) :
    context.Compares left right = true ↔
      (leftTy.isReference = true → (context.exprType left).isUnknown = false) ∧
        context.deliveredKind left = .ofTy leftTy ∧ context.deliveredKind right = .ofTy rightTy := by
  simp only [Compares, Keeps, leftTyped.staticType, rightTyped.staticType, Bool.and_eq_true,
    Bool.or_eq_true, Bool.not_eq_true', decide_eq_true_eq, and_assoc]
  cases leftTy.isReference <;> simp

/-- An operator takes values. -/
theorem BinOp.ne_void_of_resultType?
    {op : BinOp}
    {left right ty : Ty}
    (leftKnown : left.isUnknown = false)
    (rightKnown : right.isUnknown = false)
    (found : op.resultType? left right = some ty) :
    left ≠ .void ∧ right ≠ .void := by
  cases BinOp.applies_of_resultType? leftKnown rightKnown found with
  | numeric isLeft isRight | truthValues isLeft isRight =>
      subst isLeft isRight
      constructor <;> rintro ⟨⟩
  | references isLeft isRight =>
      constructor
      · rintro rfl
        cases isLeft
      · rintro rfl
        cases isRight

/-- A compound assignment takes a value. -/
theorem ne_void_of_compoundApplies
    {op : BinOp}
    {target value : Ty}
    (targetKnown : target.isUnknown = false)
    (valueKnown : value.isUnknown = false)
    (applies : compoundApplies op target value = true) :
    value ≠ .void := by
  simp only [compoundApplies, Bool.and_eq_true] at applies
  cases found : op.resultType? target value with
  | none =>
      simp [found] at applies
  | some computed =>
      exact (BinOp.ne_void_of_resultType? targetKnown valueKnown found).2

mutual

/-- The code of an expression that has a part which is not used as what its code
leaves fails. -/
theorem fails_pushExpr
    (sound : context.Sound strict)
    (counted : place.count ≤ context.scope.locals.size)
    (reads : read.Reads context.table) :
    ∀ {expr : Expr} {wanted : Bool} {ty : Ty} {code after : CodeStream},
      context.HasType strict place expr ty →
      context.Faithful expr wanted = false →
      context.pushExpr expr wanted code = .ok after →
      Fails read code after
  | .intLit .., wanted, ty, code, after, typed, unfaithful, pushed
  | .boolLit .., wanted, ty, code, after, typed, unfaithful, pushed
  | .stringLit .., wanted, ty, code, after, typed, unfaithful, pushed
  | .null _, wanted, ty, code, after, typed, unfaithful, pushed
  | .name .., wanted, ty, code, after, typed, unfaithful, pushed => by
      rw [Faithful] at unfaithful
      cases unfaithful
  | .newArray span component elements, wanted, ty, code, after, typed, unfaithful, pushed => by
      rw [HasType] at typed
      obtain ⟨componentTy, allowed, resolved, fill, rfl⟩ := typed
      simp only [Faithful, createdComponent, resolved] at unfaithful
      cases wanted with
      | false =>
          simp only [pushExpr, Bool.false_eq_true, if_false] at pushed
          exact fails_runExprs sound counted reads fill (by simpa using unfaithful) pushed
      | true =>
          have value := (ClassTable.resolve_isValue sound.typeVars allowed resolved).1
          simp only [pushExpr, componentType, if_true, resolved, bind_eq_ok, newArray_eq_ok,
            Except.ok.injEq, exists_eq_left'] at pushed
          obtain ⟨created, ⟨-, rfl⟩, filled⟩ := pushed
          exact fails_fillArray sound counted reads fill value (by simpa using unfaithful)
            (delivers_creation read context.table componentTy elements.length code) filled
  | .binary span op left right, wanted, ty, code, after, typed, unfaithful, pushed => by
      have emittable := emittable_of_pushExpr sound counted typed pushed
      rw [HasType] at typed
      obtain ⟨leftTy, rightTy, leftTyped, rightTyped, found⟩ := typed
      simp only [Emittable, Bool.and_eq_true] at emittable
      cases wanted with
      | false =>
          simp only [Faithful, Bool.not_false, Bool.true_or, Bool.true_and] at unfaithful
          simp only [pushExpr, Bool.false_eq_true, if_false, bind_eq_ok] at pushed
          obtain ⟨ran, isRan, pushed⟩ := pushed
          cases faithfulLeft : context.Faithful left false with
          | false =>
              exact (fails_pushExpr sound counted reads leftTyped faithfulLeft isRan).extend
                (appends_pushExpr context right false pushed).extends_
          | true =>
              have first := delivers_pushExpr sound counted reads leftTyped faithfulLeft isRan
              exact (fails_pushExpr sound counted reads rightTyped
                (by simpa [faithfulLeft] using unfaithful) pushed).prepend first.arrives
                  first.appends.position (appends_pushExpr context right false pushed).extends_
      | true =>
          have leftTaken := leftTyped.takenFor sound counted emittable.1
          have rightTaken := rightTyped.takenFor sound counted emittable.2
          have leftResult := leftTyped.isResult sound counted
          have rightResult := rightTyped.isResult sound counted
          have values := BinOp.ne_void_of_resultType? leftResult.ne_unknown rightResult.ne_unknown
            found
          have rightAppends : (context.pushExpr right true).Appends :=
            appends_pushExpr context right true
          simp only [pushExpr, if_true] at pushed
          cases faithfulLeft : context.Faithful left true with
          | false =>
              have fails : ∀ {before done : CodeStream},
                  context.pushExpr left true before = .ok done → Fails read before done :=
                fun isPushed => fails_pushExpr sound counted reads leftTyped faithfulLeft isPushed
              split at pushed
              · exact fails_testValue
                  (fun branched => fails_branchOnComparison_left fails rightAppends branched)
                  (fun branched => appends_branchOnComparison
                    (appends_pushExpr context left true) rightAppends branched) pushed
              · exact fails_pushArithmetic_left fails rightAppends pushed
          | true =>
              have leftDelivers : ∀ {before done : CodeStream},
                  context.pushExpr left true before = .ok done →
                  Delivers read [context.deliveredKind left] before done := by
                intro before done isPushed
                rw [← delivered_of_ne_void values.1]
                exact delivers_pushExpr sound counted reads leftTyped faithfulLeft isPushed
              have misuses : MisusesOperand read (context.pushExpr right true)
                  (context.deliveredKind right) ¬context.Compares left right = true := by
                cases faithfulRight : context.Faithful right true with
                | false =>
                    exact .inl fun isPushed =>
                      fails_pushExpr sound counted reads rightTyped faithfulRight isPushed
                | true =>
                    refine .inr ⟨fun isPushed => ?_, ?_⟩
                    · rw [← delivered_of_ne_void values.2]
                      exact delivers_pushExpr sound counted reads rightTyped faithfulRight isPushed
                    · simpa [Faithful, faithfulLeft, faithfulRight] using unfaithful
              rw [compares_iff leftTyped rightTyped] at misuses
              cases isComparison : op.isComparison with
              | true =>
                  rw [isComparison, if_pos rfl] at pushed
                  exact fails_testValue
                    (fun branched => fails_branchOnComparison leftResult rightResult leftDelivers
                      misuses rightAppends found leftTaken rightTaken
                      (fun isReference missed => deliveredKind_of_isUnknown leftTyped sound counted
                        emittable.1 isReference missed) branched)
                    (fun branched => appends_branchOnComparison
                      (appends_pushExpr context left true) rightAppends branched) pushed
              | false =>
                  obtain ⟨first, second, rfl, rfl, isFirst, isSecond, -, rfl⟩ :=
                    operandType?_exprType leftResult.ne_unknown rightResult.ne_unknown isComparison
                      found leftTaken rightTaken
                  rw [isComparison, if_neg Bool.false_ne_true] at pushed
                  have misusesNumbers : MisusesOperand read (context.pushExpr right true)
                      (context.deliveredKind right)
                      ¬(context.deliveredKind left = .ofPrimitive first ∧
                        context.deliveredKind right = .ofPrimitive second) := by
                    rcases misuses with fails | ⟨delivers, misused⟩
                    · exact .inl fails
                    · exact .inr ⟨delivers, fun proper => misused ⟨nofun, proper⟩⟩
                  exact fails_pushArithmetic isFirst isSecond leftDelivers misusesNumbers
                    rightAppends pushed
  | .assign span target none value, wanted, ty, code, after, typed, unfaithful, pushed => by
      rw [HasType] at typed
      obtain ⟨id, valueTy, binds, valueTyped, converts, rfl⟩ := typed
      simp only [Faithful, binds.1, Option.any_some, boundType] at unfaithful
      have isValue := sound.isValue_local counted binds
      simp only [pushExpr, assign, assignSimple, binds.bindingOf, bind_eq_ok, Except.ok.injEq,
        exists_eq_left'] at pushed
      cases slotted : context.hasSlot id with
      | false =>
          simp only [slotted, Bool.false_eq_true, if_false] at unfaithful pushed
          exact fails_pushExpr sound counted reads valueTyped unfaithful pushed
      | true =>
          simp only [slotted, if_true] at unfaithful pushed
          obtain ⟨valued, isPushed, stored⟩ := bind_eq_ok.mp pushed
          have storing := (Appends.refl _).store stored
          have converting := ((Appends.refl valued).convertAssigned context.table
            (context.exprType value) (context.localAt id).type)
          cases faithful : context.Faithful value true with
          | false =>
              exact ((fails_pushExpr sound counted reads valueTyped faithful isPushed).extend
                converting.extends_).extend storing.extends_
          | true =>
              have delivers := delivers_pushExpr sound counted reads valueTyped faithful isPushed
              rw [if_pos rfl, delivered_of_converts isValue converts] at delivers
              cases isConverted : (context.exprType value).convertedKind (context.localAt id).type
                  (context.deliveredKind value) with
              | none =>
                  exact (fails_convertAssigned reads delivers.arrives delivers.appends.position
                    isConverted).extend storing.extends_
              | some kind =>
                  have converted := delivers.convertAssigned reads isConverted
                  refine fails_store converted.arrives converted.appends.position ?_ stored
                  intro same
                  simp only [faithful, Bool.and_true, Carries, isConverted, same,
                    decide_eq_false_iff_not] at unfaithful
                  exact unfaithful rfl
  | .assign span target (some op) value, wanted, ty, code, after, typed, unfaithful, pushed => by
      have emittable := emittable_of_pushExpr sound counted typed pushed
      rw [HasType] at typed
      obtain ⟨id, valueTy, binds, -, valueTyped, applies, rfl⟩ := typed
      simp only [Emittable] at emittable
      simp only [Faithful, Increments, binds.1, boundType, Bool.or_eq_false_iff] at unfaithful
      have isValue := sound.isValue_local counted binds
      have result := valueTyped.isResult sound counted
      simp only [pushExpr, assign, binds.bindingOf, bind_eq_ok, Except.ok.injEq,
        exists_eq_left'] at pushed
      split at pushed
      · next delta isIncrement =>
        split at isIncrement
        · next isInt =>
            simp [isInt, isIncrement] at unfaithful
        · cases isIncrement
      · have misuses : MisusesOperand read (context.pushExpr value true)
            (context.deliveredKind value) ¬context.deliveredKind value = .ofTy valueTy := by
          cases faithful : context.Faithful value true with
          | false =>
              exact .inl fun isPushed =>
                fails_pushExpr sound counted reads valueTyped faithful isPushed
          | true =>
              refine .inr ⟨fun isPushed => ?_, ?_⟩
              · rw [← delivered_of_ne_void (ne_void_of_compoundApplies
                  (Ty.IsResult.ne_unknown (.inr (.inr isValue))) result.ne_unknown applies)]
                exact delivers_pushExpr sound counted reads valueTyped faithful isPushed
              · simpa [faithful, Keeps, valueTyped.staticType] using unfaithful.2
        exact fails_assignOperated result isValue applies
          (valueTyped.takenFor sound counted emittable) misuses (appends_pushExpr context value true)
          pushed
  | .call span function args, wanted, ty, code, after, typed, unfaithful, pushed => by
      rw [HasType] at typed
      obtain ⟨info, found, pass, rfl⟩ := typed
      simp only [Faithful, found] at unfaithful
      have signatureSound := sound.table.functions _ (NameTable.mem_of_find? found)
      simp only [Signature.isSound, Bool.and_eq_true, List.all_eq_true] at signatureSound
      simp only [pushExpr, found, bind_eq_ok, pure_eq_ok] at pushed
      obtain ⟨arguments, arePushed, rfl⟩ := pushed
      rcases fails_or_delivers_pushArguments sound counted reads pass signatureSound.1
        (.refl read code) arePushed with fails | ⟨faithfulArgs, given, sameLength, passed, fits⟩
      · exact fails.extend (appends_callFunction context _ _ _ _).extends_
      · rw [List.append_nil] at passed
        refine fails_callFunction reads sound.table found sameLength passed ?_
        rintro ⟨rfl, drops⟩
        rw [(fits _).mpr rfl, faithfulArgs, drops] at unfaithful
        cases unfaithful
  | .methodCall span receiver method args, wanted, ty, code, after, typed, unfaithful, pushed => by
      have emittable := emittable_of_pushExpr sound counted typed pushed
      rw [HasType] at typed
      obtain ⟨receiverTy, found, receiverTyped, finds, pass, rfl⟩ := typed
      simp only [Emittable, Bool.and_eq_true, Bool.not_eq_true'] at emittable
      simp only [Faithful, receiverTyped.staticType, finds] at unfaithful
      have receiverResult := receiverTyped.isResult sound counted
      have foundSound := ClassTable.isSound_lookupMethod sound.table receiverResult finds
      have seenSound := foundSound.seen
      simp only [Signature.isSound, Bool.and_eq_true, List.all_eq_true] at seenSound
      have isFound := (receiverTyped.takenFor sound counted emittable.1.2).lookupMethod
        emittable.1.1 context.table method.node
      have isReference := ClassTable.isReference_of_lookupMethod finds
      have notVoid : receiverTy ≠ .void := by
        rintro rfl
        cases isReference
      simp only [pushExpr, isFound, finds, bind_eq_ok, pure_eq_ok] at pushed
      obtain ⟨object, isObject, arguments, arePushed, rfl⟩ := pushed
      have calling := (appends_callMethod context method.node found wanted arguments).extends_
      cases faithful : context.Faithful receiver true with
      | false =>
          exact ((fails_pushExpr sound counted reads receiverTyped faithful isObject).extend
            (appends_pushArguments context args _ arePushed).extends_).extend calling
      | true =>
          have onReceiver := delivers_pushExpr sound counted reads receiverTyped faithful isObject
          rw [if_pos rfl, delivered_of_ne_void notVoid] at onReceiver
          rcases fails_or_delivers_pushArguments sound counted reads pass seenSound.1
            onReceiver arePushed with fails | ⟨faithfulArgs, given, sameLength, passed, fits⟩
          · exact fails.extend calling
          · refine fails_callMethod reads sound.table receiverResult finds sameLength passed ?_
            rintro ⟨isReferenceKind, rfl, casts, drops⟩
            have keeps : context.Keeps receiver = true := by
              simp [Keeps, receiverTyped.staticType, isReferenceKind,
                ValueKind.ofTy_of_isReference isReference]
            have castsTo : (!found.isCast || found.declared.resultKind == .reference) = true := by
              cases isCast : found.isCast with
              | false => rfl
              | true => simp [casts isCast]
            rw [keeps, faithful, (fits _).mpr rfl, faithfulArgs, castsTo, drops] at unfaithful
            cases unfaithful

theorem fails_runExprs
    (sound : context.Sound strict)
    (counted : place.count ≤ context.scope.locals.size)
    (reads : read.Reads context.table) :
    ∀ {exprs : List Expr} {component : Ty} {code after : CodeStream},
      context.Fill strict place component exprs →
      context.AllFaithful exprs false = false →
      context.runExprs exprs code = .ok after →
      Fails read code after
  | [], component, code, after, fill, unfaithful, ran => by
      cases unfaithful
  | expr :: rest, component, code, after, fill, unfaithful, ran => by
      rw [Fill] at fill
      obtain ⟨⟨ty, typed, -⟩, restFill⟩ := fill
      simp only [AllFaithful] at unfaithful
      simp only [runExprs, bind_eq_ok] at ran
      obtain ⟨middle, first, remaining⟩ := ran
      have extends_ := (appends_runExprs context rest remaining).extends_
      cases faithful : context.Faithful expr false with
      | false =>
          exact (fails_pushExpr sound counted reads typed faithful first).extend extends_
      | true =>
          have delivers := delivers_pushExpr sound counted reads typed faithful first
          exact (fails_runExprs sound counted reads restFill (by simpa [faithful] using unfaithful)
            remaining).prepend delivers.arrives delivers.appends.position extends_

theorem fails_fillArray
    (sound : context.Sound strict)
    (counted : place.count ≤ context.scope.locals.size)
    (reads : read.Reads context.table) :
    ∀ {exprs : List Expr} {component : Ty} {index : Nat} {kinds : KindStack}
      {code middle after : CodeStream},
      context.Fill strict place component exprs →
      component.isValue strict = true →
      (exprs.all (fun expr => context.Carries expr component (.ofTy component)) &&
        context.AllFaithful exprs true) = false →
      Delivers read (.reference :: kinds) code middle →
      context.fillArray component exprs index middle = .ok after →
      Fails read code after
  | [], component, index, kinds, code, middle, after, fill, value, unfaithful, delivers, filled => by
      cases unfaithful
  | expr :: rest, component, index, kinds, code, middle, after, fill, value, unfaithful, delivers,
      filled => by
      rw [Fill] at fill
      obtain ⟨⟨ty, typed, converts⟩, restFill⟩ := fill
      simp only [AllFaithful, List.all_cons] at unfaithful
      simp only [fillArray, bind_eq_ok] at filled
      obtain ⟨pushed, isPushed, remaining⟩ := filled
      have copied : Delivers read (.reference :: .reference :: kinds) code (middle.emit .dup) :=
        delivers.emit rfl rfl rfl
      have indexed := copied.constant (Int32.ofNat index)
      have converting := (Appends.refl pushed).convertAssigned context.table
        (context.exprType expr) component
      have storing := (((Appends.refl _).emit (.arrayStore (.ofTy component))).trans
        (appends_fillArray context component rest (index + 1) remaining)).extends_
      cases faithful : context.Faithful expr true with
      | false =>
          exact ((fails_pushExpr sound counted reads typed faithful isPushed).extend
            (converting.extends_.trans storing)).prepend indexed.arrives indexed.appends.position
              (((appends_pushExpr context expr true isPushed).trans converting).extends_.trans
                storing)
      | true =>
          have valued := indexed.append
            (delivers_pushExpr sound counted reads typed faithful isPushed)
          rw [if_pos rfl, delivered_of_converts value converts] at valued
          cases isConverted : (context.exprType expr).convertedKind component
              (context.deliveredKind expr) with
          | none =>
              exact (fails_convertAssigned reads valued.arrives valued.appends.position
                isConverted).extend storing
          | some kind =>
              have converted := valued.convertAssigned reads isConverted
              by_cases same : kind = .ofTy component
              · subst same
                have carries : context.Carries expr component (.ofTy component) = true := by
                  simp [Carries, isConverted]
                have stores : (Instruction.arrayStore (.ofTy component)).effect read
                    (.ofTy component :: .int :: .reference :: .reference :: kinds) =
                      some (.reference :: kinds) := by
                  simp [Instruction.effect, popKinds, ArrayKind.valueKind_ofTy]
                exact fails_fillArray sound counted reads restFill value
                  (by simpa [carries, faithful] using unfaithful)
                  (converted.emit stores rfl rfl) remaining
              · refine (Fails.emit converted.arrives converted.appends.position fun below => ?_).extend
                  (appends_fillArray context component rest (index + 1) remaining).extends_
                simp [Instruction.effect, popKinds, ArrayKind.valueKind_ofTy, same]

theorem fails_or_delivers_pushArguments
    (sound : context.Sound strict)
    (counted : place.count ≤ context.scope.locals.size)
    (reads : read.Reads context.table) :
    ∀ {exprs : List Expr} {params : List Ty} {kinds : KindStack} {code middle after : CodeStream},
      context.Pass strict place params exprs →
      (∀ param ∈ params, param.isValue strict = true) →
      Delivers read kinds code middle →
      context.pushArguments exprs params middle = .ok after →
      Fails read code after ∨
        context.AllFaithful exprs true = true ∧
          ∃ given : List ValueKind, given.length = params.length ∧
            Delivers read (given.reverse ++ kinds) code after ∧
            ∀ named, context.Fits exprs params named = true ↔ given = named
  | [], params, kinds, code, middle, after, pass, values, delivers, pushed => by
      rw [Pass] at pass
      subst pass
      simp only [pushArguments, Except.ok.injEq] at pushed
      refine .inr ⟨by rw [AllFaithful], [], rfl, pushed ▸ delivers, fun named => ?_⟩
      cases named <;> simp [Fits]
  | expr :: rest, params, kinds, code, middle, after, pass, values, delivers, pushed => by
      rw [Pass] at pass
      obtain ⟨param, others, ty, rfl, typed, converts, restPass⟩ := pass
      simp only [pushArguments, bind_eq_ok] at pushed
      obtain ⟨first, isPushed, remaining⟩ := pushed
      have converting := (Appends.refl first).convertAssigned context.table
        (context.exprType expr) param
      have following := (appends_pushArguments context rest others remaining).extends_
      cases faithful : context.Faithful expr true with
      | false =>
          exact .inl (((fails_pushExpr sound counted reads typed faithful isPushed).extend
            (converting.extends_.trans following)).prepend delivers.arrives
              delivers.appends.position
                (((appends_pushExpr context expr true isPushed).trans converting).extends_.trans
                  following))
      | true =>
          have valued := delivers.append
            (delivers_pushExpr sound counted reads typed faithful isPushed)
          rw [if_pos rfl, delivered_of_converts (values param (by simp)) converts] at valued
          cases isConverted : (context.exprType expr).convertedKind param
              (context.deliveredKind expr) with
          | none =>
              exact .inl ((fails_convertAssigned reads valued.arrives valued.appends.position
                isConverted).extend following)
          | some kind =>
              rcases fails_or_delivers_pushArguments sound counted reads restPass
                (fun other member => values other (by simp [member]))
                (valued.convertAssigned reads isConverted) remaining with
                fails | ⟨allFaithful, given, sameLength, passed, fits⟩
              · exact .inl fails
              · refine .inr ⟨by simp [AllFaithful, faithful, allFaithful], kind :: given,
                  by simp [sameLength], by simpa using passed, fun named => ?_⟩
                cases named with
                | nil =>
                    simp [Fits]
                | cons wanted remainingKinds =>
                    simp [Fits, Carries, isConverted, fits]

end

end CodeContext

end LoopLowering
