import LoopLowering.Proofs.Execution.Operands
import LoopLowering.Proofs.Execution.Standing
import LoopLowering.Proofs.Machine.Ledgers

namespace LoopLowering

/-!
# Steps of the code of expressions

A step of code generation computes what a tree does if its code gets a machine to
where the tree gets, with what the code has pushed on top. The steps of operators,
assignments and calls do so if those of their operands do.
-/

namespace CodeContext

/-- A step of code generation gets a machine from where some locals are assigned to
where others are, to where a tree gets with what the code has pushed. -/
def Computes
    (context : CodeContext)
    (code : MethodCode)
    (outside : Outside)
    (place : Place)
    (kept : Nat → Option Word)
    (step : CodeStep)
    (before after : VarSet)
    (tree : TreeState → List Word → TreeState → Prop) :
    Prop :=
  ∀ {stream next : CodeStream} {stack : List Word} {state : TreeState} {machine : Machine},
    step stream = .ok next →
    context.Stands place before kept stack state machine →
    ∃ pushed final, tree state pushed final ∧
      code.Brings outside stream machine next
        (context.Stands place after kept (pushed ++ stack) final)

/-- What the tree of an expression of a type does, and what is left of its value. -/
def Yields
    (context : CodeContext)
    (outside : Outside)
    (expr : Expr)
    (ty : Ty)
    (wanted : Bool) :
    TreeState → List Word → TreeState → Prop :=
  fun state pushed final =>
    ∃ value, context.Evaluates outside state expr value final ∧ value.Leaves ty wanted pushed

variable
  {strict : Bool}
  {context : CodeContext}
  {code : MethodCode}
  {outside : Outside}
  {place : Place}
  {kept : Nat → Option Word}
  {set : VarSet}
  {stream next : CodeStream}
  {stack : List Word}
  {state : TreeState}
  {machine : Machine}

/-- An expression of which the value is not void pushes its value if that is wanted. -/
theorem Yields.ofWord
    {expr : Expr}
    {ty : Ty}
    {final : TreeState}
    {word : Word}
    (evaluates : context.Evaluates outside state expr (.word word) final)
    (notVoid : ty ≠ .void)
    (isKind : word.kind = .ofTy ty)
    (wanted : Bool) :
    context.Yields outside expr ty wanted state (if wanted then [word] else []) final :=
  ⟨.word word, evaluates, .ofWord notVoid isKind wanted⟩

/-- A computed value is wanted and used. -/
theorem Computes.exists_word
    {step : CodeStep}
    {later : VarSet}
    {expr : Expr}
    {ty : Ty}
    (computes : context.Computes code outside place kept step set later
      (context.Yields outside expr ty true))
    (notVoid : ty ≠ .void)
    (pushed : step stream = .ok next)
    (stands : context.Stands place set kept stack state machine) :
    ∃ word final, context.Evaluates outside state expr (.word word) final ∧
      word.kind = .ofTy ty ∧
      code.Brings outside stream machine next
        (context.Stands place later kept (word :: stack) final) := by
  obtain ⟨words, final, ⟨value, evaluates, leaves⟩, brings⟩ := computes pushed stands
  obtain ⟨word, rfl, rfl, isKind⟩ := leaves.exists_word notVoid
  exact ⟨word, final, evaluates, isKind, brings⟩

/-- A constant is pushed if it is wanted. -/
theorem computes_constant
    {expr : Expr}
    (ty : Ty)
    (instruction : Instruction)
    (word : Word)
    (evaluates : ∀ state, context.Evaluates outside state expr (.word word) state)
    (notVoid : ty ≠ .void)
    (isKind : word.kind = .ofTy ty)
    (noTarget : instruction.target? = none)
    (performed : ∀ machine, instruction.perform? outside machine = some (machine.push word))
    (wanted : Bool) :
    context.Computes code outside place kept
      (fun stream => .ok (if wanted then stream.emit instruction else stream)) set set
      (context.Yields outside expr ty wanted) := by
  intro stream next stack state machine pushed stands
  obtain rfl := Except.ok.inj pushed
  refine ⟨_, state, .ofWord (evaluates state) notVoid isKind wanted, ?_⟩
  cases wanted with
  | false =>
      exact .refl stands stream
  | true =>
      exact (MethodCode.Brings.refl stands stream).operate noTarget fun slots => performed _

/-- A local is read if its value is wanted. -/
theorem computes_name
    {span : Span}
    {ref : NameRef}
    {id : Nat}
    (binds : context.Binds place ref id)
    (isSource : (context.localAt id).isSynthetic = false)
    (notVoid : (context.localAt id).type ≠ .void)
    (member : set.contains id = true)
    (wanted : Bool) :
    context.Computes code outside place kept (context.pushExpr (.name span ref) wanted) set set
      (context.Yields outside (.name span ref) (context.localAt id).type wanted) := by
  intro stream next stack state machine pushed stands
  cases wanted with
  | false =>
      simp only [pushExpr, Bool.false_eq_true, if_false, Except.ok.injEq] at pushed
      subst pushed
      obtain ⟨value, isValue, isKind, -⟩ := stands.exists_value isSource binds.sees member
      exact ⟨[], state, ⟨value, .name binds.bound isValue, .unwanted notVoid isKind⟩,
        .refl stands stream⟩
  | true =>
      simp only [pushExpr, if_true, binds.bindingOf, bind_eq_ok, Except.ok.injEq,
        exists_eq_left'] at pushed
      obtain ⟨word, isValue, isKind, brings⟩ :=
        (MethodCode.Brings.refl stands stream).load pushed binds.sees member
      rw [valuesWith_source isSource] at isValue
      exact ⟨[word], state, ⟨.word word, .name binds.bound isValue, .wanted notVoid isKind⟩,
        brings⟩

section Comparisons

variable
  {op : BinOp}
  {left right : Expr}
  {leftTy rightTy ty : Ty}
  {pushLeft pushRight : CodeStep}
  {middle last : VarSet}

/-- Operands are evaluated from left to right. -/
theorem exists_operands
    (leftComputes : context.Computes code outside place kept pushLeft set middle
      (context.Yields outside left leftTy true))
    (rightComputes : context.Computes code outside place kept pushRight middle last
      (context.Yields outside right rightTy true))
    (leftValue : leftTy ≠ .void)
    (rightValue : rightTy ≠ .void)
    {pushed : CodeStream}
    (isPushed : pushLeft stream = .ok pushed)
    (isNext : pushRight pushed = .ok next)
    (stands : context.Stands place set kept stack state machine) :
    ∃ first second between final,
      context.Evaluates outside state left (.word first) between ∧
      context.Evaluates outside between right (.word second) final ∧
      first.kind = .ofTy leftTy ∧ second.kind = .ofTy rightTy ∧
      code.Brings outside stream machine next
        (context.Stands place last kept (second :: first :: stack) final) := by
  obtain ⟨first, between, leftEvaluates, leftKind, at_, standsThere, crosses⟩ :=
    leftComputes.exists_word leftValue isPushed stands
  obtain ⟨second, final, rightEvaluates, rightKind, brings⟩ :=
    rightComputes.exists_word rightValue isNext standsThere
  exact ⟨first, second, between, final, leftEvaluates, rightEvaluates, leftKind, rightKind,
    brings.ofCrosses crosses⟩

/-- A comparison that is branched on evaluates its operands and decides. -/
theorem decides_branchOnComparison
    (leftComputes : context.Computes code outside place kept pushLeft set middle
      (context.Yields outside left leftTy true))
    (rightComputes : context.Computes code outside place kept pushRight middle last
      (context.Yields outside right rightTy true))
    (isLeft : context.exprType left = leftTy)
    (isRight : context.exprType right = rightTy)
    (applies : op.AppliesToWords leftTy rightTy ty)
    {branchIf : Bool}
    {label : Label}
    (branched : context.branchOnComparison op left right pushLeft pushRight branchIf label stream =
      .ok next)
    (stands : context.Stands place set kept stack state machine) :
    ∃ first second between final truth,
      context.Evaluates outside state left first between ∧
      context.Evaluates outside between right second final ∧
      op.onValues? first second = some (.truth truth) ∧
      code.Decides outside stream machine next label (truth == branchIf)
        (context.Stands place last kept stack final) := by
  simp only [branchOnComparison, bind_eq_ok, isLeft, isRight] at branched
  obtain ⟨condition, isCondition, pushed, isPushed, branched⟩ := branched
  obtain ⟨own, isOwn, rfl⟩ := BinOp.branchCondition_eq_ok.mp isCondition
  have onInts : ∀ {both : CodeStream}, leftTy ≠ .void → rightTy ≠ .void →
      ValueKind.ofTy leftTy = .int → ValueKind.ofTy rightTy = .int →
      pushRight pushed = .ok both →
      both.emit (.branchIfInts (if branchIf then own else own.negate) label) = next →
      ∃ first second between final truth,
        context.Evaluates outside state left first between ∧
        context.Evaluates outside between right second final ∧
        op.onValues? first second = some (.truth truth) ∧
        code.Decides outside stream machine next label (truth == branchIf)
          (context.Stands place last kept stack final) := by
    rintro both leftValue rightValue leftInt rightInt isBoth rfl
    obtain ⟨first, second, between, final, leftEvaluates, rightEvaluates, leftKind, rightKind,
      brings⟩ := exists_operands leftComputes rightComputes leftValue rightValue isPushed isBoth
        stands
    obtain ⟨first, rfl⟩ := Word.exists_int (leftKind.trans leftInt)
    obtain ⟨second, rfl⟩ := Word.exists_int (rightKind.trans rightInt)
    refine ⟨_, _, between, final, own.holds first second, leftEvaluates, rightEvaluates,
      congrArg some (BinOp.onInts_of_condition isOwn first second),
      brings.branch rfl (fun _ => rfl) ?_⟩
    cases branchIf <;> simp [Instruction.jumps]
  cases applies with
  | ints isLeft isRight =>
      subst isLeft isRight
      simp only [show BinOp.operandType? .int .int = some .int from rfl, bind_eq_ok, pure_eq_ok]
        at branched
      obtain ⟨both, isBoth, isNext⟩ := branched
      exact onInts (by simp [Ty.int]) (by simp [Ty.int]) rfl rfl isBoth isNext
  | truthValues isLeft isRight isEquality =>
      subst isLeft isRight
      simp only [show BinOp.operandType? .boolean .boolean = none from rfl, bind_eq_ok, pure_eq_ok]
        at branched
      obtain ⟨both, isBoth, isNext⟩ := branched
      exact onInts (by simp [Ty.boolean]) (by simp [Ty.boolean]) rfl rfl isBoth isNext
  | references leftReference rightReference isEquality =>
      have noOperand : BinOp.operandType? leftTy rightTy = none := by
        cases leftTy <;> first | rfl | cases leftReference
      simp only [noOperand, leftReference, if_true, bind_eq_ok, pure_eq_ok] at branched
      obtain ⟨both, isBoth, rfl⟩ := branched
      obtain ⟨first, second, between, final, leftEvaluates, rightEvaluates, leftKind, rightKind,
        brings⟩ := exists_operands leftComputes rightComputes
          (by rintro rfl; cases leftReference) (by rintro rfl; cases rightReference) isPushed isBoth
          stands
      rw [ValueKind.ofTy_of_isReference leftReference] at leftKind
      rw [ValueKind.ofTy_of_isReference rightReference] at rightKind
      obtain ⟨first, rfl⟩ := Word.exists_reference leftKind
      obtain ⟨second, rfl⟩ := Word.exists_reference rightKind
      obtain ⟨ownEquality, result⟩ := BinOp.onReferences?_of_condition isEquality isOwn first second
      refine ⟨_, _, between, final, own.holdsOf first second, leftEvaluates, rightEvaluates,
        (op.onValues?_references first second).trans result, brings.branch rfl (fun slots => ?_) ?_⟩
      · have isTest : (if branchIf then own else own.negate).isEquality = true := by
          cases branchIf <;> cases own <;> first | rfl | cases ownEquality
        simp [Instruction.perform?, isTest, Machine.withStack]
      · cases branchIf <;> simp [Instruction.jumps, Condition.holdsOf_negate ownEquality]

/-- A test that becomes a value computes its truth. -/
theorem brings_testValue
    {branchUnless : Label → CodeStep}
    (complete : ∀ label, (branchUnless label).Appends)
    {tree : Bool → TreeState → Prop}
    {later : VarSet}
    (decides : ∀ {label : Label} {before tested : CodeStream},
      branchUnless label before = .ok tested →
      ∃ truth final, tree truth final ∧
        code.Decides outside before machine tested label (truth == false)
          (context.Stands place later kept stack final))
    (isTested : stream.testValue branchUnless = .ok next) :
    ∃ truth final, tree truth final ∧
      code.Brings outside stream machine next
        (context.Stands place later kept (.truth truth :: stack) final) := by
  obtain ⟨tested, isBranched, rfl⟩ := CodeStream.testValue_eq_ok.mp isTested
  have labeled := ((CodeStream.Appends.refl stream).addLabel).addLabel.trans (complete _ isBranched)
  have jumped := (labeled.emit (.intConst 1)).emit (.goto stream.addLabel.nextLabel)
  have remain : ∀ other : Nat, other ∈ ([stream.addLabel.nextLabel] : List Nat) ↔
      other ∈ ([stream.addLabel.nextLabel, stream.nextLabel] : List Nat) ∧
        other ≠ stream.nextLabel := by
    intro other
    simp only [List.mem_cons, List.not_mem_nil, or_false, CodeStream.nextLabel,
      CodeStream.addLabel, Array.size_push]
    omega
  have falseOpen := jumped.isOpen_label stream.nextLabel (by simp)
  have endOpen := ((jumped.place (by simp) remain).emit (.intConst 0)).isOpen_label
    stream.addLabel.nextLabel (by simp)
  obtain ⟨truth, final, isTree, at_, stands, tests⟩ := decides isBranched
  have labels : code.Crosses outside stream machine stream.addLabel.addLabel machine :=
    (MethodCode.Crosses.refl code outside stream machine).addLabel.addLabel
  obtain ⟨slots, rfl, holds⟩ := stands.exists_slots
  refine ⟨truth, final, isTree, ⟨slots, .truth truth :: stack, final.memory⟩, .ofSlots holds, ?_⟩
  cases truth with
  | true =>
      -- The code falls through the branch and jumps over the other constant.
      have passed := (labels.trans (tests.crosses rfl)).intConst 1
      exact (passed.goto stream.addLabel.nextLabel).arrives rfl
        ((CodeStream.extends_place falseOpen.2).trans (CodeStream.extends_emit _ _)) endOpen
  | false =>
      have failed := labels.trans (tests.arrives rfl
        ((CodeStream.extends_emit _ _).trans (CodeStream.extends_emit _ _)) falseOpen)
      exact (failed.intConst 0).place endOpen

/-- Operands that are combined are evaluated from left to right. -/
theorem computes_pushArithmetic
    {span : Span}
    (leftComputes : context.Computes code outside place kept pushLeft set middle
      (context.Yields outside left leftTy true))
    (rightComputes : context.Computes code outside place kept pushRight middle last
      (context.Yields outside right rightTy true))
    (isLeft : context.exprType left = leftTy)
    (isRight : context.exprType right = rightTy)
    (applies : op.AppliesToWords leftTy rightTy ty)
    (arithmetic : op.isComparison = false) :
    context.Computes code outside place kept
      (context.pushArithmetic op left right pushLeft pushRight) set last
      (context.Yields outside (.binary span op left right) ty true) := by
  intro stream next stack state machine combined stands
  cases applies with
  | ints leftInt rightInt =>
      subst leftInt rightInt
      simp only [pushArithmetic, isLeft, isRight, show BinOp.operandType? .int .int = some .int
        from rfl, bind_eq_ok, pure_eq_ok] at combined
      obtain ⟨pushed, isPushed, both, isBoth, arith, isArith, rfl⟩ := combined
      obtain ⟨first, second, between, final, leftEvaluates, rightEvaluates, leftKind, rightKind,
        brings⟩ := exists_operands leftComputes rightComputes (by simp [Ty.int])
          (by simp [Ty.int]) isPushed isBoth stands
      obtain ⟨first, rfl⟩ := Word.exists_int leftKind
      obtain ⟨second, rfl⟩ := Word.exists_int rightKind
      have isResult := BinOp.onInts_of_arithOp isArith first second
      refine ⟨[op.onInts first second], final, ⟨_, .binary leftEvaluates rightEvaluates rfl, ?_⟩,
        brings.operate rfl (fun slots => ?_)⟩
      · rw [arithmetic]
        exact .wanted (by simp [Ty.int]) (op.kind_onInts first second)
      · rw [isResult]
        rfl
  | truthValues _ _ isEquality | references _ _ isEquality =>
      rw [BinOp.isComparison_of_isEquality isEquality] at arithmetic
      cases arithmetic

/-- An operator computes its result if its operands compute theirs. -/
theorem computes_binary
    {span : Span}
    (leftComputes : ∀ wanted, context.Computes code outside place kept
      (context.pushExpr left wanted) set middle (context.Yields outside left leftTy wanted))
    (rightComputes : ∀ wanted, context.Computes code outside place kept
      (context.pushExpr right wanted) middle last (context.Yields outside right rightTy wanted))
    (isLeft : context.exprType left = leftTy)
    (isRight : context.exprType right = rightTy)
    (applies : op.AppliesToWords leftTy rightTy ty)
    (isTruth : op.isComparison = true → ty = .boolean)
    (notVoid : ty ≠ .void)
    (wanted : Bool) :
    context.Computes code outside place kept (context.pushExpr (.binary span op left right) wanted)
      set last (context.Yields outside (.binary span op left right) ty wanted) := by
  intro stream next stack state machine pushed stands
  cases wanted with
  | false =>
      simp only [pushExpr, Bool.false_eq_true, if_false, bind_eq_ok] at pushed
      obtain ⟨ran, isRan, pushed⟩ := pushed
      obtain ⟨firstPushed, between, ⟨first, leftEvaluates, leftLeaves⟩, at_, isThere, crosses⟩ :=
        leftComputes false isRan stands
      obtain rfl := leftLeaves.eq_nil
      obtain ⟨secondPushed, final, ⟨second, rightEvaluates, rightLeaves⟩, brings⟩ :=
        rightComputes false pushed isThere
      obtain rfl := rightLeaves.eq_nil
      obtain ⟨result, isResult, isKind⟩ := applies.exists_result
        (leftLeaves.kind_eq applies.ne_void.1) (rightLeaves.kind_eq applies.ne_void.2)
      exact ⟨[], final, ⟨.word result, .binary leftEvaluates rightEvaluates isResult,
        .unwanted notVoid isKind⟩, brings.ofCrosses crosses⟩
  | true =>
      simp only [pushExpr, if_true] at pushed
      cases isComparison : op.isComparison with
      | true =>
          simp only [isComparison, if_true] at pushed
          obtain rfl := isTruth isComparison
          have complete : ∀ label, CodeStep.Appends (context.branchOnComparison op left right
              (context.pushExpr left true) (context.pushExpr right true) false label) :=
            fun label _ _ branched => appends_branchOnComparison
              (appends_pushExpr context left true) (appends_pushExpr context right true) branched
          have decides : ∀ {label : Label} {before tested : CodeStream},
              context.branchOnComparison op left right (context.pushExpr left true)
                (context.pushExpr right true) false label before = .ok tested →
              ∃ truth final,
                context.Evaluates outside state (.binary span op left right)
                  (.word (.truth truth)) final ∧
                code.Decides outside before machine tested label (truth == false)
                  (context.Stands place last kept stack final) := by
            intro label before tested branched
            obtain ⟨first, second, between, final, truth, leftEvaluates, rightEvaluates, isResult,
              decides⟩ := decides_branchOnComparison (leftComputes true) (rightComputes true) isLeft
                isRight applies branched stands
            exact ⟨truth, final, .binary leftEvaluates rightEvaluates isResult, decides⟩
          obtain ⟨truth, final, evaluates, brings⟩ := brings_testValue complete decides pushed
          exact ⟨[.truth truth], final, ⟨_, evaluates, .wanted notVoid rfl⟩, brings⟩
      | false =>
          simp only [isComparison, Bool.false_eq_true, if_false] at pushed
          exact computes_pushArithmetic (leftComputes true) (rightComputes true) isLeft isRight
            applies isComparison pushed stands

end Comparisons

section Assignments

variable
  {id : LocalId}
  {value : Expr}
  {valueTy : Ty}
  {later : VarSet}

/-- What an assignment of a value does: the local has the value afterwards. -/
def Assigns
    (context : CodeContext)
    (outside : Outside)
    (id : LocalId)
    (value : Expr)
    (wanted : Bool) :
    TreeState → List Word → TreeState → Prop :=
  fun state pushed final =>
    ∃ assigned between, context.Evaluates outside state value assigned between ∧
      assigned.Leaves (context.localAt id).type wanted pushed ∧ final = between.put id assigned

/-- An assignment of a value gives it to the local, whether the local exists in the
code or not. -/
theorem computes_assignSimple
    (executable : context.Executable strict)
    (isSource : (context.localAt id).isSynthetic = false)
    (sees : context.scope.Sees place.block place.count id)
    (isValue : (context.localAt id).type.isValue strict = true)
    (localWord : (context.localAt id).type.isWord = true)
    (isValueType : context.exprType value = valueTy)
    (valueWord : valueTy.isWord = true)
    (becomes : valueTy.becomes (context.localAt id).type = true)
    (notVoid : valueTy ≠ .void)
    {push : (wanted : Bool) → CodeStep}
    (computes : ∀ wanted, context.Computes code outside place kept (push wanted) set later
      (context.Yields outside value valueTy wanted))
    (wanted : Bool) :
    context.Computes code outside place kept (context.assignSimple id value push wanted) set
      (later.insert id) (context.Assigns outside id value wanted) := by
  intro stream next stack state machine assigned stands
  have localValue := Ty.ne_void_of_isValue isValue
  have sameKind := Ty.ofTy_of_becomes valueWord localWord becomes
  simp only [assignSimple] at assigned
  split at assigned
  · simp only [bind_eq_ok, isValueType,
      Ty.convertAssigned_of_becomes valueWord localWord becomes] at assigned
    obtain ⟨pushed, isPushed, stored⟩ := assigned
    obtain ⟨word, between, evaluates, isKind, brings⟩ :=
      Computes.exists_word (computes true) notVoid isPushed stands
    have isLocalKind : word.kind = CodeStream.kindOf context.scope id := isKind.trans sameKind
    refine ⟨if wanted then [word] else [], between.put id (.word word),
      ⟨.word word, between, evaluates, .ofWord localValue (isKind.trans sameKind) wanted, rfl⟩, ?_⟩
    have stores := brings.storeSource executable.apart isSource stored sees isLocalKind
    cases wanted <;> exact stores
  · next slotless =>
      obtain ⟨pushed, between, ⟨assigned, evaluates, leaves⟩, brings⟩ := computes wanted assigned stands
      have isKind := (leaves.kind_eq notVoid).trans sameKind
      refine ⟨pushed, between.put id assigned, ⟨assigned, between, evaluates, ?_, rfl⟩,
        brings.imp fun at_ isThere => isThere.putAbsent isSource sees (by simpa using slotless) isKind⟩
      cases leaves with
      | wanted _ wordKind =>
          exact .wanted localValue isKind
      | unwanted =>
          exact .unwanted localValue isKind
      | void isVoid =>
          exact absurd isVoid notVoid

/-- An operator that changes a local works on integers. -/
theorem ints_of_compoundApplies
    {op : BinOp}
    {target given : Ty}
    (targetKnown : target.isUnknown = false)
    (valueKnown : given.isUnknown = false)
    (targetWord : target.isWord = true)
    (valueWord : given.isWord = true)
    (applies : compoundApplies op target given = true) :
    target = .int ∧ given = .int := by
  simp only [compoundApplies, Bool.and_eq_true, Bool.not_eq_true'] at applies
  obtain ⟨arithmetic, applies⟩ := applies
  cases found : op.resultType? target given with
  | none =>
      simp [found] at applies
  | some ty =>
      cases BinOp.appliesToWords_of_resultType? targetKnown valueKnown targetWord valueWord found with
      | ints isTarget isValue =>
          exact ⟨isTarget, isValue⟩
      | truthValues _ _ isEquality | references _ _ isEquality =>
          rw [BinOp.isComparison_of_isEquality isEquality] at arithmetic
          cases arithmetic

/-- An assignment of the result of an operator reads its target first. -/
theorem computes_assignOperated
    (executable : context.Executable strict)
    {span : Span}
    {target : Spanned NameRef}
    {op : BinOp}
    (binds : context.Binds place target.node id)
    (isSource : (context.localAt id).isSynthetic = false)
    (member : set.contains id = true)
    (isInt : (context.localAt id).type = .int)
    (isValueInt : context.exprType value = .int)
    {pushValue : CodeStep}
    (computes : context.Computes code outside place kept pushValue set later
      (context.Yields outside value .int true))
    (wanted : Bool) :
    context.Computes code outside place kept
      (context.assignOperated id op value pushValue wanted) set (later.insert id)
      (context.Yields outside (.assign span target (some op) value) .int wanted) := by
  intro stream next stack state machine assigned stands
  have localKind : CodeStream.kindOf context.scope id = .int := congrArg ValueKind.ofTy isInt
  simp only [assignOperated, isInt, isValueInt, show BinOp.operandType? .int .int = some .int from rfl,
    show Ty.int.primitive? = some .int from rfl, bind_eq_ok] at assigned
  obtain ⟨loaded, isLoaded, both, isBoth, arith, isArith, stored⟩ := assigned
  obtain ⟨before, isBefore, beforeKind, at_, standsThere, crosses⟩ :=
    (MethodCode.Brings.refl stands stream).load isLoaded binds.sees member
  rw [valuesWith_source isSource] at isBefore
  obtain ⟨given, between, evaluates, givenKind, brings⟩ :=
    computes.exists_word (by simp [Ty.int]) isBoth standsThere
  obtain ⟨first, rfl⟩ := Word.exists_int (beforeKind.trans localKind)
  obtain ⟨second, rfl⟩ := Word.exists_int givenKind
  have isResult := BinOp.onInts_of_arithOp isArith first second
  have computed : code.Brings outside stream machine (both.emit (.arith arith .int))
      (context.Stands place later kept (op.onInts first second :: stack) between) :=
    (brings.ofCrosses crosses).operate rfl fun slots => by
      rw [isResult]
      rfl
  have stores := computed.storeSource executable.apart isSource stored binds.sees
    ((op.kind_onInts first second).trans localKind.symm)
  refine ⟨if wanted then [op.onInts first second] else [], _, Yields.ofWord
    (.assignOperated binds.bound isBefore evaluates rfl) (by simp [Ty.int])
      (op.kind_onInts first second) wanted, ?_⟩
  cases wanted <;> exact stores

/-- A constant is added to an integer in place. -/
theorem computes_increment
    (executable : context.Executable strict)
    {span : Span}
    {target : Spanned NameRef}
    {op : BinOp}
    (binds : context.Binds place target.node id)
    (isSource : (context.localAt id).isSynthetic = false)
    (member : set.contains id = true)
    (isInt : (context.localAt id).type = .int)
    {delta : Int16}
    (small : increment? op value = some delta)
    (wanted : Bool) :
    context.Computes code outside place kept
      (fun stream => do
        let added ← stream.increment context.scope id delta
        if wanted then added.load context.scope id else return added)
      set ((value.definite set).insert id)
      (context.Yields outside (.assign span target (some op) value) .int wanted) := by
  intro stream next stack state machine assigned stands
  simp only [bind_eq_ok] at assigned
  obtain ⟨added, isAdded, assigned⟩ := assigned
  obtain ⟨literalSpan, literal, rfl, isSum⟩ := onInts_of_increment? small
  obtain ⟨before, isBefore, beforeKind, inSlot⟩ := stands.exists_value isSource binds.sees member
  obtain ⟨slot, isSlot, -⟩ := CodeStream.increment_eq_ok.mp isAdded
  obtain ⟨word, rfl, -⟩ := inSlot slot isSlot
  obtain ⟨first, rfl⟩ := Word.exists_int (beforeKind.trans (congrArg ValueKind.ofTy isInt))
  have isPut := valuesWith_put isSource kept state (.word (.int (first + Int32.ofInt delta.toInt)))
  have begins : code.Brings outside stream machine stream
      (context.Stands place set kept stack state) := .refl stands stream
  have brings := begins.increment executable.apart isAdded binds.sees member
    ((valuesWith_source isSource kept state).trans isBefore)
    (show (state.put id (.word (.int (first + Int32.ofInt delta.toInt)))).memory = state.memory
      from rfl) isPut
  have evaluates : context.Evaluates outside state (.assign span target (some op)
      (.intLit literalSpan literal)) (.word (.int (first + Int32.ofInt delta.toInt)))
      (state.put id (.word (.int (first + Int32.ofInt delta.toInt)))) :=
    .assignOperated binds.bound isBefore .intLit (congrArg some (isSum first))
  refine ⟨if wanted then [.int (first + Int32.ofInt delta.toInt)] else [], _,
    Yields.ofWord evaluates (by simp [Ty.int]) rfl wanted, ?_⟩
  cases wanted with
  | false =>
      simp only [Bool.false_eq_true, if_false, pure_eq_ok] at assigned
      subst assigned
      exact brings
  | true =>
      obtain ⟨word, isWord, -, loads⟩ := brings.load assigned binds.sees (by simp)
      rw [isPut, Function.update_self, Option.some.injEq, Value.word.injEq] at isWord
      subst isWord
      exact loads

end Assignments

end CodeContext

end LoopLowering
