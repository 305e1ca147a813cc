import LoopLowering.Code.Expressions
import LoopLowering.Proofs.Code.Conversions
import LoopLowering.Proofs.Execution.Trees
import LoopLowering.Proofs.Machine.ExpressionKinds
import LoopLowering.Proofs.Resolution.ResolvedStatements

namespace LoopLowering

/-!
# Trees without boxing

A tree of which every value is an integer, a truth value or a reference, and of
which no value is boxed or unboxed, needs no conversions: what code generation
takes a value for, the value is already.
-/

namespace Ty

/-- Whether the values of a type are integers, truth values or references. -/
def isWord
    (ty : Ty) :
    Bool :=
  match ty.primitive? with
  | none | some .int | some .boolean => true
  | some _ => false

/-- Whether a value of one type becomes one of another without being boxed or
unboxed. -/
def becomes
    (source target : Ty) :
    Bool :=
  source.isPrimitive == target.isPrimitive

/-- What is an integer or a truth value is of the kind of integers. -/
theorem ofTy_of_isWord
    {ty : Ty}
    (isWord : ty.isWord = true) :
    ValueKind.ofTy ty = if ty.isPrimitive then .int else .reference := by
  cases ty with
  | primitive kind =>
      cases kind <;> first | rfl | cases isWord
  | _ =>
      rfl

/-- A value that is no scalar of another type is an integer or a reference. -/
theorem ofTy_eq_or_of_isWord
    {ty : Ty}
    (isWord : ty.isWord = true) :
    ValueKind.ofTy ty = .int ∨ ValueKind.ofTy ty = .reference := by
  rw [ofTy_of_isWord isWord]
  split
  · exact .inl rfl
  · exact .inr rfl

/-- What becomes a value of another type keeps its kind. -/
theorem ofTy_of_becomes
    {source target : Ty}
    (sourceWord : source.isWord = true)
    (targetWord : target.isWord = true)
    (becomes : source.becomes target = true) :
    ValueKind.ofTy source = .ofTy target := by
  simp only [Ty.becomes, beq_iff_eq] at becomes
  rw [ofTy_of_isWord sourceWord, ofTy_of_isWord targetWord, becomes]

/-- The only number is an integer. -/
theorem eq_int_of_isWord
    {kind : Primitive}
    (isWord : (Ty.primitive kind).isWord = true)
    (numeric : kind.isNumeric = true) :
    kind = .int := by
  cases kind <;> simp_all [Ty.isWord, primitive?, Primitive.isNumeric]

/-- Words are converted neither when they are assigned nor when they are elements of
a loop. -/
theorem convert_of_isWord
    {source target : Primitive}
    (sourceWord : (Ty.primitive source).isWord = true)
    (targetWord : (Ty.primitive target).isWord = true)
    (code : CodeStream) :
    code.convert source target = code := by
  have sourceKind := ofTy_of_isWord sourceWord
  have targetKind := ofTy_of_isWord targetWord
  simp only [ValueKind.ofTy, isPrimitive, if_true] at sourceKind targetKind
  simp [CodeStream.convert, sourceKind, targetKind]

/-- An assigned value is not converted. -/
theorem convertAssigned_of_becomes
    {source target : Ty}
    (sourceWord : source.isWord = true)
    (targetWord : target.isWord = true)
    (becomes : source.becomes target = true)
    (table : ClassTable)
    (code : CodeStream) :
    code.convertAssigned table source target = code := by
  simp only [Ty.becomes, beq_iff_eq, isPrimitive_eq_isSome] at becomes
  cases isSource : source.primitive? with
  | none =>
      cases isTarget : target.primitive? with
      | none =>
          simp [CodeStream.convertAssigned, isSource, isTarget]
      | some wanted =>
          simp [isSource, isTarget] at becomes
  | some given =>
      cases isTarget : target.primitive? with
      | none =>
          simp [isSource, isTarget] at becomes
      | some wanted =>
          rw [eq_of_primitive? isSource] at sourceWord ⊢
          rw [eq_of_primitive? isTarget] at targetWord ⊢
          exact convert_of_isWord sourceWord targetWord code

/-- An element of a loop is not converted. -/
theorem convertElement_of_becomes
    {element declared : Ty}
    (elementWord : element.isWord = true)
    (declaredWord : declared.isWord = true)
    (becomes : element.becomes declared = true)
    (table : ClassTable)
    (code : CodeStream) :
    code.convertElement table (.between element declared) = code := by
  have holdsValues : element.isPrimitive = true →
      declared.isPrimitive = true ∨ declared.isReference = true := by
    intro isPrimitive
    exact .inl ((beq_iff_eq.mp becomes).symm.trans isPrimitive)
  rw [CodeStream.convertElement_between table holdsValues]
  exact convertAssigned_of_becomes elementWord declaredWord becomes table code

end Ty

/-- How an operator applies to words. -/
inductive BinOp.AppliesToWords
    (op : BinOp)
    (left right : Ty) :
    Ty → Prop where
  | ints (isLeft : left = .int) (isRight : right = .int) :
      AppliesToWords op left right (if op.isComparison then .boolean else .int)
  | truthValues (isLeft : left = .boolean) (isRight : right = .boolean)
      (isEquality : op.isEquality = true) :
      AppliesToWords op left right .boolean
  | references (isLeft : left.isReference = true) (isRight : right.isReference = true)
      (isEquality : op.isEquality = true) :
      AppliesToWords op left right .boolean

/-- An operator that has a result on words applies in one of the three ways. -/
theorem BinOp.appliesToWords_of_resultType?
    {op : BinOp}
    {left right ty : Ty}
    (leftKnown : left.isUnknown = false)
    (rightKnown : right.isUnknown = false)
    (leftWord : left.isWord = true)
    (rightWord : right.isWord = true)
    (found : op.resultType? left right = some ty) :
    op.AppliesToWords left right ty := by
  cases applies_of_resultType? leftKnown rightKnown found with
  | @numeric first second isLeft isRight operand =>
      subst isLeft isRight
      have numeric := isNumeric_of_operandType? operand
      obtain rfl := Ty.eq_int_of_isWord leftWord numeric.1
      obtain rfl := Ty.eq_int_of_isWord rightWord numeric.2
      exact .ints rfl rfl
  | truthValues isLeft isRight isEquality =>
      exact .truthValues isLeft isRight isEquality
  | references isLeft isRight isEquality =>
      exact .references isLeft isRight isEquality

/-- Operands are not void. -/
theorem BinOp.AppliesToWords.ne_void
    {op : BinOp}
    {left right ty : Ty}
    (applies : op.AppliesToWords left right ty) :
    left ≠ .void ∧ right ≠ .void := by
  cases applies with
  | ints isLeft isRight | truthValues isLeft isRight =>
      subst isLeft isRight
      exact ⟨nofun, nofun⟩
  | references isLeft isRight =>
      constructor
      · rintro rfl
        cases isLeft
      · rintro rfl
        cases isRight

namespace Signature

/-- The kinds of the values that a call passes and leaves, as its caller sees
them. -/
def kinds
    (signature : Signature) :
    MethodShape where
  params := signature.params.map .ofTy
  result :=
    if signature.returnType = .void then none else some (.ofTy signature.returnType)

/-- Whether a call passes and leaves words, and those that its descriptor says. -/
def isUnboxed
    (declared seen : Signature) :
    Bool :=
  seen.params.all Ty.isWord && seen.returnType.isWord && decide (declared.shape = seen.kinds)

end Signature

namespace CodeContext

/-- Whether no argument is boxed or unboxed for its parameter. -/
def PassesUnboxed
    (context : CodeContext) :
    List Expr → List Ty → Bool
  | expr :: rest, param :: params =>
      (context.exprType expr).becomes param && context.PassesUnboxed rest params
  | _, _ => true

mutual

/-- Whether an expression of which the locals are words only computes words and
boxes and unboxes none. -/
def Unboxed
    (context : CodeContext) :
    Expr → Bool
  | .intLit .. | .boolLit .. | .stringLit .. | .null _ | .name .. => true
  | .newArray _ component elements =>
      let type := context.createdComponent component
      type.isWord && elements.all (fun part => (context.exprType part).becomes type) &&
        context.AllUnboxed elements
  | .binary _ _ left right => context.Unboxed left && context.Unboxed right
  | .assign _ target _ value =>
      (context.exprType value).becomes (context.boundType target.node.binding) &&
        context.Unboxed value
  | .call _ function args =>
      match context.table.function? function.node with
      | some info =>
          info.signature.isUnboxed info.signature &&
            context.PassesUnboxed args info.signature.params && context.AllUnboxed args
      | none => false
  | .methodCall _ receiver method args =>
      match context.table.lookupMethod (context.exprType receiver) method.node with
      | some found =>
          found.declared.isUnboxed found.seen && context.Unboxed receiver &&
            context.PassesUnboxed args found.seen.params && context.AllUnboxed args
      | none => false

/-- Whether expressions only compute words and box and unbox none. -/
def AllUnboxed
    (context : CodeContext) :
    List Expr → Bool
  | [] => true
  | expr :: rest => context.Unboxed expr && context.AllUnboxed rest

end

/-- Whether the initial value of a local is not boxed or unboxed. -/
def UnboxedDecl
    (context : CodeContext)
    (decl : LocalDecl) :
    Bool :=
  match decl.initial with
  | some value =>
      (context.exprType value).becomes (context.boundType decl.binding) && context.Unboxed value
  | none => true

/-- Whether the elements of a loop are words that are not boxed or unboxed, and
references if they come from an iterator. -/
def UnboxedElements
    (context : CodeContext)
    (element : LocalDecl)
    (facts : LoopFacts) :
    Bool :=
  match facts.classification with
  | .resolved resolution =>
      resolution.elementType.isWord &&
        resolution.elementType.becomes (context.boundType element.binding) &&
        (resolution.strategy.isArray || !resolution.elementType.isPrimitive)
  | _ => true

mutual

/-- Whether a statement of which the locals are words only computes words and boxes
and unboxes none. -/
def UnboxedStmt
    (context : CodeContext) :
    Stmt → Bool
  | .localVar _ decl => context.UnboxedDecl decl
  | .expr _ value => context.Unboxed value
  | .block _ stmts _ => context.AllUnboxedStmts stmts
  | .branch _ condition thenBranch none =>
      (context.exprType condition).isPrimitive && context.Unboxed condition &&
        context.UnboxedStmt thenBranch
  | .branch _ condition thenBranch (some elseBranch) =>
      (context.exprType condition).isPrimitive && context.Unboxed condition &&
        context.UnboxedStmt thenBranch && context.UnboxedStmt elseBranch
  | .forEach _ element collection none facts =>
      context.UnboxedElements element facts && context.Unboxed collection
  | .forEach _ element collection (some action) facts =>
      context.UnboxedElements element facts && context.Unboxed collection &&
        context.UnboxedStmt action
  | .labeled _ _ body => context.UnboxedStmt body
  | .returnWith _ (some value) =>
      (context.exprType value).becomes context.state.returnType && context.Unboxed value
  | .breakTo .. | .continueTo .. | .returnWith _ none | .empty _ => true

/-- Whether statements only compute words and box and unbox none. -/
def AllUnboxedStmts
    (context : CodeContext) :
    List Stmt → Bool
  | [] => true
  | stmt :: rest => context.UnboxedStmt stmt && context.AllUnboxedStmts rest

end

/-- Every local of a method holds words, its result is one, and it has no type
variables. -/
structure HoldsWords
    (context : CodeContext) :
    Prop where
  noVars : context.state.typeVars = []
  locals : ∀ id < context.scope.locals.size, (context.localAt id).type.isWord = true
  result : context.state.returnType.isWord = true

variable
  {strict : Bool}
  {context : CodeContext}
  {place : Place}

/-- Without type variables, code generation works out the types that resolution has
found. -/
theorem HoldsWords.exprType_eq
    (words : context.HoldsWords) :
    ∀ expr : Expr,
      context.exprType expr = context.staticType expr
  | .intLit .. | .boolLit .. | .stringLit .. | .null _ | .name .. | .assign .. | .call .. => rfl
  | .newArray .. => by
      rw [staticType, words.noVars]
      rfl
  | .binary _ _ left right => by
      simp only [exprType, staticType, words.exprType_eq left, words.exprType_eq right]
  | .methodCall _ receiver _ _ => by
      rw [exprType, words.exprType_eq receiver]
      rfl

/-- Code generation takes a resolved expression for what it is. -/
theorem HasType.exprType
    {expr : Expr}
    {ty : Ty}
    (typed : context.HasType strict place expr ty)
    (words : context.HoldsWords) :
    context.exprType expr = ty := by
  rw [words.exprType_eq expr, typed.staticType]

/-- A local that is seen holds a word. -/
theorem HoldsWords.isWord_local
    (words : context.HoldsWords)
    (counted : place.count ≤ context.scope.locals.size)
    {ref : NameRef}
    {id : Nat}
    (binds : context.Binds place ref id) :
    (context.localAt id).type.isWord = true :=
  words.locals id (Nat.lt_of_lt_of_le binds.sees.1 counted)

/-- The value of an expression without boxing is a word. -/
theorem HasType.isWord
    (sound : context.Sound strict)
    (counted : place.count ≤ context.scope.locals.size)
    (words : context.HoldsWords) :
    ∀ {expr : Expr} {ty : Ty},
      context.HasType strict place expr ty →
      context.Unboxed expr = true →
      ty.isWord = true
  | .intLit .., ty, typed, _ | .boolLit .., ty, typed, _ | .stringLit .., ty, typed, _
  | .null _, ty, typed, _ => by
      rw [HasType] at typed
      subst typed
      rfl
  | .name _ ref, ty, typed, _ => by
      rw [HasType] at typed
      obtain ⟨id, binds, -, rfl⟩ := typed
      exact words.isWord_local counted binds
  | .newArray _ component elements, ty, typed, _ => by
      rw [HasType] at typed
      obtain ⟨componentTy, -, -, -, rfl⟩ := typed
      rfl
  | .binary _ op left right, ty, typed, unboxed => by
      rw [HasType] at typed
      obtain ⟨leftTy, rightTy, leftTyped, rightTyped, found⟩ := typed
      simp only [Unboxed, Bool.and_eq_true] at unboxed
      cases BinOp.appliesToWords_of_resultType? (leftTyped.isResult sound counted).ne_unknown
        (rightTyped.isResult sound counted).ne_unknown
        (leftTyped.isWord sound counted words unboxed.1)
        (rightTyped.isWord sound counted words unboxed.2) found with
      | ints =>
          split <;> rfl
      | truthValues | references =>
          rfl
  | .assign _ target none value, ty, typed, _ => by
      rw [HasType] at typed
      obtain ⟨id, valueTy, binds, -, -, rfl⟩ := typed
      exact words.isWord_local counted binds
  | .assign _ target (some op) value, ty, typed, _ => by
      rw [HasType] at typed
      obtain ⟨id, valueTy, binds, -, -, -, rfl⟩ := typed
      exact words.isWord_local counted binds
  | .call _ function args, ty, typed, unboxed => by
      rw [HasType] at typed
      obtain ⟨info, found, -, rfl⟩ := typed
      simp only [Unboxed, found, Signature.isUnboxed, Bool.and_eq_true] at unboxed
      exact unboxed.1.1.1.2
  | .methodCall _ receiver method args, ty, typed, unboxed => by
      rw [HasType] at typed
      obtain ⟨receiverTy, found, receiverTyped, finds, -, rfl⟩ := typed
      simp only [Unboxed, receiverTyped.exprType words, finds, Signature.isUnboxed,
        Bool.and_eq_true] at unboxed
      exact unboxed.1.1.1.1.2

end CodeContext

/-!
## Operators on values

An operator that applies by its types has a result on values of these types, and
the instruction or the condition that code generation chooses for it computes the
same.
-/

namespace Value

/-- A value of the kind of integers is one. -/
theorem exists_int
    {value : Value}
    (isInt : value.kind = .int) :
    ∃ number, value = .word (.int number) := by
  cases value with
  | word word =>
      obtain ⟨number, rfl⟩ := Word.exists_int isInt
      exact ⟨number, rfl⟩
  | unseen number =>
      cases isInt

/-- What the code of an expression of a type leaves of its value: the value if it is
wanted, and nothing if there is none. -/
inductive Leaves
    (ty : Ty) :
    (wanted : Bool) → Value → List Word → Prop where
  | wanted {word : Word} :
      ty ≠ .void → word.kind = .ofTy ty → Leaves ty true (.word word) [word]
  | unwanted {value : Value} :
      ty ≠ .void → value.kind = .ofTy ty → Leaves ty false value []
  | void {wanted : Bool} {value : Value} :
      ty = .void → Leaves ty wanted value []

namespace Leaves

variable
  {ty : Ty}
  {wanted : Bool}
  {value : Value}
  {pushed : List Word}

/-- A wanted value is left. -/
theorem exists_word
    (leaves : Leaves ty true value pushed)
    (notVoid : ty ≠ .void) :
    ∃ word, value = .word word ∧ pushed = [word] ∧ word.kind = .ofTy ty := by
  cases leaves with
  | wanted _ isKind =>
      exact ⟨_, rfl, rfl, isKind⟩
  | void isVoid =>
      exact absurd isVoid notVoid

/-- The effects of an expression leave nothing. -/
theorem eq_nil
    (leaves : Leaves ty false value pushed) :
    pushed = [] := by
  cases leaves <;> rfl

/-- A value is of the kind of its type. -/
theorem kind_eq
    (leaves : Leaves ty wanted value pushed)
    (notVoid : ty ≠ .void) :
    value.kind = .ofTy ty := by
  cases leaves with
  | wanted _ isKind =>
      exact isKind
  | unwanted _ isKind =>
      exact isKind
  | void isVoid =>
      exact absurd isVoid notVoid

/-- A word is left if it is wanted. -/
theorem ofWord
    {word : Word}
    (notVoid : ty ≠ .void)
    (isKind : word.kind = .ofTy ty)
    (wanted : Bool) :
    Leaves ty wanted (.word word) (if wanted then [word] else []) := by
  cases wanted with
  | true =>
      exact .wanted notVoid isKind
  | false =>
      exact .unwanted notVoid isKind

end Leaves

end Value

namespace BinOp

/-- The instruction of an arithmetic operator computes its result. -/
theorem onInts_of_arithOp
    {op : BinOp}
    {arith : ArithOp}
    (isArith : op.arithOp = .ok arith)
    (left right : Int32) :
    op.onInts left right = .int (arith.result left right) := by
  cases op <;> cases isArith <;> rfl

/-- The condition of a comparison tests for its result. -/
theorem onInts_of_condition
    {op : BinOp}
    {condition : Condition}
    (isCondition : op.condition = .ok condition)
    (left right : Int32) :
    op.onInts left right = .truth (condition.holds left right) := by
  cases op <;> cases isCondition <;> rfl

/-- The condition of an equality test tests for its result on references. -/
theorem onReferences?_of_condition
    {op : BinOp}
    {condition : Condition}
    (isEquality : op.isEquality = true)
    (isCondition : op.condition = .ok condition)
    (left right : Reference) :
    condition.isEquality = true ∧
      op.onReferences? (.word (.reference left)) (.word (.reference right)) =
        some (.truth (condition.holdsOf left right)) := by
  have sameWords : ((Value.word (.reference left)) == .word (.reference right)) =
      (left == right) := by
    rw [Bool.eq_iff_iff]
    simp
  cases op <;> simp only [BinOp.isEquality, Bool.false_eq_true] at isEquality
  · cases isCondition
    exact ⟨rfl, by simp only [onReferences?, sameWords]; rfl⟩
  · cases isCondition
    exact ⟨rfl, by simp only [onReferences?, bne, sameWords]; rfl⟩

/-- The condition that a comparison branches on is its own or the negation of that. -/
theorem branchCondition_eq_ok
    {op : BinOp}
    {branchIf : Bool}
    {condition : Condition} :
    op.branchCondition branchIf = .ok condition ↔
      ∃ own, op.condition = .ok own ∧ (if branchIf then own else own.negate) = condition := by
  simp only [branchCondition, bind_eq_ok, pure_eq_ok]

/-- An operator on integers has an integer as its result. -/
theorem kind_onInts
    (op : BinOp)
    (left right : Int32) :
    (op.onInts left right).kind = .int := by
  cases op <;> rfl

/-- An operator that applies to words has a result. -/
theorem AppliesToWords.exists_result
    {op : BinOp}
    {leftTy rightTy ty : Ty}
    (applies : op.AppliesToWords leftTy rightTy ty)
    {left right : Value}
    (leftKind : left.kind = .ofTy leftTy)
    (rightKind : right.kind = .ofTy rightTy) :
    ∃ result, op.onValues? left right = some result ∧ result.kind = .ofTy ty := by
  cases applies with
  | ints isLeft isRight =>
      subst isLeft isRight
      obtain ⟨first, rfl⟩ := Value.exists_int leftKind
      obtain ⟨second, rfl⟩ := Value.exists_int rightKind
      refine ⟨op.onInts first second, rfl, ?_⟩
      rw [kind_onInts]
      split <;> rfl
  | truthValues isLeft isRight isEquality =>
      subst isLeft isRight
      obtain ⟨first, rfl⟩ := Value.exists_int leftKind
      obtain ⟨second, rfl⟩ := Value.exists_int rightKind
      exact ⟨op.onInts first second, rfl, kind_onInts op first second⟩
  | references isLeft isRight isEquality =>
      rw [ValueKind.ofTy_of_isReference isLeft] at leftKind
      rw [ValueKind.ofTy_of_isReference isRight] at rightKind
      have onReferences : op.onValues? left right = op.onReferences? left right := by
        unfold onValues?
        split
        · cases leftKind
        · rw [if_pos ⟨leftKind, rightKind⟩]
      rw [onReferences]
      cases op <;> simp only [BinOp.isEquality, Bool.false_eq_true] at isEquality
      · exact ⟨_, rfl, rfl⟩
      · exact ⟨_, rfl, rfl⟩

/-- On references, an operator does what it does on the words. -/
theorem onValues?_references
    (op : BinOp)
    (left right : Reference) :
    op.onValues? (.word (.reference left)) (.word (.reference right)) =
      op.onReferences? (.word (.reference left)) (.word (.reference right)) := by
  simp [onValues?, Value.kind, Word.kind]

end BinOp

/-- A constant that is added in place is the one that the operator adds or
subtracts. -/
theorem onInts_of_increment?
    {op : BinOp}
    {value : Expr}
    {delta : Int16}
    (small : increment? op value = some delta) :
    ∃ span literal, value = .intLit span literal ∧
      ∀ before, op.onInts before literal = .int (before + Int32.ofInt delta.toInt) := by
  cases value with
  | intLit span literal =>
      refine ⟨span, literal, rfl, fun before => ?_⟩
      cases op <;> simp only [increment?, reduceCtorEq] at small
      all_goals
        split at small
        · next fits =>
            obtain rfl := Option.some.inj small
            rw [Int16.toInt_ofInt_of_le (by omega) (by omega)]
            simp [BinOp.onInts, Int32.ofInt_neg, Int32.sub_eq_add_neg]
        · cases small
  | _ =>
      cases small

/-- A length or an index that fits in an integer is what the integer says. -/
theorem toNat_toInt_ofNat
    {number : Nat}
    (bounded : number < 0x80000000) :
    (Int32.ofNat number).toInt.toNat = number := by
  rw [Int32.toInt_ofNat_of_lt bounded, Int.toNat_natCast]

/-- A length is not negative. -/
theorem zero_le_ofNat
    {number : Nat}
    (bounded : number < 0x80000000) :
    (0 : Int32) ≤ Int32.ofNat number := by
  rw [Int32.le_iff_toInt_le, Int32.toInt_ofNat_of_lt bounded]
  exact Int.natCast_nonneg number

/-- Lengths and indices that fit in integers are ordered as the integers are. -/
theorem ofNat_lt_ofNat
    {first second : Nat}
    (firstBounded : first < 0x80000000)
    (secondBounded : second < 0x80000000) :
    Int32.ofNat first < Int32.ofNat second ↔ first < second := by
  rw [Int32.lt_iff_toInt_lt, Int32.toInt_ofNat_of_lt firstBounded,
    Int32.toInt_ofNat_of_lt secondBounded, Int.ofNat_lt]

/-- A length is zero as an integer only if it is zero. -/
theorem ofNat_beq_zero
    {number : Nat}
    (bounded : number < 0x80000000) :
    (Int32.ofNat number == 0) = !decide (0 < number) := by
  cases number with
  | zero =>
      rfl
  | succ number =>
      have positive := (ofNat_lt_ofNat (show 0 < 0x80000000 by decide) bounded).mpr number.succ_pos
      have different : Int32.ofNat (number + 1) ≠ 0 := (Int32.ne_of_lt positive).symm
      simpa using different

/-- The index after another one is that integer plus one. -/
theorem ofNat_add_one
    (number : Nat) :
    Int32.ofNat number + Int32.ofInt (1 : Int16).toInt = Int32.ofNat (number + 1) := by
  rw [Int32.ofNat_add]
  rfl

end LoopLowering
