import LoopLowering.Code.Typing
import LoopLowering.Proofs.Resolution.Growth
import LoopLowering.Proofs.Types.SoundLookups

namespace LoopLowering

/-!
# Types of expressions

What resolution finds out about an expression, and that it is right.

## Types of resolved expressions

What resolution finds out about an expression without errors: its names are
bound to locals that are seen where it stands, everything it calls exists, its
operands convert to what they are used as, and it has a type.
-/

mutual

/-- Whether the written types of an expression are allowed. -/
def Expr.isAllowed
    (strict : Bool) :
    Expr → Bool
  | .intLit .. | .boolLit .. | .stringLit .. | .null _ | .name .. => true
  | .newArray _ component elements =>
      component.isAllowed strict && Expr.areAllowed strict elements
  | .binary _ _ left right => left.isAllowed strict && right.isAllowed strict
  | .assign _ _ _ value => value.isAllowed strict
  | .call _ _ args => Expr.areAllowed strict args
  | .methodCall _ receiver _ args => receiver.isAllowed strict && Expr.areAllowed strict args

/-- Whether the written types of expressions are allowed. -/
def Expr.areAllowed
    (strict : Bool) :
    List Expr → Bool
  | [] => true
  | expr :: rest => expr.isAllowed strict && Expr.areAllowed strict rest

end

mutual

/-- Every expression is allowed leniently. -/
theorem Expr.isAllowed_lenient :
    ∀ expr : Expr,
      expr.isAllowed false = true
  | .intLit .. | .boolLit .. | .stringLit .. | .null _ | .name .. => by
      simp [isAllowed]
  | .newArray _ component elements => by
      simp [isAllowed, component.isAllowed_lenient, areAllowed_lenient elements]
  | .binary _ _ left right => by
      simp [isAllowed, isAllowed_lenient left, isAllowed_lenient right]
  | .assign _ _ _ value => by
      simp [isAllowed, isAllowed_lenient value]
  | .call _ _ args => by
      simp [isAllowed, areAllowed_lenient args]
  | .methodCall _ receiver _ args => by
      simp [isAllowed, isAllowed_lenient receiver, areAllowed_lenient args]

theorem Expr.areAllowed_lenient :
    ∀ exprs : List Expr,
      Expr.areAllowed false exprs = true
  | [] => by
      simp [areAllowed]
  | expr :: rest => by
      simp [areAllowed, isAllowed_lenient expr, areAllowed_lenient rest]

end

namespace CodeContext

/-- What is known about a method mentions types of values only. -/
structure Sound
    (strict : Bool)
    (context : CodeContext) :
    Prop where
  table : context.table.Sound strict
  typeVars : SoundVars strict context.state.typeVars
  locals : ∀ id < context.scope.locals.size, (context.localAt id).type.isValue strict = true
  /-- The locals are those of well-formed scopes. -/
  wellFormed : context.scope.WellFormed

/-- A place in a method: the block scope around it, and the number of locals
declared before it. -/
structure Place where
  block : Nat
  count : Nat

/-- A name is bound to a local of that name that is seen at a place. -/
structure Binds
    (context : CodeContext)
    (place : Place)
    (ref : NameRef)
    (id : Nat) :
    Prop where
  bound : ref.binding = some id
  sees : context.scope.Sees place.block place.count id
  name : (context.localAt id).name = ref.name

mutual

/-- A resolved expression has a type at a place. -/
def HasType
    (context : CodeContext)
    (strict : Bool)
    (place : Place) :
    Expr → Ty → Prop
  | .intLit .., ty => ty = .int
  | .boolLit .., ty => ty = .boolean
  | .stringLit .., ty => ty = .string
  | .null _, ty => ty = .null
  | .name _ ref, ty =>
      ∃ id, context.Binds place ref id ∧ (context.localAt id).isUsed = true ∧
        (context.localAt id).type = ty
  | .newArray _ component elements, ty =>
      ∃ componentTy, component.isAllowed strict = true ∧
        context.table.resolve context.state.typeVars component = .ok componentTy ∧
        context.Fill strict place componentTy elements ∧ Ty.array componentTy = ty
  | .binary _ op left right, ty =>
      ∃ leftTy rightTy, context.HasType strict place left leftTy ∧
        context.HasType strict place right rightTy ∧ op.resultType? leftTy rightTy = some ty
  | .assign _ target none value, ty =>
      ∃ id valueTy, context.Binds place target.node id ∧
        context.HasType strict place value valueTy ∧
        context.table.converts valueTy ty = true ∧ (context.localAt id).type = ty
  | .assign _ target (some op) value, ty =>
      ∃ id valueTy, context.Binds place target.node id ∧
        (context.localAt id).isUsed = true ∧ context.HasType strict place value valueTy ∧
        compoundApplies op ty valueTy = true ∧ (context.localAt id).type = ty
  | .call _ function args, ty =>
      ∃ info, context.table.function? function.node = some info ∧
        context.Pass strict place info.signature.params args ∧ info.signature.returnType = ty
  | .methodCall _ receiver method args, ty =>
      ∃ receiverTy found, context.HasType strict place receiver receiverTy ∧
        context.table.lookupMethod receiverTy method.node = some found ∧
        context.Pass strict place found.seen.params args ∧ found.seen.returnType = ty

/-- Expressions convert to the types of parameters, one by one. -/
def Pass
    (context : CodeContext)
    (strict : Bool)
    (place : Place)
    (params : List Ty) :
    List Expr → Prop
  | [] => params = []
  | expr :: rest =>
      ∃ param others ty, params = param :: others ∧ context.HasType strict place expr ty ∧
        context.table.converts ty param = true ∧ context.Pass strict place others rest

/-- Expressions all convert to one type. -/
def Fill
    (context : CodeContext)
    (strict : Bool)
    (place : Place)
    (component : Ty) :
    List Expr → Prop
  | [] => True
  | expr :: rest =>
      (∃ ty, context.HasType strict place expr ty ∧
        context.table.converts ty component = true) ∧
        context.Fill strict place component rest

end

end CodeContext

namespace Ty

/-- An operator on values yields a truth value or a number. -/
theorem isPrimitive_resultType?
    {strict : Bool}
    {op : BinOp}
    {left right ty : Ty}
    (leftResult : left.IsResult strict)
    (rightResult : right.IsResult strict)
    (found : op.resultType? left right = some ty) :
    ty.isPrimitive = true := by
  simp only [BinOp.resultType?, leftResult.ne_unknown, rightResult.ne_unknown, Bool.or_self,
    Bool.false_eq_true, if_false] at found
  split at found
  · cases comparison : op.isComparison <;> simp [comparison] at found <;> subst found <;> rfl
  · simp only [BinOp.equalityResult?] at found
    split at found <;> split at found <;> cases found <;> rfl

/-- A primitive type is one of values. -/
theorem isValue_of_isPrimitive
    (strict : Bool)
    {ty : Ty}
    (primitive : ty.isPrimitive = true) :
    ty.isValue strict = true := by
  cases ty <;> simp_all [isPrimitive, isValue]

end Ty

namespace CodeContext

variable
  {strict : Bool}
  {context : CodeContext}
  {place : Place}

/-- A local that is seen has a type of values. -/
theorem Sound.isValue_local
    (sound : context.Sound strict)
    (counted : place.count ≤ context.scope.locals.size)
    {ref : NameRef}
    {id : Nat}
    (binds : context.Binds place ref id) :
    (context.localAt id).type.isValue strict = true :=
  sound.locals id (Nat.lt_of_lt_of_le binds.2.1 counted)

/-- The type of an expression is that of a result. -/
theorem HasType.isResult
    (sound : context.Sound strict)
    (counted : place.count ≤ context.scope.locals.size) :
    ∀ {expr : Expr} {ty : Ty},
      context.HasType strict place expr ty →
      ty.IsResult strict
  | .intLit .., ty, typed | .boolLit .., ty, typed => by
      rw [HasType] at typed
      subst typed
      exact .inr (.inr rfl)
  | .stringLit .., ty, typed => by
      rw [HasType] at typed
      subst typed
      exact .inr (.inr rfl)
  | .null _, ty, typed => by
      rw [HasType] at typed
      exact .inl typed
  | .name _ ref, ty, typed => by
      rw [HasType] at typed
      obtain ⟨id, binds, -, rfl⟩ := typed
      exact .inr (.inr (sound.isValue_local counted binds))
  | .newArray _ component elements, ty, typed => by
      rw [HasType] at typed
      obtain ⟨componentTy, allowed, resolved, -, rfl⟩ := typed
      refine .inr (.inr ?_)
      rw [Ty.isValue]
      exact (ClassTable.resolve_isValue sound.typeVars allowed resolved).1
  | .binary _ op left right, ty, typed => by
      rw [HasType] at typed
      obtain ⟨leftTy, rightTy, leftTyped, rightTyped, found⟩ := typed
      exact .inr (.inr (Ty.isValue_of_isPrimitive strict
        (Ty.isPrimitive_resultType? (leftTyped.isResult sound counted)
          (rightTyped.isResult sound counted) found)))
  | .assign _ target none value, ty, typed => by
      rw [HasType] at typed
      obtain ⟨id, valueTy, binds, -, -, rfl⟩ := typed
      exact .inr (.inr (sound.isValue_local counted binds))
  | .assign _ target (some op) value, ty, typed => by
      rw [HasType] at typed
      obtain ⟨id, valueTy, binds, -, -, -, rfl⟩ := typed
      exact .inr (.inr (sound.isValue_local counted binds))
  | .call _ function args, ty, typed => by
      rw [HasType] at typed
      obtain ⟨info, found, -, rfl⟩ := typed
      exact Signature.isResult_returnType
        (sound.table.functions _ (NameTable.mem_of_find? found))
  | .methodCall _ receiver method args, ty, typed => by
      rw [HasType] at typed
      obtain ⟨receiverTy, found, receiverTyped, finds, -, rfl⟩ := typed
      exact Signature.isResult_returnType (ClassTable.isSound_lookupMethod sound.table
        (receiverTyped.isResult sound counted) finds).seen

end CodeContext

/-!
## Resolution of expressions is sound

An expression that resolution finds no error in has the type that resolution
gives it. The judgment is about the locals as they are when code is generated,
which are those of resolution with more uses.
-/

/-- Where an expression is resolved: the locals so far are counted, and the
block scope exists. -/
structure CodeContext.Place.At
    (place : CodeContext.Place)
    (state : MethodState) :
    Prop where
  counted : place.count = state.scope.locals.size
  known : place.block < state.scope.blocks.size
  wellFormed : state.scope.WellFormed

namespace CodeContext

/-- A place stays what it is while locals are marked as used. -/
theorem Place.At.marks
    {place : Place}
    {before after : MethodState}
    (isAt : place.At before)
    (marks : before.Marks after) :
    place.At after where
  counted := by
    rw [marks.sameCount]
    exact isAt.counted
  known := by
    rw [marks.sameBlocks]
    exact isAt.known
  wellFormed := marks.wellFormed isAt.wellFormed

/-- A state whose locals and types are settled by what code generation knows,
without any error up to then. -/
structure Settles
    (context : CodeContext)
    (state : MethodState) :
    Prop where
  leads : state.Leads context.state
  clean : context.state.Clean

namespace Settles

variable
  {context : CodeContext}
  {before after : MethodState}

/-- What is settled later is settled before. -/
theorem earlier
    (settles : context.Settles after)
    (leads : before.Leads after) :
    context.Settles before :=
  ⟨leads.trans settles.leads, settles.clean⟩

/-- A settled state is without errors. -/
theorem isClean
    (settles : context.Settles after) :
    after.Clean :=
  settles.leads.isClean settles.clean

end Settles

variable
  {strict : Bool}
  {context : CodeContext}
  {place : Place}

/-- The locals counted at a place are locals of the method. -/
theorem Place.At.count_le
    {state : MethodState}
    (isAt : place.At state)
    (settles : context.Settles state) :
    place.count ≤ context.scope.locals.size := by
  rw [isAt.counted]
  exact settles.leads.scope.localCount

/-- A name is bound to a local that is seen where it stands. -/
theorem binds_bindName
    (sound : context.Sound strict)
    {span : Span}
    {ref : NameRef}
    {state : MethodState}
    (isAt : place.At state)
    (settles : context.Settles (bindName place.block span ref state).2) :
    ∃ id, context.Binds place (bindName place.block span ref state).1 id := by
  have reported := (MethodState.clean_reportIf _ rfl span state).mp settles.isClean
  obtain ⟨id, found⟩ := Option.isSome_iff_exists.mp (Option.isNone_eq_false_iff.mp reported.1)
  have sees := isAt.wellFormed.sees_lookup found
  have grows := (settles.earlier (marks_bindName place.block span ref state).toLeads).leads.scope
  refine ⟨id, by simpa only [bindName] using found, ?_, ?_⟩
  · rw [isAt.counted]
    exact sees.later grows isAt.wellFormed sound.wellFormed isAt.known
  · exact (grows.persists id sees.1).name.trans (MethodScope.name_of_lookup found)

/-- A local that is used has the type it was declared with. -/
theorem type_localAt
    {state : MethodState}
    (isAt : place.At state)
    (settles : context.Settles state)
    {ref : NameRef}
    {id : Nat}
    (binds : context.Binds place ref id) :
    (context.localAt id).type = (state.localAt id).type := by
  have counted : id < state.scope.locals.size := by
    rw [← isAt.counted]
    exact binds.2.1
  exact (settles.leads.scope.persists id counted).type

/-- A local whose use was recorded is used. -/
theorem isUsed_markUse
    {state : MethodState}
    (isAt : place.At state)
    {ref : NameRef}
    {id : Nat}
    (binds : context.Binds place ref id)
    (settles : context.Settles (markUse ref.binding state)) :
    (context.localAt id).isUsed = true := by
  have marks := marks_markUse ref.binding state
  have counted : id < state.scope.locals.size := by
    rw [← isAt.counted]
    exact binds.2.1
  refine (settles.leads.scope.persists id (by rwa [marks.sameCount])).isUsed ?_
  rw [binds.1]
  exact MethodScope.isUsed_markUsed counted

/-- Expressions have types, one by one. -/
def HaveTypes
    (context : CodeContext)
    (strict : Bool)
    (place : Place) :
    List Expr → List Ty → Prop
  | [], types => types = []
  | expr :: rest, types =>
      ∃ ty others, types = ty :: others ∧ context.HasType strict place expr ty ∧
        context.HaveTypes strict place rest others

/-- Arguments whose types were checked convert to the parameters. -/
theorem pass_checkArgumentTypes :
    ∀ {exprs : List Expr} {types params : List Ty} {state : MethodState},
      context.HaveTypes strict place exprs types →
      params.length = types.length →
      (checkArgumentTypes context.table params types exprs state).Clean →
      context.Pass strict place params exprs
  | [], types, params, state, typed, sameLength, clean => by
      rw [HaveTypes] at typed
      subst typed
      rw [Pass]
      exact List.length_eq_zero_iff.mp sameLength
  | expr :: rest, types, [], state, typed, sameLength, clean => by
      rw [HaveTypes] at typed
      obtain ⟨ty, others, rfl, -, -⟩ := typed
      simp at sameLength
  | expr :: rest, types, param :: params, state, typed, sameLength, clean => by
      rw [HaveTypes] at typed
      obtain ⟨ty, others, rfl, exprTyped, restTyped⟩ := typed
      rw [checkArgumentTypes] at clean
      have converts := (MethodState.clean_reportIf _ rfl _ _).mp
        ((marks_checkArgumentTypes context.table params others rest _).isClean clean)
      rw [Pass]
      exact ⟨param, params, ty, rfl, exprTyped, by simpa using converts.1,
        pass_checkArgumentTypes restTyped (by simpa using sameLength) clean⟩

/-- Checked arguments convert to the parameters. -/
theorem pass_checkArguments
    {exprs : List Expr}
    {types params : List Ty}
    (typed : context.HaveTypes strict place exprs types)
    {name : String}
    {span : Span}
    {state : MethodState}
    (clean : (checkArguments context.table name params types exprs span state).Clean) :
    context.Pass strict place params exprs := by
  unfold checkArguments at clean
  split at clean
  · next sameLength =>
      exact pass_checkArgumentTypes typed sameLength clean
  · simp [Issue.severity] at clean

/-- A written type resolves to the same type again. -/
theorem resolve_of_settles
    {type : TypeExpr}
    {state : MethodState}
    (settles : context.Settles (resolveType context.table type state).2) :
    context.table.resolve context.state.typeVars type =
      .ok (resolveType context.table type state).1 := by
  rw [(settles.earlier (marks_resolveType context.table type state).toLeads).leads.typeVars]
  cases found : context.table.resolve state.typeVars type with
  | ok ty =>
      simp [resolveType, found]
  | error cause =>
      have clean := settles.isClean
      simp [resolveType, found, Issue.severity] at clean

mutual

/-- A resolved expression has the type that resolution gives it. -/
theorem hasType_checkExpr
    (sound : context.Sound strict) :
    ∀ {expr : Expr} {state : MethodState},
      expr.isAllowed strict = true →
      place.At state →
      context.Settles (checkExpr context.table place.block expr state).state →
      context.HasType strict place (checkExpr context.table place.block expr state).node
        (checkExpr context.table place.block expr state).type
  | .intLit .., state, _, _, _ | .boolLit .., state, _, _, _ | .stringLit .., state, _, _, _
  | .null _, state, _, _, _ => by
      simp [checkExpr, HasType]
  | .name span ref, state, _, isAt, settles => by
      simp only [checkExpr] at settles ⊢
      obtain ⟨id, binds⟩ :=
        binds_bindName sound isAt (settles.earlier (marks_markUse _ _).toLeads)
      have isAtUse := isAt.marks (marks_bindName place.block span ref state)
      rw [HasType]
      refine ⟨id, binds, isUsed_markUse isAtUse binds settles, ?_⟩
      rw [type_localAt (isAtUse.marks (marks_markUse _ _)) settles binds, binds.1]
      rfl
  | .newArray _ component elements, state, allowed, isAt, settles => by
      simp only [Expr.isAllowed, Bool.and_eq_true] at allowed
      simp only [checkExpr] at settles ⊢
      have resolvedSettles := settles.earlier (marks_checkElements _ _ _ elements _).toLeads
      have isAtElements := isAt.marks (marks_resolveType context.table component state)
      rw [HasType]
      exact ⟨_, allowed.1, resolve_of_settles resolvedSettles,
        fill_checkElements sound allowed.2 isAtElements settles, rfl⟩
  | .binary span op left right, state, allowed, isAt, settles => by
      simp only [Expr.isAllowed, Bool.and_eq_true] at allowed
      simp only [checkExpr] at settles ⊢
      have leftMarks := marks_checkExpr context.table place.block left state
      have isAtRight := isAt.marks leftMarks
      split at settles
      · next ty found =>
          have rightMarks := marks_checkExpr context.table place.block right
            (checkExpr context.table place.block left state).state
          simp only [HasType]
          exact ⟨_, _, hasType_checkExpr sound allowed.1 isAt (settles.earlier rightMarks.toLeads),
            hasType_checkExpr sound allowed.2 isAtRight settles, found⟩
      · have clean := settles.isClean
        simp [Issue.severity] at clean
  | .assign span target none value, state, allowed, isAt, settles => by
      simp only [Expr.isAllowed] at allowed
      simp only [checkExpr, Option.isSome_none, Bool.false_eq_true, if_false] at settles ⊢
      have isAtValue := isAt.marks (marks_bindName place.block target.span target.node state)
      have valueMarks := marks_checkExpr context.table place.block value
        (bindName place.block target.span target.node state).2
      have valueSettles : context.Settles (checkExpr context.table place.block value
          (bindName place.block target.span target.node state).2).state := by
        split at settles
        · exact settles
        · dsimp only at settles
          exact settles.earlier (marks_checkAssignedValue _ _ _ _ _ _ _).toLeads
      obtain ⟨id, binds⟩ := binds_bindName sound isAt (valueSettles.earlier valueMarks.toLeads)
      have type := type_localAt (isAtValue.marks valueMarks) valueSettles binds
      simp only [binds.1] at settles ⊢
      have converts := (MethodState.clean_reportIf _ rfl _ _).mp settles.isClean
      rw [HasType]
      exact ⟨id, _, binds, hasType_checkExpr sound allowed isAtValue valueSettles,
        by simpa using converts.1, type⟩
  | .assign span target (some op) value, state, allowed, isAt, settles => by
      simp only [Expr.isAllowed] at allowed
      simp only [checkExpr, Option.isSome_some, if_true] at settles ⊢
      have isAtUse := isAt.marks (marks_bindName place.block target.span target.node state)
      have useMarks := marks_markUse (bindName place.block target.span target.node state).1.binding
        (bindName place.block target.span target.node state).2
      have isAtValue := isAtUse.marks useMarks
      have valueMarks := marks_checkExpr context.table place.block value
        (markUse (bindName place.block target.span target.node state).1.binding
          (bindName place.block target.span target.node state).2)
      have valueSettles : context.Settles (checkExpr context.table place.block value
          (markUse (bindName place.block target.span target.node state).1.binding
            (bindName place.block target.span target.node state).2)).state := by
        split at settles
        · exact settles
        · dsimp only at settles
          exact settles.earlier (marks_checkAssignedValue _ _ _ _ _ _ _).toLeads
      have useSettles := valueSettles.earlier valueMarks.toLeads
      obtain ⟨id, binds⟩ := binds_bindName sound isAt (useSettles.earlier useMarks.toLeads)
      have isUsed := isUsed_markUse isAtUse binds useSettles
      have type := type_localAt (isAtValue.marks valueMarks) valueSettles binds
      have valueTyped := hasType_checkExpr sound allowed isAtValue valueSettles
      simp only [binds.1] at settles valueTyped type ⊢
      have applies := (MethodState.clean_reportIf _ rfl _ _).mp settles.isClean
      rw [HasType]
      exact ⟨id, _, binds, isUsed, valueTyped, by simpa using applies.1, type⟩
  | .call span function args, state, allowed, isAt, settles => by
      simp only [Expr.isAllowed] at allowed
      simp only [checkExpr] at settles ⊢
      split at settles
      · have clean := settles.isClean
        simp [Issue.severity] at clean
      · next info found =>
          have argsSettle := settles.earlier (marks_checkArguments _ _ _ _ _ _ _).toLeads
          simp only [HasType]
          exact ⟨info, found,
            pass_checkArguments (haveTypes_checkExprs sound allowed isAt argsSettle)
              settles.isClean, rfl⟩
  | .methodCall span receiver method args, state, allowed, isAt, settles => by
      simp only [Expr.isAllowed, Bool.and_eq_true] at allowed
      have receiverMarks := marks_checkExpr context.table place.block receiver state
      have argsMarks := marks_checkExprs context.table place.block args
        (checkExpr context.table place.block receiver state).state
      have isAtArgs := isAt.marks receiverMarks
      have argsSettle : context.Settles (checkExprs context.table place.block args
          (checkExpr context.table place.block receiver state).state).state := by
        simp only [checkExpr] at settles
        split at settles
        · exact settles
        · split at settles
          · exact settles.earlier (MethodState.marks_report _ _ _).toLeads
          · exact settles.earlier (marks_checkArguments _ _ _ _ _ _ _).toLeads
      have receiverSettles := argsSettle.earlier argsMarks.toLeads
      have receiverTyped := hasType_checkExpr sound allowed.1 isAt receiverSettles
      have known := (receiverTyped.isResult sound
        (isAt.count_le (receiverSettles.earlier receiverMarks.toLeads))).ne_unknown
      simp only [checkExpr, known, Bool.false_eq_true, if_false] at settles ⊢
      split at settles
      · have clean := settles.isClean
        simp [Issue.severity] at clean
      · next found finds =>
          simp only [HasType]
          exact ⟨_, found, receiverTyped, finds,
            pass_checkArguments (haveTypes_checkExprs sound allowed.2 isAtArgs argsSettle)
              settles.isClean, rfl⟩

theorem haveTypes_checkExprs
    (sound : context.Sound strict) :
    ∀ {exprs : List Expr} {state : MethodState},
      Expr.areAllowed strict exprs = true →
      place.At state →
      context.Settles (checkExprs context.table place.block exprs state).state →
      context.HaveTypes strict place (checkExprs context.table place.block exprs state).nodes
        (checkExprs context.table place.block exprs state).types
  | [], state, _, _, _ => by
      simp [checkExprs, HaveTypes]
  | expr :: rest, state, allowed, isAt, settles => by
      simp only [Expr.areAllowed, Bool.and_eq_true] at allowed
      simp only [checkExprs] at settles ⊢
      have restMarks := marks_checkExprs context.table place.block rest
        (checkExpr context.table place.block expr state).state
      rw [HaveTypes]
      exact ⟨_, _, rfl,
        hasType_checkExpr sound allowed.1 isAt (settles.earlier restMarks.toLeads),
        haveTypes_checkExprs sound allowed.2
          (isAt.marks (marks_checkExpr context.table place.block expr state)) settles⟩

theorem fill_checkElements
    (sound : context.Sound strict)
    {component : Ty} :
    ∀ {exprs : List Expr} {state : MethodState},
      Expr.areAllowed strict exprs = true →
      place.At state →
      context.Settles (checkElements context.table place.block component exprs state).state →
      context.Fill strict place component
        (checkElements context.table place.block component exprs state).nodes
  | [], state, _, _, _ => by
      simp [checkElements, Fill]
  | expr :: rest, state, allowed, isAt, settles => by
      simp only [Expr.areAllowed, Bool.and_eq_true] at allowed
      simp only [checkElements] at settles ⊢
      have exprMarks := marks_checkExpr context.table place.block expr state
      have convertsSettles := settles.earlier
        (marks_checkElements context.table place.block component rest _).toLeads
      have exprSettles := convertsSettles.earlier (marks_checkConverts _ _ _ _ _).toLeads
      have converts := (MethodState.clean_reportIf _ rfl _ _).mp convertsSettles.isClean
      rw [Fill]
      exact ⟨⟨_, hasType_checkExpr sound allowed.1 isAt exprSettles, by simpa using converts.1⟩,
        fill_checkElements sound allowed.2
          ((isAt.marks exprMarks).marks (marks_checkConverts _ _ _ _ _)) settles⟩

end

end CodeContext

end LoopLowering
