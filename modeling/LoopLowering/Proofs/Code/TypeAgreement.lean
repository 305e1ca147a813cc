import LoopLowering.Proofs.Code.StaticTypes
import LoopLowering.Proofs.Resolution.Methods
import LoopLowering.Proofs.Types.WrittenTypes

namespace LoopLowering

/-!
# Where code generation finds the types of resolution

Resolution and code generation compute the types of expressions apart from each
other. They agree on an expression without errors unless the component type of a
created array mentions a type variable of the method, which only resolution
knows: such an array gets another type or none, and what is built on an array
without a type gets none either.
-/

namespace Expr

/-- Whether code generation finds a type for an expression: the component types
of the arrays that its type comes from resolve without type variables. -/
def isRetyped
    (arities : Arities) :
    Expr → Bool
  | .newArray _ component _ => component.resolves arities []
  | .binary _ _ left right => left.isRetyped arities && right.isRetyped arities
  | .methodCall _ receiver _ _ => receiver.isRetyped arities
  | .intLit .. | .boolLit .. | .stringLit .. | .null _ | .name .. | .assign .. | .call .. => true

/-- Whether code generation finds the type that resolution finds. A created
array has another type as soon as its component type mentions a type variable. -/
def keepsType
    (arities : Arities)
    (isVariable : String → Bool)
    (expr : Expr) :
    Bool :=
  match expr with
  | .newArray _ component _ => !component.mentions isVariable
  | _ => expr.isRetyped arities

/-- Whether an expression creates an array. -/
def createsArray :
    Expr → Bool
  | .newArray .. => true
  | _ => false

end Expr

/-- Whether a method declares a type variable. -/
def Method.declaresVariable
    (method : Method)
    (name : String) :
    Bool :=
  method.typeParams.any (fun param => param.name == name)

namespace CodeContext

variable
  {context : CodeContext}
  {place : Place}

/-- The type of an expression only depends on the types of the locals. -/
theorem exprType_congr
    {table : ClassTable}
    {before after : MethodState}
    (sameTypes : ∀ id, (after.localAt id).type = (before.localAt id).type) :
    ∀ expr : Expr,
      (CodeContext.mk table after).exprType expr = (CodeContext.mk table before).exprType expr
  | .methodCall _ receiver _ _ => by
      simp only [exprType, exprType_congr sameTypes receiver]
  | .binary _ op left right => by
      simp only [exprType, exprType_congr sameTypes left, exprType_congr sameTypes right]
  | .name .. | .assign .. => by
      simp only [exprType, boundType, CodeContext.localAt, sameTypes]
  | .intLit .. | .boolLit .. | .stringLit .. | .null _ | .newArray .. | .call .. => by
      simp only [exprType]

/-- What code generation finds no type for is unknown to it. -/
theorem exprType_eq_unknown :
    ∀ {expr : Expr},
      expr.isRetyped context.table.arities = false →
      context.exprType expr = .unknown
  | .newArray _ component _, missed => by
      simp only [Expr.isRetyped] at missed
      simp only [exprType]
      split
      · next found =>
          rw [(ClassTable.resolve_eq_ok.mp found).1] at missed
          cases missed
      · rfl
  | .binary _ op left right, missed => by
      simp only [Expr.isRetyped, Bool.and_eq_false_iff] at missed
      have isUnknown : (op.resultType? (context.exprType left) (context.exprType right)) =
          some .unknown := by
        rcases missed with leftMissed | rightMissed
        · simp [exprType_eq_unknown leftMissed, BinOp.resultType?, Ty.isUnknown]
        · simp [exprType_eq_unknown rightMissed, BinOp.resultType?, Ty.isUnknown]
      simp only [exprType, isUnknown, Option.getD_some]
  | .methodCall _ receiver method _, missed => by
      simp only [Expr.isRetyped] at missed
      simp only [exprType, exprType_eq_unknown missed, Ty.lookupMethod_unknown]

/-- A name has the type that resolution finds for it. -/
theorem boundType_lookup
    {before after : MethodState}
    (wellFormed : before.scope.WellFormed)
    (marks : before.Marks after)
    (settles : context.Settles after)
    (block : Nat)
    (name : String) :
    context.boundType (before.scope.lookup block name) =
      bindingType after (before.scope.lookup block name) := by
  cases found : before.scope.lookup block name with
  | none =>
      rfl
  | some id =>
      have known : id < after.scope.locals.size := by
        rw [marks.sameCount]
        exact (wellFormed.sees_lookup found).1
      exact (settles.leads.scope.persists id known).type

/-- What code generation finds for an expression is the type that resolution
finds, or that of another array. -/
def Retypes
    (context : CodeContext)
    (checked : Checked Expr) :
    Prop :=
  checked.type.Alike (context.exprType checked.node) ∧
    (checked.node.createsArray = false → context.exprType checked.node = checked.type)

/-- The type of what creates no array is found again. -/
theorem Retypes.same
    {checked : Checked Expr}
    (isSame : context.exprType checked.node = checked.type) :
    context.Retypes checked :=
  ⟨isSame ▸ .same _, fun _ => isSame⟩

/-- Code generation finds the types of resolution again, except for those of
created arrays. -/
theorem retypes_checkExpr :
    ∀ {expr : Expr} {state : MethodState},
      place.At state →
      context.Settles (checkExpr context.table place.block expr state).state →
      (checkExpr context.table place.block expr state).node.isRetyped context.table.arities =
        true →
      context.Retypes (checkExpr context.table place.block expr state)
  | .intLit .., state, _, _, _ | .boolLit .., state, _, _, _ | .stringLit .., state, _, _, _
  | .null _, state, _, _, _ => by
      exact .same (by simp only [checkExpr, exprType])
  | .name span ref, state, isAt, settles, _ => by
      refine .same ?_
      simp only [checkExpr] at settles ⊢
      have marks := marks_bindName place.block span ref state
      exact boundType_lookup isAt.wellFormed (marks.trans (marks_markUse _ _)) settles _ _
  | .newArray span component elements, state, isAt, settles, typed => by
      simp only [checkExpr, Expr.isRetyped] at typed
      have found := ClassTable.resolve_eq_ok.mpr ⟨typed, rfl⟩
      refine ⟨?_, fun notArray => ?_⟩
      · simp only [checkExpr, exprType, found]
        exact .arrays _ _
      · simp [checkExpr, Expr.createsArray] at notArray
  | .binary span op left right, state, isAt, settles, typed => by
      have leftMarks := marks_checkExpr context.table place.block left state
      have rightMarks := marks_checkExpr context.table place.block right
        (checkExpr context.table place.block left state).state
      refine .same ?_
      simp only [checkExpr] at settles typed ⊢
      split at settles
      · next ty found =>
          simp only [found, Expr.isRetyped, Bool.and_eq_true] at typed ⊢
          have leftTypes := retypes_checkExpr isAt (settles.earlier rightMarks.toLeads) typed.1
          have rightTypes := retypes_checkExpr (isAt.marks leftMarks) settles typed.2
          simp only [exprType, leftTypes.1.resultType?_eq rightTypes.1, found, Option.getD_some]
      · have clean := settles.isClean
        simp [Issue.severity] at clean
  | .assign span target op value, state, isAt, settles, _ => by
      refine .same ?_
      simp only [checkExpr] at settles ⊢
      have bindMarks := marks_bindName place.block target.span target.node state
      have useMarks : state.Marks (if op.isSome then
          markUse (bindName place.block target.span target.node state).1.binding
            (bindName place.block target.span target.node state).2
          else (bindName place.block target.span target.node state).2) := by
        split
        · exact bindMarks.trans (marks_markUse _ _)
        · exact bindMarks
      have marks := useMarks.trans (marks_checkExpr context.table place.block value _)
      split at settles
      · next unbound =>
          simp only [unbound, exprType, boundType]
      · next id isBound =>
          have valueSettles := settles.earlier (marks_checkAssignedValue _ _ _ _ _ _ _).toLeads
          have found := boundType_lookup isAt.wellFormed marks valueSettles place.block
            target.node.name
          simp only [bindName] at isBound found
          simp only [bindName, isBound, exprType] at found ⊢
          exact found
  | .call span function args, state, isAt, settles, _ => by
      refine .same ?_
      simp only [checkExpr] at settles ⊢
      split at settles
      · next missing =>
          simp only [missing, exprType]
      · next info found =>
          simp only [found, exprType]
  | .methodCall span receiver method args, state, isAt, settles, typed => by
      have argsMarks := marks_checkExprs context.table place.block args
        (checkExpr context.table place.block receiver state).state
      have argsSettle : context.Settles (checkExprs context.table place.block args
          (checkExpr context.table place.block receiver state).state).state := by
        simp only [checkExpr] at settles
        split at settles
        · exact settles
        · split at settles
          · exact settles.earlier (MethodState.marks_report _ _ _).toLeads
          · exact settles.earlier (marks_checkArguments _ _ _ _ _ _ _).toLeads
      refine .same ?_
      have receiverTypes := retypes_checkExpr isAt (argsSettle.earlier argsMarks.toLeads)
        (by
          simp only [checkExpr] at typed
          split at typed
          · exact typed
          · split at typed <;> exact typed)
      have sameMethod := receiverTypes.1.lookupMethod_eq context.table method.node
      simp only [checkExpr]
      split
      · next isUnknown =>
          have receiverUnknown := Ty.isUnknown_iff.mp isUnknown
          rw [receiverUnknown, Ty.lookupMethod_unknown] at sameMethod
          simp only [exprType, sameMethod]
      · split
        · next missing =>
            simp only [exprType, sameMethod, missing]
        · next found finds =>
            simp only [exprType, sameMethod, finds]

/-- Resolution keeps what creates an array. -/
theorem createsArray_checkExpr
    (table : ClassTable)
    (block : ScopeId)
    (expr : Expr)
    (state : MethodState) :
    (checkExpr table block expr state).node.createsArray = expr.createsArray := by
  cases expr with
  | methodCall =>
      simp only [checkExpr]
      split
      · rfl
      · split <;> rfl
  | binary | assign | call =>
      simp only [checkExpr]
      split <;> rfl
  | _ =>
      rfl

/-- The type of a created array is found exactly if its component type mentions no
type variable. -/
theorem exprType_newArray_iff
    {span : Span}
    {component : TypeExpr}
    {nodes : List Expr}
    {ty : Ty}
    (resolved : context.table.resolve context.state.typeVars component = .ok ty) :
    context.exprType (.newArray span component nodes) = .array ty ↔
      component.mentions context.state.typeVars.contains = false := by
  obtain ⟨resolves, rfl⟩ := ClassTable.resolve_eq_ok.mp resolved
  rw [← TypeExpr.meaning_eq_iff]
  constructor
  · intro found
    simp only [exprType] at found
    split at found
    · next again =>
        rw [(ClassTable.resolve_eq_ok.mp again).2]
        simpa using found
    · cases found
  · intro same
    have again := ClassTable.resolve_eq_ok.mpr
      ⟨TypeExpr.resolves_of_not_mentions (TypeExpr.meaning_eq_iff.mp same) resolves, same⟩
    simp only [exprType, again]

/-- The type of what creates no array is found exactly if there is none to be found,
or some type is found. -/
theorem exprType_iff_of_retypes
    {checked : Checked Expr}
    (notArray : checked.node.createsArray = false)
    (retypes : checked.node.isRetyped context.table.arities = true → context.Retypes checked)
    (isVariable : String → Bool) :
    context.exprType checked.node = checked.type ↔
      checked.type.isUnknown = true ∨
        checked.node.keepsType context.table.arities isVariable = true := by
  have keeps : checked.node.keepsType context.table.arities isVariable =
      checked.node.isRetyped context.table.arities := by
    unfold Expr.keepsType
    split
    · next isArray =>
        rw [isArray] at notArray
        cases notArray
    · rfl
  rw [keeps]
  cases typed : checked.node.isRetyped context.table.arities with
  | true =>
      simp [(retypes typed).2 notArray]
  | false =>
      rw [exprType_eq_unknown typed, Ty.isUnknown_iff]
      simp [eq_comm]

/-- Code generation finds the type that resolution finds for an expression exactly
if there is none to be found, or the expression keeps its type. -/
theorem exprType_checkExpr_iff
    {expr : Expr}
    {state : MethodState}
    (isAt : place.At state)
    (settles : context.Settles (checkExpr context.table place.block expr state).state) :
    context.exprType (checkExpr context.table place.block expr state).node =
        (checkExpr context.table place.block expr state).type ↔
      (checkExpr context.table place.block expr state).type.isUnknown = true ∨
        (checkExpr context.table place.block expr state).node.keepsType context.table.arities
          context.state.typeVars.contains = true := by
  cases created : expr.createsArray with
  | false =>
      exact exprType_iff_of_retypes ((createsArray_checkExpr _ _ expr state).trans created)
        (retypes_checkExpr isAt settles) _
  | true =>
      cases expr with
      | newArray span component elements =>
          have elementsMarks := marks_checkElements context.table place.block
            (resolveType context.table component state).1 elements
            (resolveType context.table component state).2
          simp only [checkExpr] at settles ⊢
          rw [exprType_newArray_iff (resolve_of_settles (settles.earlier elementsMarks.toLeads))]
          simp [Expr.keepsType, Ty.isUnknown]
      | _ =>
          cases created

end CodeContext

namespace MethodState

/-- The type variables of a method are the ones it declares. -/
theorem contains_checkTypeParams
    (table : ClassTable)
    (name : String) :
    ∀ (params : List TypeParam) (state : MethodState),
      (checkTypeParams table params state).typeVars.contains name =
        (state.typeVars.contains name || params.any (fun param => param.name == name))
  | [], state => by
      simp [checkTypeParams]
  | param :: rest, state => by
      have inserted : ∀ (bound : Ty) (typeVars : NameTable Ty),
          (typeVars.insert param.name bound).contains name =
            (typeVars.contains name || param.name == name) := by
        intro bound typeVars
        simp only [NameTable.contains, NameTable.find?_insert]
        by_cases same : name = param.name
        · simp [same]
        · simp [same, Ne.symm same]
      simp only [checkTypeParams]
      rw [contains_checkTypeParams table name rest, inserted, List.any_cons]
      split
      · next bound _ =>
          rw [(marks_resolveType table bound state).typeVars, Bool.or_assoc]
      · rw [Bool.or_assoc]

end MethodState

section Methods

variable
  {table : ClassTable}
  {options : CompilerOptions}
  {method : Method}

/-- The type variables of a method are those that its type parameters declare. -/
theorem typeVars_checkMethod
    (table : ClassTable)
    (options : CompilerOptions)
    (method : Method) :
    (checkMethod table options method .initial).state.typeVars =
      (checkTypeParams table method.typeParams .initial).typeVars := by
  have bodyLeads := leads_checkStmts table options method.body.stmts MethodScope.root
    (method.bodyState table)
  have paramsLead : (method.signatureState table).Leads (method.bodyState table) :=
    MethodState.leads_checkParams method.params _
  have signature : (method.signatureState table).typeVars =
      (checkTypeParams table method.typeParams .initial).typeVars := by
    unfold Method.signatureState checkReturnType
    split
    · exact (marks_resolveType table _ _).typeVars
    · rfl
  exact bodyLeads.typeVars.trans (paramsLead.typeVars.trans signature)

/-- The type variables that code generation knows are those of the method. -/
theorem contains_typeVars
    (table : ClassTable)
    (options : CompilerOptions)
    (method : Method) :
    (checkMethod table options method .initial).state.typeVars.contains =
      method.declaresVariable := by
  funext name
  rw [typeVars_checkMethod]
  exact MethodState.contains_checkTypeParams table name method.typeParams .initial

/-- In a method without errors, code generation finds the type that resolution
finds for an expression exactly if there is none to be found, or the expression
keeps its type: if it creates an array, no type variable of the method is in the
component type, and otherwise it is not built on an array without a type. -/
theorem exprType_eq_iff
    (clean : (checkMethod table options method .initial).state.Clean)
    {checked : Checked Expr}
    (member : checked ∈ method.resolutions table options) :
    (loweringContext table options method).exprType checked.node = checked.type ↔
      checked.type.isUnknown = true ∨
        checked.node.keepsType table.arities method.declaresVariable = true := by
  have wellFormed := Method.wellFormed_bodyState table method
  have meets : (CodeContext.mk table (checkMethod table options method .initial).state).Meets false
      checked :=
    CodeContext.meets_stmts wellFormed wellFormed.root (Stmt.areAllowed_lenient _)
      ⟨.refl _, clean⟩ checked member
  have marks := marks_loweringContext table options method
  have sameType : (loweringContext table options method).exprType checked.node =
      (CodeContext.mk table (checkMethod table options method .initial).state).exprType
        checked.node :=
    CodeContext.exprType_congr marks.sameType checked.node
  rw [sameType, ← contains_typeVars table options method]
  cases meets with
  | intro _ isAt settles =>
      exact CodeContext.exprType_checkExpr_iff isAt settles

end Methods

/-- A method that compares new arrays of its type parameter. -/
def Method.comparesNewArrays :
    Method where
  name := ⟨"m", .absent⟩
  typeParams := [⟨"T", none⟩]
  params := []
  returnType := some (.named .absent "boolean")
  body := {
    span := .absent
    stmts := [.returnWith .absent (some (.binary .absent .ne
      (.newArray .absent (.named .absent "T") []) (.newArray .absent (.named .absent "T") [])))]
    facts := .initial
  }

/-- Neither the type of a new array of a type parameter nor that of a comparison
with it is found again. -/
theorem comparesNewArrays_exprType :
    (checkMethod .builtin .standard .comparesNewArrays .initial).state.Clean ∧
      (Method.comparesNewArrays.resolutions .builtin .standard).length = 3 ∧
      ∀ checked ∈ Method.comparesNewArrays.resolutions .builtin .standard,
        (loweringContext .builtin .standard .comparesNewArrays).exprType checked.node ≠
          checked.type := by
  have clean : (checkMethod .builtin .standard .comparesNewArrays .initial).state.Clean := by
    decide +kernel
  have missed : (Method.comparesNewArrays.resolutions .builtin .standard).all (fun checked =>
      !checked.type.isUnknown && !checked.node.keepsType ClassTable.builtin.arities
        Method.comparesNewArrays.declaresVariable) = true := by
    decide +kernel
  refine ⟨clean, by decide +kernel, fun checked member found => ?_⟩
  have missedHere := List.all_eq_true.mp missed checked member
  rcases (exprType_eq_iff clean member).mp found with isUnknown | keeps
  · simp [isUnknown] at missedHere
  · simp [keeps] at missedHere

end LoopLowering
