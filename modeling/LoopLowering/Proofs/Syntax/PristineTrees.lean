import LoopLowering.Proofs.Flow.MethodReachability
import LoopLowering.Syntax.JsonForm

namespace LoopLowering

/-!
# Programs as they are read

A program that has been read is pristine: no pass has recorded anything about it, and
the positions in it fit in 64 bits, since offsets that do not are refused.
-/

/-- Whether a position fits in 64 bits. -/
def Span.fits
    (span : Span) :
    Bool :=
  decide (span.start ≤ 0xFFFFFFFFFFFFFFFF) && decide (span.stop ≤ 0xFFFFFFFFFFFFFFFF)

namespace TypeExpr

mutual

/-- Whether the positions in a written type fit. -/
def isPristine :
    TypeExpr → Bool
  | .named span _ | .wildcard span => span.fits
  | .generic span _ args => span.fits && arePristine args
  | .array span component => span.fits && component.isPristine
  | .wildcardExtends span bound => span.fits && bound.isPristine

/-- Whether the positions in written types fit. -/
def arePristine :
    List TypeExpr → Bool
  | [] => true
  | type :: rest => type.isPristine && arePristine rest

end

end TypeExpr

/-- Whether a use of a name has not been bound. -/
def NameRef.isPristine
    (ref : NameRef) :
    Bool :=
  ref.binding.isNone

namespace Expr

mutual

/-- Whether an expression is as it has been read. -/
def isPristine :
    Expr → Bool
  | .intLit span _ | .boolLit span _ | .stringLit span _ | .null span => span.fits
  | .name span ref => span.fits && ref.isPristine
  | .newArray span component elements =>
      span.fits && component.isPristine && arePristine elements
  | .binary span _ left right => span.fits && left.isPristine && right.isPristine
  | .assign span target _ value =>
      span.fits && target.span.fits && target.node.isPristine && value.isPristine
  | .call span function args => span.fits && function.span.fits && arePristine args
  | .methodCall span receiver method args =>
      span.fits && receiver.isPristine && method.span.fits && arePristine args

/-- Whether expressions are as they have been read. -/
def arePristine :
    List Expr → Bool
  | [] => true
  | expr :: rest => expr.isPristine && arePristine rest

end

end Expr

/-- Whether a local declaration is as it has been read. -/
def LocalDecl.isPristine
    (decl : LocalDecl) :
    Bool :=
  decl.name.span.fits && decl.type.isPristine && decl.initial.all Expr.isPristine &&
    decl.binding.isNone

namespace Stmt

mutual

/-- Whether a statement is as it has been read. -/
def isPristine :
    Stmt → Bool
  | .localVar span decl => span.fits && decl.isPristine
  | .expr span value => span.fits && value.isPristine
  | .block span stmts facts => span.fits && arePristine stmts && facts == .initial
  | .branch span condition thenBranch none =>
      span.fits && condition.isPristine && thenBranch.isPristine
  | .branch span condition thenBranch (some elseBranch) =>
      span.fits && condition.isPristine && thenBranch.isPristine && elseBranch.isPristine
  | .forEach span element collection none facts =>
      span.fits && element.isPristine && collection.isPristine && facts == .initial
  | .forEach span element collection (some action) facts =>
      span.fits && element.isPristine && collection.isPristine && action.isPristine &&
        facts == .initial
  | .labeled span label body => span.fits && label.span.fits && body.isPristine
  | .breakTo span label | .continueTo span label =>
      span.fits && label.all (fun name => name.span.fits)
  | .returnWith span value => span.fits && value.all Expr.isPristine
  | .empty span => span.fits

/-- Whether statements are as they have been read. -/
def arePristine :
    List Stmt → Bool
  | [] => true
  | stmt :: rest => stmt.isPristine && arePristine rest

end

end Stmt

/-- Whether a body is as it has been read. -/
def Block.isPristine
    (block : Block) :
    Bool :=
  block.span.fits && Stmt.arePristine block.stmts && block.facts == .initial

/-- Whether a type parameter is as it has been read. -/
def TypeParam.isPristine
    (param : TypeParam) :
    Bool :=
  param.bound.all TypeExpr.isPristine

/-- Whether a method parameter is as it has been read. -/
def Param.isPristine
    (param : Param) :
    Bool :=
  param.name.span.fits && param.type.isPristine && param.binding.isNone

/-- Whether a method is as it has been read. -/
def Method.isPristine
    (method : Method) :
    Bool :=
  method.name.span.fits && method.typeParams.all TypeParam.isPristine &&
    method.params.all Param.isPristine && method.returnType.all TypeExpr.isPristine &&
    method.body.isPristine

/-- Whether a method signature is as it has been read. -/
def MethodSignature.isPristine
    (signature : MethodSignature) :
    Bool :=
  signature.params.all TypeExpr.isPristine && signature.returnType.all TypeExpr.isPristine

/-- Whether a class declaration is as it has been read. -/
def ClassDecl.isPristine
    (decl : ClassDecl) :
    Bool :=
  decl.name.span.fits && decl.typeParams.all TypeParam.isPristine &&
    decl.superclass.all TypeExpr.isPristine && decl.interfaces.all TypeExpr.isPristine &&
    decl.methods.all MethodSignature.isPristine

/-- Whether a function declaration is as it has been read. -/
def FunctionDecl.isPristine
    (decl : FunctionDecl) :
    Bool :=
  decl.name.span.fits && decl.params.all TypeExpr.isPristine &&
    decl.returnType.all TypeExpr.isPristine

/-- Whether a declaration is as it has been read with its position. -/
def Spanned.isPristine
    (isPristine : α → Bool)
    (value : Spanned α) :
    Bool :=
  value.span.fits && isPristine value.node

/-- Whether a unit is as it has been read. -/
def CompilationUnit.isPristine
    (unit : CompilationUnit) :
    Bool :=
  unit.classes.all (Spanned.isPristine ClassDecl.isPristine) &&
    unit.functions.all (Spanned.isPristine FunctionDecl.isPristine) &&
    unit.methods.all (Spanned.isPristine Method.isPristine)

/-! ## What is read is pristine -/

/-- Written types are pristine if each of them is. -/
theorem TypeExpr.arePristine_iff
    {types : List TypeExpr} :
    arePristine types = true ↔ ∀ type ∈ types, type.isPristine = true := by
  induction types with
  | nil =>
      simp [arePristine]
  | cons type rest inductionHypothesis =>
      simp [arePristine, inductionHypothesis]

/-- Expressions are pristine if each of them is. -/
theorem Expr.arePristine_iff
    {exprs : List Expr} :
    arePristine exprs = true ↔ ∀ expr ∈ exprs, expr.isPristine = true := by
  induction exprs with
  | nil =>
      simp [arePristine]
  | cons expr rest inductionHypothesis =>
      simp [arePristine, inductionHypothesis]

/-- Statements are pristine if each of them is. -/
theorem Stmt.arePristine_iff
    {stmts : List Stmt} :
    arePristine stmts = true ↔ ∀ stmt ∈ stmts, stmt.isPristine = true := by
  induction stmts with
  | nil =>
      simp [arePristine]
  | cons stmt rest inductionHypothesis =>
      simp [arePristine, inductionHypothesis]

namespace Json.Gives

variable
  {α : Type}
  {property : α → Prop}

/-- A member that has a default has the property if the default has it. -/
theorem defaulted
    {read : Json → Json.Shaped α}
    {absent : α}
    (default : property absent)
    (gives : ∀ json, Gives (read json) property)
    (name : String)
    (members : List (String × Json)) :
    Gives (Json.defaulted name absent read members) property := by
  refine after fun member? => ?_
  cases member? with
  | none =>
      exact pure default
  | some json =>
      exact gives json

/-- A value that may be null has the property if it is there. -/
theorem nullable
    {read : Json → Json.Shaped α}
    (gives : ∀ json, Gives (read json) property)
    (json : Json) :
    Gives (Json.nullable read json) fun value? => ∀ value, value? = some value →
      property value := by
  simp only [Json.nullable]
  split
  · exact pure (by simp)
  · exact (gives json).map fun value holds other same => Option.some.inj same ▸ holds

/-- A variant that carries nothing is what it stands for. -/
theorem bare
    {variant : Variant}
    {value : α}
    (holds : property value) :
    Gives (variant.bare value) property := by
  unfold Variant.bare
  split
  · exact pure holds
  · exact pure holds
  · exact error _

/-- An offset that is read fits. -/
theorem asOffset
    (json : Json) :
    Gives json.asOffset fun offset => offset ≤ 0xFFFFFFFFFFFFFFFF := by
  have bounded : Gives (json.asIntBetween 0 0xFFFFFFFFFFFFFFFF) fun value =>
      value ≤ 0xFFFFFFFFFFFFFFFF := by
    unfold Json.asIntBetween
    split
    · split
      · next within =>
          exact pure within.2
      · exact error _
    · exact error _
  exact bounded.bind fun value atMost => pure (by omega)

/-- A position that is read fits. -/
theorem span
    (json : Json) :
    Gives (Span.ofJson json) fun span => span.fits = true :=
  after fun _ => after fun start => bind (asOffset start) fun _ startFits =>
    after fun stop => bind (asOffset stop) fun _ stopFits =>
      pure (by simp [Span.fits, startFits, stopFits])

/-- What is given in a place that fits is given. -/
theorem placedWithin
    {read : Span → Json → Json.Shaped α}
    (gives : ∀ span json, span.fits = true → Gives (read span json) property)
    (json : Json) :
    Gives (readPlaced read json) property :=
  after fun members => after fun node =>
    bind (defaulted (by decide) span "span" members) fun place fits => gives place node fits

/-- The position of a name that is read fits. -/
theorem name
    (json : Json) :
    Gives (LoopLowering.readName json) fun name => name.span.fits = true :=
  placedWithin (fun _ _ fits => after fun _ => pure fits) json

/-- What is read for an optional member is there or not, and has a property if it is
there. -/
theorem all_of_forall
    {test : α → Bool}
    {value? : Option α}
    (holds : ∀ value, value? = some value → test value = true) :
    value?.all test = true := by
  cases value? with
  | none =>
      rfl
  | some value =>
      exact holds value rfl

end Json.Gives

/-- A written type that is read is pristine. -/
theorem TypeExpr.isPristine_ofNodeWithin :
    ∀ (fuel : Nat) (span : Span) (json : Json),
      span.fits = true →
      Json.Gives (ofNodeWithin fuel span json) fun type => type.isPristine = true
  | 0, _, _, _ => .error _
  | fuel + 1, span, json, fits => by
      have placed := Json.Gives.placedWithin (isPristine_ofNodeWithin fuel)
      unfold ofNodeWithin
      refine .after fun variant => ?_
      split
      · exact .after fun _ => .after fun _ => .pure fits
      · exact .after fun members => .after fun _ => .after fun _ => .after fun args =>
          .bind (.listOf placed args) fun _ pristine => .pure (by
            simp [isPristine, fits, arePristine_iff.mpr pristine])
      · exact .after fun payload => .bind (placed payload) fun _ pristine => .pure (by
          simp [isPristine, fits, pristine])
      · refine .after fun members => .bind (.optional placed _ members) fun bound pristine => ?_
        cases bound with
        | none =>
            exact .pure fits
        | some bound =>
            exact .pure (by simp [isPristine, fits, pristine bound rfl])
      · exact .error _

/-- A written type that is read with its position is pristine. -/
theorem TypeExpr.isPristine_ofJson
    (json : Json) :
    Json.Gives (ofJson json) fun type => type.isPristine = true :=
  .placedWithin (fun span node fits => isPristine_ofNodeWithin _ span node fits) json

/-- A use of a name that is read is not bound. -/
theorem NameRef.isPristine_ofJson
    (json : Json) :
    Json.Gives (ofJson json) fun ref => ref.isPristine = true :=
  .after fun _ => .after fun _ => .after fun _ => .pure rfl

/-- An expression that is read is pristine. -/
theorem Expr.isPristine_ofNodeWithin :
    ∀ (fuel : Nat) (span : Span) (json : Json),
      span.fits = true →
      Json.Gives (ofNodeWithin fuel span json) fun expr => expr.isPristine = true
  | 0, _, _, _ => .error _
  | fuel + 1, span, json, fits => by
      have placed := Json.Gives.placedWithin (isPristine_ofNodeWithin fuel)
      unfold ofNodeWithin
      refine .after fun variant => ?_
      split
      · exact .after fun _ => .after fun _ => .pure fits
      · exact .after fun _ => .after fun _ => .pure fits
      · exact .after fun _ => .after fun _ => .pure fits
      · exact .bare fits
      · exact .after fun payload => .bind (NameRef.isPristine_ofJson payload) fun _ pristine =>
          .pure (by simp [isPristine, fits, pristine])
      · exact .after fun members => .after fun component =>
          .bind (TypeExpr.isPristine_ofJson component) fun _ typed => .after fun elements =>
            .bind (.listOf placed elements) fun _ pristine => .pure (by
              simp [isPristine, fits, typed, arePristine_iff.mpr pristine])
      · exact .after fun members => .after fun _ => .after fun _ => .after fun left =>
          .bind (placed left) fun _ leftPristine => .after fun right =>
            .bind (placed right) fun _ rightPristine => .pure (by
              simp [isPristine, fits, leftPristine, rightPristine])
      · refine .after fun members => .after fun target => ?_
        have named : Json.Gives
            (readPlaced (fun place node => return ⟨← NameRef.ofJson node, place⟩) target)
            fun (target : Spanned NameRef) =>
              target.span.fits = true ∧ target.node.isPristine = true :=
          .placedWithin (fun _ node placeFits => .bind (NameRef.isPristine_ofJson node)
            fun _ unbound => .pure ⟨placeFits, unbound⟩) target
        exact .bind named fun _ targetPristine => .after fun _ => .after fun value =>
          .bind (placed value) fun _ pristine => .pure (by
            simp [isPristine, fits, targetPristine, pristine])
      · exact .after fun members => .after fun function =>
          .bind (.name function) fun _ functionFits => .after fun args =>
            .bind (.listOf placed args) fun _ pristine => .pure (by
              simp [isPristine, fits, functionFits, arePristine_iff.mpr pristine])
      · exact .after fun members => .after fun receiver =>
          .bind (placed receiver) fun _ receiverPristine => .after fun method =>
            .bind (.name method) fun _ methodFits => .after fun args =>
              .bind (.listOf placed args) fun _ pristine => .pure (by
                simp [isPristine, fits, receiverPristine, methodFits, arePristine_iff.mpr pristine])
      · exact .error _

/-- An expression that is read with its position is pristine. -/
theorem Expr.isPristine_ofJson
    (json : Json) :
    Json.Gives (ofJson json) fun expr => expr.isPristine = true :=
  .placedWithin (fun span node fits => isPristine_ofNodeWithin _ span node fits) json

/-- A local declaration that is read is pristine. -/
theorem LocalDecl.isPristine_ofJson
    (json : Json) :
    Json.Gives (ofJson json) fun decl => decl.isPristine = true :=
  .after fun members => .after fun name => .bind (.name name) fun _ nameFits =>
    .after fun type => .bind (TypeExpr.isPristine_ofJson type) fun _ typed =>
      .bind (.optional Expr.isPristine_ofJson _ members) fun _ initial => .after fun _ =>
        .pure (by simp [isPristine, nameFits, typed, Json.Gives.all_of_forall initial])

/-- A statement that is read is pristine. -/
theorem Stmt.isPristine_ofNodeWithin :
    ∀ (fuel : Nat) (span : Span) (json : Json),
      span.fits = true →
      Json.Gives (ofNodeWithin fuel span json) fun stmt => stmt.isPristine = true
  | 0, _, _, _ => .error _
  | fuel + 1, span, json, fits => by
      have placed := Json.Gives.placedWithin (isPristine_ofNodeWithin fuel)
      unfold ofNodeWithin
      refine .after fun variant => ?_
      split
      · exact .after fun payload => .bind (LocalDecl.isPristine_ofJson payload)
          fun _ pristine => .pure (by simp [isPristine, fits, pristine])
      · exact .after fun payload => .bind (Expr.isPristine_ofJson payload)
          fun _ pristine => .pure (by simp [isPristine, fits, pristine])
      · exact .after fun members => .after fun stmts => .bind (.listOf placed stmts)
          fun _ pristine => .pure (by simp [isPristine, fits, arePristine_iff.mpr pristine])
      · refine .after fun members => .after fun condition =>
          .bind (Expr.isPristine_ofJson condition) fun _ tested => .after fun thenBranch =>
            .bind (placed thenBranch) fun _ thenPristine =>
              .bind (.optional placed _ members) fun elseBranch elsePristine => .pure ?_
        cases elseBranch with
        | none =>
            simp [isPristine, fits, tested, thenPristine]
        | some elseBranch =>
            simp [isPristine, fits, tested, thenPristine, elsePristine elseBranch rfl]
      · refine .after fun members => .after fun element =>
          .bind (LocalDecl.isPristine_ofJson element) fun _ declared => .after fun collection =>
            .bind (Expr.isPristine_ofJson collection) fun _ iterated =>
              .bind (.optional placed _ members) fun action pristine => .pure ?_
        cases action with
        | none =>
            simp [isPristine, fits, declared, iterated]
        | some action =>
            simp [isPristine, fits, declared, iterated, pristine action rfl]
      · exact .after fun members => .after fun label => .bind (.name label) fun _ labelFits =>
          .after fun body => .bind (placed body) fun _ pristine => .pure (by
            simp [isPristine, fits, labelFits, pristine])
      · exact .after fun payload => .bind (.nullable .name payload) fun _ labelFits =>
          .pure (by
            simp only [isPristine, fits, Bool.true_and]
            exact Json.Gives.all_of_forall labelFits)
      · exact .after fun payload => .bind (.nullable .name payload) fun _ labelFits =>
          .pure (by
            simp only [isPristine, fits, Bool.true_and]
            exact Json.Gives.all_of_forall labelFits)
      · exact .after fun payload => .bind (.nullable Expr.isPristine_ofJson payload)
          fun _ pristine => .pure (by
            simp only [isPristine, fits, Bool.true_and]
            exact Json.Gives.all_of_forall pristine)
      · exact .bare fits
      · exact .error _

/-- A statement that is read with its position is pristine. -/
theorem Stmt.isPristine_ofJson
    (json : Json) :
    Json.Gives (ofJson json) fun stmt => stmt.isPristine = true :=
  .placedWithin (fun span node fits => isPristine_ofNodeWithin _ span node fits) json

/-- A body that is read is pristine. -/
theorem Block.isPristine_ofJson
    (json : Json) :
    Json.Gives (ofJson json) fun block => block.isPristine = true :=
  .placedWithin (fun _ _ fits => .after fun _ => .after fun stmts =>
    .bind (.listOf Stmt.isPristine_ofJson stmts) fun _ pristine => .pure (by
      simp [isPristine, fits, Stmt.arePristine_iff.mpr pristine])) json

/-- A type parameter that is read is pristine. -/
theorem TypeParam.isPristine_ofJson
    (json : Json) :
    Json.Gives (ofJson json) fun param => param.isPristine = true :=
  .after fun members => .after fun _ => .after fun _ =>
    .bind (.optional TypeExpr.isPristine_ofJson _ members) fun _ bound =>
      .pure (Json.Gives.all_of_forall bound)

/-- A method parameter that is read is pristine. -/
theorem Param.isPristine_ofJson
    (json : Json) :
    Json.Gives (ofJson json) fun param => param.isPristine = true :=
  .after fun _ => .after fun name => .bind (.name name) fun _ nameFits => .after fun type =>
    .bind (TypeExpr.isPristine_ofJson type) fun _ typed => .after fun _ => .pure (by
      simp [isPristine, nameFits, typed])

/-- A method that is read is pristine. -/
theorem Method.isPristine_ofJson
    (json : Json) :
    Json.Gives (ofJson json) fun method => method.isPristine = true :=
  .after fun members => .after fun name => .bind (.name name) fun _ nameFits =>
    .bind (.defaulted (by simp) (.listOf TypeParam.isPristine_ofJson) _ members) fun _ typeParams =>
      .bind (.defaulted (by simp) (.listOf Param.isPristine_ofJson) _ members) fun _ params =>
        .bind (.optional TypeExpr.isPristine_ofJson _ members) fun _ returnType =>
          .after fun body => .bind (Block.isPristine_ofJson body) fun _ pristine => .pure (by
            simp only [isPristine, nameFits, pristine, Json.Gives.all_of_forall returnType,
              List.all_eq_true.mpr typeParams, List.all_eq_true.mpr params, Bool.and_self])

/-- A method signature that is read is pristine. -/
theorem MethodSignature.isPristine_ofJson
    (json : Json) :
    Json.Gives (ofJson json) fun signature => signature.isPristine = true :=
  .after fun members => .after fun _ => .after fun _ =>
    .bind (.defaulted (by simp) (.listOf TypeExpr.isPristine_ofJson) _ members) fun _ params =>
      .bind (.optional TypeExpr.isPristine_ofJson _ members) fun _ returnType => .pure (by
        simp only [isPristine, Json.Gives.all_of_forall returnType, List.all_eq_true.mpr params,
          Bool.and_self])

/-- A class declaration that is read is pristine. -/
theorem ClassDecl.isPristine_ofJson
    (json : Json) :
    Json.Gives (ofJson json) fun decl => decl.isPristine = true :=
  .after fun members => .after fun name => .bind (.name name) fun _ nameFits =>
    .bind (.defaulted (by simp) (.listOf TypeParam.isPristine_ofJson) _ members) fun _ typeParams =>
      .after fun _ => .bind (.optional TypeExpr.isPristine_ofJson _ members) fun _ superclass =>
        .bind (.defaulted (by simp) (.listOf TypeExpr.isPristine_ofJson) _ members)
          fun _ interfaces =>
            .bind (.defaulted (by simp) (.listOf MethodSignature.isPristine_ofJson) _ members)
              fun _ methods => .pure (by
                simp only [isPristine, nameFits, Json.Gives.all_of_forall superclass,
                  List.all_eq_true.mpr typeParams, List.all_eq_true.mpr interfaces,
                  List.all_eq_true.mpr methods, Bool.and_self])

/-- A function declaration that is read is pristine. -/
theorem FunctionDecl.isPristine_ofJson
    (json : Json) :
    Json.Gives (ofJson json) fun decl => decl.isPristine = true :=
  .after fun members => .after fun name => .bind (.name name) fun _ nameFits =>
    .bind (.defaulted (by simp) (.listOf TypeExpr.isPristine_ofJson) _ members) fun _ params =>
      .bind (.optional TypeExpr.isPristine_ofJson _ members) fun _ returnType => .pure (by
        simp only [isPristine, nameFits, Json.Gives.all_of_forall returnType,
          List.all_eq_true.mpr params, Bool.and_self])

/-- A declaration that is read with its position is pristine if it is without. -/
theorem Spanned.isPristine_ofJson
    {α : Type}
    {read : Json → Json.Shaped α}
    {isPristine : α → Bool}
    (gives : ∀ json, Json.Gives (read json) fun value => isPristine value = true)
    (json : Json) :
    Json.Gives (Spanned.ofJson read json) fun value => value.isPristine isPristine = true :=
  .placedWithin (fun _ node fits => .bind (gives node) fun _ pristine => .pure (by
    simp [Spanned.isPristine, fits, pristine])) json

/-- A unit that is read is pristine. -/
theorem CompilationUnit.isPristine_ofJson
    (json : Json) :
    Json.Gives (ofJson json) fun unit => unit.isPristine = true :=
  .after fun members => .after fun _ => .after fun _ => .after fun _ =>
    .bind (.defaulted (by simp) (.listOf (Spanned.isPristine_ofJson ClassDecl.isPristine_ofJson)) _
      members) fun _ classes =>
      .bind (.defaulted (by simp)
        (.listOf (Spanned.isPristine_ofJson FunctionDecl.isPristine_ofJson)) _ members)
        fun _ functions =>
          .bind (.defaulted (by simp)
            (.listOf (Spanned.isPristine_ofJson Method.isPristine_ofJson)) _ members)
            fun _ methods => .pure (by
              simp only [isPristine, List.all_eq_true.mpr classes,
                List.all_eq_true.mpr functions, List.all_eq_true.mpr methods, Bool.and_self])

end LoopLowering
