import LoopLowering.Proofs.Syntax.PristineTrees

namespace LoopLowering

/-!
# The JSON form of programs round-trips

What is written is read back, if it is as it has been read: writing leaves out what
passes record, and reading refuses positions that do not fit. So a program that has
been read is read again from its own JSON form.

Readers of nested forms are limited in depth. That they read a form back is stated for
every limit that its depth keeps to, since a part is read with the limit of the whole.
-/

/-! ## Shapes -/

namespace Json

@[simp] theorem ok_bind
    {α β : Type}
    (value : α)
    (next : α → Shaped β) :
    (Except.ok value >>= next) = next value :=
  rfl

@[simp] theorem pure_eq
    {α : Type}
    (value : α) :
    (pure value : Shaped α) = .ok value :=
  rfl

@[simp] theorem members_object
    (members : List (String × Json)) :
    (Json.object members).members = .ok members :=
  rfl

@[simp] theorem asString_string
    (value : String) :
    (Json.string value).asString = .ok value :=
  rfl

@[simp] theorem asBool_bool
    (value : Bool) :
    (Json.bool value).asBool = .ok value :=
  rfl

@[simp] theorem asInt32_int
    (value : Int32) :
    (Json.int value.toInt).asInt32 = .ok value := by
  have least := value.le_toInt
  have greatest := value.toInt_lt
  have within : -0x80000000 ≤ value.toInt ∧ value.toInt ≤ 0x7FFFFFFF := by
    omega
  simp [asInt32, asIntBetween, within]

/-- An offset that fits is read. -/
theorem asOffset_int
    {offset : Nat}
    (fits : offset ≤ 0xFFFFFFFFFFFFFFFF) :
    (Json.int offset).asOffset = .ok offset := by
  have within : 0 ≤ (offset : Int) ∧ (offset : Int) ≤ 0xFFFFFFFFFFFFFFFF := by
    omega
  simp [asOffset, asIntBetween, within]

@[simp] theorem variant_taggedJson
    (tag : String)
    (payload : Json) :
    (taggedJson tag payload).variant = .ok ⟨tag, some payload⟩ :=
  rfl

@[simp] theorem variant_string
    (tag : String) :
    (Json.string tag).variant = .ok ⟨tag, none⟩ :=
  rfl

@[simp] theorem payload_some
    (tag : String)
    (payload : Json) :
    (Variant.mk tag (some payload)).payload = .ok payload :=
  rfl

@[simp] theorem variantMembers_object
    (tag : String)
    (members : List (String × Json)) :
    (Variant.mk tag (some (.object members))).members = .ok members :=
  rfl

@[simp] theorem bare_none
    {α : Type}
    (tag : String)
    (value : α) :
    (Variant.mk tag none).bare value = .ok value :=
  rfl

/-- A value that is not null is read as what it stands for. -/
theorem nullable_eq_ok
    {α : Type}
    {read : Json → Shaped α}
    {json : Json}
    {value : α}
    (notNull : json ≠ .null)
    (isRead : read json = .ok value) :
    nullable read json = .ok (some value) := by
  unfold nullable
  split
  · exact absurd rfl notNull
  · rw [isRead]
    rfl

/-- A value that may be absent is read back if it is when it is there. -/
theorem nullable_optionJson
    {α : Type}
    {write : α → Json}
    {read : Json → Shaped α}
    {value? : Option α}
    (notNull : ∀ value, write value ≠ .null)
    (isRead : ∀ value, value? = some value → read (write value) = .ok value) :
    nullable read (optionJson write value?) = .ok value? := by
  cases value? with
  | none =>
      rfl
  | some value =>
      exact nullable_eq_ok (notNull value) (isRead value rfl)

/-- An array is read if its first item and the others are. -/
theorem listOf_cons
    {α : Type}
    {read : Json → Shaped α}
    {item : Json}
    {rest : List Json}
    {value : α}
    {values : List α}
    (head : read item = .ok value)
    (tail : listOf read (.array rest) = .ok values) :
    listOf read (.array (item :: rest)) = .ok (value :: values) := by
  simp only [listOf, items, ok_bind] at tail ⊢
  simp [head, tail]

/-- Values are read back if each of them is. -/
theorem listOf_listJson
    {α : Type}
    {write : α → Json}
    {read : Json → Shaped α}
    {values : List α}
    (isRead : ∀ value ∈ values, read (write value) = .ok value) :
    listOf read (listJson write values) = .ok values := by
  induction values with
  | nil =>
      rfl
  | cons value rest inductionHypothesis =>
      have head := isRead value (by simp)
      have tail := inductionHypothesis fun other member => isRead other (by simp [member])
      exact listOf_cons head tail

end Json

/-! ## Positions and names -/

/-- A position that fits is read back. -/
theorem Span.ofJson_toJson
    {span : Span}
    (fits : span.fits = true) :
    Span.ofJson span.toJson = .ok span := by
  simp only [Span.fits, Bool.and_eq_true, decide_eq_true_eq] at fits
  simp [ofJson, toJson, Json.required, Json.member?, Json.asOffset_int fits.1,
    Json.asOffset_int fits.2]

/-- What is written with its position is read with it. -/
theorem readPlaced_placedJson
    {α : Type}
    {read : Span → Json → Json.Shaped α}
    {span : Span}
    (fits : span.fits = true)
    (node : Json) :
    readPlaced read (placedJson span node) = read span node := by
  simp [readPlaced, placedJson, Json.required, Json.defaulted, Json.member?,
    Span.ofJson_toJson fits]

/-- What is written with its position is not null. -/
theorem placedJson_ne_null
    (span : Span)
    (node : Json) :
    placedJson span node ≠ .null := by
  simp [placedJson]

/-- A name whose position fits is read back. -/
theorem readName_nameJson
    {name : Spanned String}
    (fits : name.span.fits = true) :
    readName (nameJson name) = .ok name := by
  simp [readName, nameJson, readPlaced_placedJson fits]

/-- An operator is read back. -/
theorem BinOp.ofJson_toJson
    (op : BinOp) :
    BinOp.ofJson op.toJson = .ok op := by
  cases op <;> rfl

/-- A use of a name that is not bound is read back. -/
theorem NameRef.ofJson_toJson
    {ref : NameRef}
    (pristine : ref.isPristine = true) :
    NameRef.ofJson ref.toJson = .ok ref := by
  obtain ⟨name, binding⟩ := ref
  obtain rfl := Option.isNone_iff_eq_none.mp pristine
  simp [ofJson, toJson, Json.required, Json.member?, unbound]

/-! ## Nested forms -/

/-- The JSON form of a node with its position is read back by a reader that is limited
in depth, whenever the node keeps to the limit. -/
inductive ReadsBack
    {α : Type}
    (read : (limit : Nat) → Span → Json → Json.Shaped α) :
    Json → α → Prop where
  | placed
      {span : Span}
      {node : Json}
      {value : α}
      (fits : span.fits = true)
      (reads : ∀ limit, node.depth ≤ limit → read (limit + 1) span node = .ok value) :
      ReadsBack read (placedJson span node) value

namespace ReadsBack

variable
  {α : Type}
  {read : Nat → Span → Json → Json.Shaped α}
  {json : Json}
  {value : α}

/-- A form is read back as a part of one that keeps to the limit. -/
theorem within
    (readsBack : ReadsBack read json value)
    (limit : Nat)
    (bounded : json.depth ≤ limit) :
    readPlaced (read limit) json = .ok value := by
  cases readsBack with
  | @placed span node _ fits reads =>
      rw [readPlaced_placedJson fits]
      simp only [placedJson, Json.depth, Json.depthOfMembers] at bounded
      obtain ⟨less, rfl⟩ : ∃ less, limit = less + 1 := ⟨limit - 1, by omega⟩
      exact reads less (by omega)

/-- A form is read back by itself. -/
theorem whole
    (readsBack : ReadsBack read json value) :
    readPlaced (fun span node => read (node.depth + 1) span node) json = .ok value := by
  cases readsBack with
  | placed fits reads =>
      rw [readPlaced_placedJson fits]
      exact reads _ (Nat.le_refl _)

/-- What is read back is not null. -/
theorem ne_null
    (readsBack : ReadsBack read json value) :
    json ≠ .null := by
  cases readsBack with
  | placed =>
      exact placedJson_ne_null _ _

/-- A form that may be absent is read back as a part of one that keeps to the limit. -/
theorem nullable
    (readsBack : ReadsBack read json value)
    (limit : Nat)
    (bounded : json.depth ≤ limit) :
    Json.nullable (readPlaced (read limit)) json = .ok (some value) :=
  Json.nullable_eq_ok readsBack.ne_null (readsBack.within limit bounded)

end ReadsBack

namespace TypeExpr

mutual

/-- A pristine written type is read back. -/
theorem readsBack :
    ∀ {type : TypeExpr},
      type.isPristine = true →
      ReadsBack ofNodeWithin type.toJson type
  | .named span name, pristine => by
      rw [toJson]
      refine .placed pristine fun limit _ => ?_
      simp [ofNodeWithin]
  | .wildcard span, pristine => by
      rw [toJson]
      refine .placed pristine fun limit _ => ?_
      rw [ofNodeWithin, Json.variant_taggedJson, Json.ok_bind]
      simp [Json.optional, Json.member?, Json.nullable]
  | .generic span name args, pristine => by
      simp only [isPristine, Bool.and_eq_true] at pristine
      rw [toJson]
      refine .placed pristine.1 fun limit bounded => ?_
      simp only [taggedJson, Json.depth, Json.depthOfMembers] at bounded
      have arguments := listOf_toJsonAll limit pristine.2 (by omega)
      rw [ofNodeWithin, Json.variant_taggedJson, Json.ok_bind]
      simp [Json.required, Json.member?, arguments]
  | .array span component, pristine => by
      simp only [isPristine, Bool.and_eq_true] at pristine
      rw [toJson]
      refine .placed pristine.1 fun limit bounded => ?_
      simp only [taggedJson, Json.depth, Json.depthOfMembers] at bounded
      have isRead := (readsBack pristine.2).within limit (by omega)
      rw [ofNodeWithin, Json.variant_taggedJson, Json.ok_bind]
      simp [isRead]
  | .wildcardExtends span bound, pristine => by
      simp only [isPristine, Bool.and_eq_true] at pristine
      rw [toJson]
      refine .placed pristine.1 fun limit bounded => ?_
      simp only [taggedJson, Json.depth, Json.depthOfMembers] at bounded
      have isRead := (readsBack pristine.2).nullable limit (by omega)
      rw [ofNodeWithin, Json.variant_taggedJson, Json.ok_bind]
      simp [Json.optional, Json.member?, isRead]

theorem listOf_toJsonAll
    (limit : Nat) :
    ∀ {types : List TypeExpr},
      arePristine types = true →
      Json.depthOfItems (toJsonAll types) ≤ limit →
      Json.listOf (readPlaced (ofNodeWithin limit)) (.array (toJsonAll types)) = .ok types
  | [], _, _ => rfl
  | type :: rest, pristine, bounded => by
      simp only [arePristine, Bool.and_eq_true] at pristine
      simp only [toJsonAll, Json.depthOfItems] at bounded
      have head := (readsBack pristine.1).within limit (by omega)
      have tail := listOf_toJsonAll limit pristine.2 (by omega)
      exact Json.listOf_cons head tail

end

/-- A pristine written type is read back by itself. -/
theorem ofJson_toJson
    {type : TypeExpr}
    (pristine : type.isPristine = true) :
    ofJson type.toJson = .ok type :=
  (readsBack pristine).whole

/-- The JSON form of a written type is not null. -/
theorem toJson_ne_null
    (type : TypeExpr) :
    type.toJson ≠ .null := by
  cases type <;> rw [toJson] <;> exact placedJson_ne_null _ _

/-- Pristine written types are read back by themselves. -/
theorem listOf_listJson
    {types : List TypeExpr}
    (pristine : types.all isPristine = true) :
    Json.listOf ofJson (listJson toJson types) = .ok types :=
  Json.listOf_listJson fun type member =>
    ofJson_toJson (List.all_eq_true.mp pristine type member)

/-- A pristine written type that may be absent is read back. -/
theorem nullable_optionJson
    {type? : Option TypeExpr}
    (pristine : type?.all isPristine = true) :
    Json.nullable ofJson (optionJson toJson type?) = .ok type? :=
  Json.nullable_optionJson toJson_ne_null fun type isType =>
    ofJson_toJson (by simpa [isType] using pristine)

end TypeExpr

namespace Expr

mutual

/-- A pristine expression is read back. -/
theorem readsBack :
    ∀ {expr : Expr},
      expr.isPristine = true →
      ReadsBack ofNodeWithin expr.toJson expr
  | .intLit span value, pristine | .boolLit span value, pristine
  | .stringLit span value, pristine | .null span, pristine => by
      rw [toJson]
      refine .placed pristine fun limit _ => ?_
      simp [ofNodeWithin]
  | .name span ref, pristine => by
      simp only [isPristine, Bool.and_eq_true] at pristine
      rw [toJson]
      refine .placed pristine.1 fun limit _ => ?_
      rw [ofNodeWithin, Json.variant_taggedJson, Json.ok_bind]
      simp [NameRef.ofJson_toJson pristine.2]
  | .newArray span component elements, pristine => by
      simp only [isPristine, Bool.and_eq_true] at pristine
      obtain ⟨⟨fits, typed⟩, elementsPristine⟩ := pristine
      rw [toJson]
      refine .placed fits fun limit bounded => ?_
      simp only [taggedJson, Json.depth, Json.depthOfMembers] at bounded
      have readElements := listOf_toJsonAll limit elementsPristine (by omega)
      rw [ofNodeWithin, Json.variant_taggedJson, Json.ok_bind]
      simp [Json.required, Json.member?, TypeExpr.ofJson_toJson typed, readElements]
  | .binary span op left right, pristine => by
      simp only [isPristine, Bool.and_eq_true] at pristine
      obtain ⟨⟨fits, leftPristine⟩, rightPristine⟩ := pristine
      rw [toJson]
      refine .placed fits fun limit bounded => ?_
      simp only [taggedJson, Json.depth, Json.depthOfMembers] at bounded
      have readLeft := (readsBack leftPristine).within limit (by omega)
      have readRight := (readsBack rightPristine).within limit (by omega)
      rw [ofNodeWithin, Json.variant_taggedJson, Json.ok_bind]
      simp [Json.required, Json.member?, op.ofJson_toJson, readLeft, readRight]
  | .assign span target op value, pristine => by
      simp only [isPristine, Bool.and_eq_true] at pristine
      obtain ⟨⟨⟨fits, targetFits⟩, unbound⟩, valuePristine⟩ := pristine
      rw [toJson]
      refine .placed fits fun limit bounded => ?_
      simp only [taggedJson, Json.depth, Json.depthOfMembers] at bounded
      have readValue := (readsBack valuePristine).within limit (by omega)
      have readOp : Json.nullable BinOp.ofJson (optionJson BinOp.toJson op) = .ok op :=
        Json.nullable_optionJson (by simp [BinOp.toJson]) fun op _ => op.ofJson_toJson
      rw [ofNodeWithin, Json.variant_taggedJson, Json.ok_bind]
      simp [Json.required, Json.optional, Json.member?,
        readPlaced_placedJson targetFits, NameRef.ofJson_toJson unbound, readOp, readValue]
  | .call span function args, pristine => by
      simp only [isPristine, Bool.and_eq_true] at pristine
      obtain ⟨⟨fits, functionFits⟩, argsPristine⟩ := pristine
      rw [toJson]
      refine .placed fits fun limit bounded => ?_
      simp only [taggedJson, Json.depth, Json.depthOfMembers] at bounded
      have readArgs := listOf_toJsonAll limit argsPristine (by omega)
      rw [ofNodeWithin, Json.variant_taggedJson, Json.ok_bind]
      simp [Json.required, Json.member?, readName_nameJson functionFits, readArgs]
  | .methodCall span receiver method args, pristine => by
      simp only [isPristine, Bool.and_eq_true] at pristine
      obtain ⟨⟨⟨fits, receiverPristine⟩, methodFits⟩, argsPristine⟩ := pristine
      rw [toJson]
      refine .placed fits fun limit bounded => ?_
      simp only [taggedJson, Json.depth, Json.depthOfMembers] at bounded
      have readReceiver := (readsBack receiverPristine).within limit (by omega)
      have readArgs := listOf_toJsonAll limit argsPristine (by omega)
      rw [ofNodeWithin, Json.variant_taggedJson, Json.ok_bind]
      simp [Json.required, Json.member?, readReceiver, readName_nameJson methodFits,
        readArgs]

theorem listOf_toJsonAll
    (limit : Nat) :
    ∀ {exprs : List Expr},
      arePristine exprs = true →
      Json.depthOfItems (toJsonAll exprs) ≤ limit →
      Json.listOf (readPlaced (ofNodeWithin limit)) (.array (toJsonAll exprs)) = .ok exprs
  | [], _, _ => rfl
  | expr :: rest, pristine, bounded => by
      simp only [arePristine, Bool.and_eq_true] at pristine
      simp only [toJsonAll, Json.depthOfItems] at bounded
      have head := (readsBack pristine.1).within limit (by omega)
      have tail := listOf_toJsonAll limit pristine.2 (by omega)
      exact Json.listOf_cons head tail

end

/-- A pristine expression is read back by itself. -/
theorem ofJson_toJson
    {expr : Expr}
    (pristine : expr.isPristine = true) :
    ofJson expr.toJson = .ok expr :=
  (readsBack pristine).whole

/-- The JSON form of an expression is not null. -/
theorem toJson_ne_null
    (expr : Expr) :
    expr.toJson ≠ .null := by
  cases expr <;> rw [toJson] <;> exact placedJson_ne_null _ _

/-- A pristine expression that may be absent is read back. -/
theorem nullable_optionJson
    {expr? : Option Expr}
    (pristine : expr?.all isPristine = true) :
    Json.nullable ofJson (optionJson toJson expr?) = .ok expr? :=
  Json.nullable_optionJson toJson_ne_null fun expr isExpr =>
    ofJson_toJson (by simpa [isExpr] using pristine)

end Expr

/-- A pristine local declaration is read back. -/
theorem LocalDecl.ofJson_toJson
    {decl : LocalDecl}
    (pristine : decl.isPristine = true) :
    LocalDecl.ofJson decl.toJson = .ok decl := by
  obtain ⟨name, type, initial, isFinal, binding⟩ := decl
  simp only [isPristine, Bool.and_eq_true, Option.isNone_iff_eq_none] at pristine
  obtain ⟨⟨⟨nameFits, typed⟩, initialPristine⟩, rfl⟩ := pristine
  simp [ofJson, toJson, Json.required, Json.optional, Json.defaulted, Json.member?,
    readName_nameJson nameFits, TypeExpr.ofJson_toJson typed,
    Expr.nullable_optionJson initialPristine]

namespace Stmt

/-- A name that may be absent is read back if its position fits. -/
theorem nullable_optionJson
    {label : Option (Spanned String)}
    (fits : label.all (fun name => name.span.fits) = true) :
    Json.nullable readName (optionJson nameJson label) = .ok label :=
  Json.nullable_optionJson (fun _ => placedJson_ne_null _ _) fun name isName =>
    readName_nameJson (by simpa [isName] using fits)

mutual

/-- A pristine statement is read back. -/
theorem readsBack :
    ∀ {stmt : Stmt},
      stmt.isPristine = true →
      ReadsBack ofNodeWithin stmt.toJson stmt
  | .localVar span decl, pristine => by
      simp only [isPristine, Bool.and_eq_true] at pristine
      rw [toJson]
      refine .placed pristine.1 fun limit _ => ?_
      rw [ofNodeWithin, Json.variant_taggedJson, Json.ok_bind]
      simp [LocalDecl.ofJson_toJson pristine.2]
  | .expr span value, pristine => by
      simp only [isPristine, Bool.and_eq_true] at pristine
      rw [toJson]
      refine .placed pristine.1 fun limit _ => ?_
      rw [ofNodeWithin, Json.variant_taggedJson, Json.ok_bind]
      simp [Expr.ofJson_toJson pristine.2]
  | .block span stmts facts, pristine => by
      simp only [isPristine, Bool.and_eq_true, beq_iff_eq] at pristine
      obtain ⟨⟨fits, stmtsPristine⟩, rfl⟩ := pristine
      rw [toJson]
      refine .placed fits fun limit bounded => ?_
      simp only [taggedJson, Json.depth, Json.depthOfMembers] at bounded
      have readStmts := listOf_toJsonAll limit stmtsPristine (by omega)
      rw [ofNodeWithin, Json.variant_taggedJson, Json.ok_bind]
      simp [Json.required, Json.member?, readStmts]
  | .branch span condition thenBranch none, pristine => by
      simp only [isPristine, Bool.and_eq_true] at pristine
      obtain ⟨⟨fits, tested⟩, thenPristine⟩ := pristine
      rw [toJson]
      refine .placed fits fun limit bounded => ?_
      simp only [taggedJson, Json.depth, Json.depthOfMembers] at bounded
      have readThen := (readsBack thenPristine).within limit (by omega)
      rw [ofNodeWithin, Json.variant_taggedJson, Json.ok_bind]
      simp [Json.required, Json.optional, Json.member?, Json.nullable,
        Expr.ofJson_toJson tested, readThen]
  | .branch span condition thenBranch (some elseBranch), pristine => by
      simp only [isPristine, Bool.and_eq_true] at pristine
      obtain ⟨⟨⟨fits, tested⟩, thenPristine⟩, elsePristine⟩ := pristine
      rw [toJson]
      refine .placed fits fun limit bounded => ?_
      simp only [taggedJson, Json.depth, Json.depthOfMembers] at bounded
      have readThen := (readsBack thenPristine).within limit (by omega)
      have readElse := (readsBack elsePristine).nullable limit (by omega)
      rw [ofNodeWithin, Json.variant_taggedJson, Json.ok_bind]
      simp [Json.required, Json.optional, Json.member?, Expr.ofJson_toJson tested,
        readThen, readElse]
  | .forEach span element collection none facts, pristine => by
      simp only [isPristine, Bool.and_eq_true, beq_iff_eq] at pristine
      obtain ⟨⟨⟨fits, declared⟩, iterated⟩, rfl⟩ := pristine
      rw [toJson]
      refine .placed fits fun limit _ => ?_
      rw [ofNodeWithin, Json.variant_taggedJson, Json.ok_bind]
      simp [Json.required, Json.optional, Json.member?, Json.nullable,
        LocalDecl.ofJson_toJson declared, Expr.ofJson_toJson iterated]
  | .forEach span element collection (some action) facts, pristine => by
      simp only [isPristine, Bool.and_eq_true, beq_iff_eq] at pristine
      obtain ⟨⟨⟨⟨fits, declared⟩, iterated⟩, actionPristine⟩, rfl⟩ := pristine
      rw [toJson]
      refine .placed fits fun limit bounded => ?_
      simp only [taggedJson, Json.depth, Json.depthOfMembers] at bounded
      have readAction := (readsBack actionPristine).nullable limit (by omega)
      rw [ofNodeWithin, Json.variant_taggedJson, Json.ok_bind]
      simp [Json.required, Json.optional, Json.member?,
        LocalDecl.ofJson_toJson declared, Expr.ofJson_toJson iterated, readAction]
  | .labeled span label body, pristine => by
      simp only [isPristine, Bool.and_eq_true] at pristine
      obtain ⟨⟨fits, labelFits⟩, bodyPristine⟩ := pristine
      rw [toJson]
      refine .placed fits fun limit bounded => ?_
      simp only [taggedJson, Json.depth, Json.depthOfMembers] at bounded
      have readBody := (readsBack bodyPristine).within limit (by omega)
      rw [ofNodeWithin, Json.variant_taggedJson, Json.ok_bind]
      simp [Json.required, Json.member?, readName_nameJson labelFits, readBody]
  | .breakTo span label, pristine | .continueTo span label, pristine => by
      simp only [isPristine, Bool.and_eq_true] at pristine
      rw [toJson]
      refine .placed pristine.1 fun limit _ => ?_
      rw [ofNodeWithin, Json.variant_taggedJson, Json.ok_bind]
      simp [nullable_optionJson pristine.2]
  | .returnWith span value, pristine => by
      simp only [isPristine, Bool.and_eq_true] at pristine
      rw [toJson]
      refine .placed pristine.1 fun limit _ => ?_
      rw [ofNodeWithin, Json.variant_taggedJson, Json.ok_bind]
      simp [Expr.nullable_optionJson pristine.2]
  | .empty span, pristine => by
      rw [toJson]
      refine .placed pristine fun limit _ => ?_
      simp [ofNodeWithin]

theorem listOf_toJsonAll
    (limit : Nat) :
    ∀ {stmts : List Stmt},
      arePristine stmts = true →
      Json.depthOfItems (toJsonAll stmts) ≤ limit →
      Json.listOf (readPlaced (ofNodeWithin limit)) (.array (toJsonAll stmts)) = .ok stmts
  | [], _, _ => rfl
  | stmt :: rest, pristine, bounded => by
      simp only [arePristine, Bool.and_eq_true] at pristine
      simp only [toJsonAll, Json.depthOfItems] at bounded
      have head := (readsBack pristine.1).within limit (by omega)
      have tail := listOf_toJsonAll limit pristine.2 (by omega)
      exact Json.listOf_cons head tail

end

/-- A pristine statement is read back by itself. -/
theorem ofJson_toJson
    {stmt : Stmt}
    (pristine : stmt.isPristine = true) :
    ofJson stmt.toJson = .ok stmt :=
  (readsBack pristine).whole

end Stmt

/-! ## Declarations -/

/-- A pristine body is read back. -/
theorem Block.ofJson_toJson
    {block : Block}
    (pristine : block.isPristine = true) :
    Block.ofJson block.toJson = .ok block := by
  obtain ⟨span, stmts, facts⟩ := block
  simp only [isPristine, Bool.and_eq_true, beq_iff_eq, Stmt.arePristine_iff] at pristine
  obtain ⟨⟨fits, stmtsPristine⟩, rfl⟩ := pristine
  have readStmts : Json.listOf Stmt.ofJson (.array (stmts.map Stmt.toJson)) = .ok stmts :=
    Json.listOf_listJson fun stmt member => Stmt.ofJson_toJson (stmtsPristine stmt member)
  simp [ofJson, toJson, readPlaced_placedJson fits, Json.required, Json.member?, readStmts]

/-- A pristine type parameter is read back. -/
theorem TypeParam.ofJson_toJson
    {param : TypeParam}
    (pristine : param.isPristine = true) :
    TypeParam.ofJson param.toJson = .ok param := by
  simp [ofJson, toJson, Json.required, Json.optional, Json.member?,
    TypeExpr.nullable_optionJson pristine]

/-- A pristine method parameter is read back. -/
theorem Param.ofJson_toJson
    {param : Param}
    (pristine : param.isPristine = true) :
    Param.ofJson param.toJson = .ok param := by
  obtain ⟨name, type, isFinal, binding⟩ := param
  simp only [isPristine, Bool.and_eq_true, Option.isNone_iff_eq_none] at pristine
  obtain ⟨⟨nameFits, typed⟩, rfl⟩ := pristine
  simp [ofJson, toJson, Json.required, Json.defaulted, Json.member?, readName_nameJson nameFits,
    TypeExpr.ofJson_toJson typed]

/-- Pristine type parameters are read back. -/
theorem TypeParam.listOf_listJson
    {params : List TypeParam}
    (pristine : params.all isPristine = true) :
    Json.listOf ofJson (listJson toJson params) = .ok params :=
  Json.listOf_listJson fun param member =>
    ofJson_toJson (List.all_eq_true.mp pristine param member)

/-- A pristine method is read back. -/
theorem Method.ofJson_toJson
    {method : Method}
    (pristine : method.isPristine = true) :
    Method.ofJson method.toJson = .ok method := by
  simp only [isPristine, Bool.and_eq_true] at pristine
  obtain ⟨⟨⟨⟨nameFits, typeParams⟩, params⟩, returnType⟩, body⟩ := pristine
  have readParams : Json.listOf Param.ofJson (listJson Param.toJson method.params) =
      .ok method.params :=
    Json.listOf_listJson fun param member =>
      Param.ofJson_toJson (List.all_eq_true.mp params param member)
  simp [ofJson, toJson, Json.required, Json.optional, Json.defaulted, Json.member?,
    readName_nameJson nameFits, TypeParam.listOf_listJson typeParams, readParams,
    TypeExpr.nullable_optionJson returnType, Block.ofJson_toJson body]

/-- A pristine method signature is read back. -/
theorem MethodSignature.ofJson_toJson
    {signature : MethodSignature}
    (pristine : signature.isPristine = true) :
    MethodSignature.ofJson signature.toJson = .ok signature := by
  simp only [isPristine, Bool.and_eq_true] at pristine
  simp [ofJson, toJson, Json.required, Json.optional, Json.defaulted, Json.member?,
    TypeExpr.listOf_listJson pristine.1, TypeExpr.nullable_optionJson pristine.2]

/-- A pristine class declaration is read back. -/
theorem ClassDecl.ofJson_toJson
    {decl : ClassDecl}
    (pristine : decl.isPristine = true) :
    ClassDecl.ofJson decl.toJson = .ok decl := by
  simp only [isPristine, Bool.and_eq_true] at pristine
  obtain ⟨⟨⟨⟨nameFits, typeParams⟩, superclass⟩, interfaces⟩, methods⟩ := pristine
  have readMethods : Json.listOf MethodSignature.ofJson
      (listJson MethodSignature.toJson decl.methods) = .ok decl.methods :=
    Json.listOf_listJson fun signature member =>
      MethodSignature.ofJson_toJson (List.all_eq_true.mp methods signature member)
  simp [ofJson, toJson, Json.required, Json.optional, Json.defaulted, Json.member?,
    readName_nameJson nameFits, TypeParam.listOf_listJson typeParams,
    TypeExpr.nullable_optionJson superclass, TypeExpr.listOf_listJson interfaces, readMethods]

/-- A pristine function declaration is read back. -/
theorem FunctionDecl.ofJson_toJson
    {decl : FunctionDecl}
    (pristine : decl.isPristine = true) :
    FunctionDecl.ofJson decl.toJson = .ok decl := by
  simp only [isPristine, Bool.and_eq_true] at pristine
  obtain ⟨⟨nameFits, params⟩, returnType⟩ := pristine
  simp [ofJson, toJson, Json.required, Json.optional, Json.defaulted, Json.member?,
    readName_nameJson nameFits, TypeExpr.listOf_listJson params,
    TypeExpr.nullable_optionJson returnType]

/-- Pristine declarations are read back with their positions if each of them is
without. -/
theorem Spanned.listOf_listJson
    {α : Type}
    {write : α → Json}
    {read : Json → Json.Shaped α}
    {isPristine : α → Bool}
    (readsBack : ∀ value, isPristine value = true → read (write value) = .ok value)
    {values : List (Spanned α)}
    (pristine : values.all (Spanned.isPristine isPristine) = true) :
    Json.listOf (Spanned.ofJson read) (listJson (Spanned.toJson write) values) = .ok values := by
  refine Json.listOf_listJson fun value member => ?_
  have isPlaced := List.all_eq_true.mp pristine value member
  simp only [Spanned.isPristine, Bool.and_eq_true] at isPlaced
  simp [ofJson, toJson, readPlaced_placedJson isPlaced.1, readsBack value.node isPlaced.2]

namespace CompilationUnit

/-- A pristine unit is read back. -/
theorem ofJson_toJson
    {unit : CompilationUnit}
    (pristine : unit.isPristine = true) :
    ofJson unit.toJson = .ok unit := by
  simp only [isPristine, Bool.and_eq_true] at pristine
  obtain ⟨⟨classes, functions⟩, methods⟩ := pristine
  have readClasses := Spanned.listOf_listJson (fun _ => ClassDecl.ofJson_toJson) classes
  have readFunctions := Spanned.listOf_listJson (fun _ => FunctionDecl.ofJson_toJson) functions
  have readMethods := Spanned.listOf_listJson (fun _ => Method.ofJson_toJson) methods
  obtain ⟨name, source, classes, functions, methods⟩ := unit
  cases source <;>
    simp [ofJson, toJson, Json.required, Json.optional, Json.defaulted, Json.member?,
      Json.nullable, Except.map, readClasses, readFunctions, readMethods]

/-- A unit of a name alone, whose other members may be left out. -/
def named
    (name : String) :
    CompilationUnit :=
  ⟨name, none, [], [], []⟩

end CompilationUnit

end LoopLowering
