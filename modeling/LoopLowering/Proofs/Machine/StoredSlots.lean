import LoopLowering.Proofs.Code.SyntheticSlots
import LoopLowering.Proofs.Machine.ClosedCode

namespace LoopLowering

/-!
# Slots that are read hold values

Wherever an execution reads a slot, the slot holds a value of the kind that is
read: a parameter, or what the execution has stored there, and no store in between
has touched it. This is so because flow analysis finds a local assigned before it
is read, locals that are seen at one place have slots apart, and a local that is
left with its scope is not read again.
-/

/-- The frame slots of a value of a kind. -/
def ValueKind.slotCount
    (kind : ValueKind) :
    Nat :=
  if kind.isWide then 2 else 1

/-- A value takes a frame slot at least. -/
theorem ValueKind.slotCount_pos
    (kind : ValueKind) :
    0 < kind.slotCount := by
  unfold slotCount
  split <;> omega

namespace Instruction

/-- The kind of value and the slot that an instruction reads. -/
def read? :
    Instruction → Option (ValueKind × UInt16)
  | .load kind slot => some (kind, slot)
  | .increment slot _ => some (.int, slot)
  | _ => none

/-- How many slots a frame has that holds those an instruction uses. -/
def frameEnd :
    Instruction → Nat
  | .load kind slot | .store kind slot => slot.toNat + kind.slotCount
  | .increment slot _ => slot.toNat + 1
  | _ => 0

/-- An instruction leaves a slot with a value of a kind: if it stores at all, it
stores such a value there or something to slots apart from it. -/
def Spares
    (kind : ValueKind)
    (slot : UInt16) :
    Instruction → Prop
  | .store other target =>
      (other = kind ∧ target = slot) ∨ target.toNat + other.slotCount ≤ slot.toNat ∨
        slot.toNat + kind.slotCount ≤ target.toNat
  | _ => True

/-- What does not store leaves every slot with its value. -/
theorem spares_of_ne_store
    {instruction : Instruction}
    (noStore : ∀ kind slot, instruction ≠ .store kind slot)
    (kind : ValueKind)
    (slot : UInt16) :
    instruction.Spares kind slot := by
  cases instruction with
  | store other target =>
      exact absurd rfl (noStore other target)
  | _ =>
      trivial

/-- An instruction that uses no slot reads none. -/
theorem read?_of_usesSlot
    {instruction : Instruction}
    (usesNone : instruction.usesSlot = false) :
    instruction.read? = none := by
  cases instruction <;> first | rfl | cases usesNone

end Instruction

/-- On the way that an execution has gone, a slot has got a value of a kind, as
one of those it starts with or by a store, and has kept it since. -/
def Trail.Holds
    (initial : ValueKind → UInt16 → Prop)
    (trail : Trail)
    (kind : ValueKind)
    (slot : UInt16) :
    Prop :=
  ∃ later earlier, trail = later ++ earlier ∧
    (∀ instruction ∈ later, instruction.Spares kind slot) ∧
    (earlier = [] ∧ initial kind slot ∨ ∃ before, earlier = .store kind slot :: before)

namespace Trail.Holds

variable
  {initial : ValueKind → UInt16 → Prop}
  {trail : Trail}
  {kind : ValueKind}
  {slot : UInt16}

/-- What an execution starts with is held at first. -/
theorem start
    (isInitial : initial kind slot) :
    Trail.Holds initial [] kind slot :=
  ⟨[], [], rfl, by simp, .inl ⟨rfl, isInitial⟩⟩

theorem cons
    (holds : Trail.Holds initial trail kind slot)
    {instruction : Instruction}
    (spares : instruction.Spares kind slot) :
    Trail.Holds initial (instruction :: trail) kind slot := by
  obtain ⟨later, earlier, rfl, areSpared, got⟩ := holds
  exact ⟨instruction :: later, earlier, rfl, by simpa using ⟨spares, areSpared⟩, got⟩

/-- What is stored is held. -/
theorem store
    (initial : ValueKind → UInt16 → Prop)
    (trail : Trail)
    (kind : ValueKind)
    (slot : UInt16) :
    Trail.Holds initial (.store kind slot :: trail) kind slot :=
  ⟨[], _, rfl, by simp, .inr ⟨trail, rfl⟩⟩

end Trail.Holds

namespace MethodScope

/-- A slot is that of a parameter of a kind. -/
def IsParameterSlot
    (scope : MethodScope)
    (kind : ValueKind)
    (slot : UInt16) :
    Prop :=
  ∃ id, (scope.localAt id).isParam = true ∧ (scope.localAt id).slot = some slot ∧
    kind = CodeStream.kindOf scope id

/-- The slots of two locals that some scope sees are apart. -/
def SlotsApart
    (scope : MethodScope) :
    Prop :=
  ∀ {block id other : Nat} {slot otherSlot : UInt16},
    (scope.localAt id).slot = some slot →
    (scope.localAt other).slot = some otherSlot →
    (scope.localAt id).scope ∈ scope.enclosing block →
    (scope.localAt other).scope ∈ scope.enclosing block →
    id ≠ other →
    slot.toNat + (CodeStream.kindOf scope id).slotCount ≤ otherSlot.toNat ∨
      otherSlot.toNat + (CodeStream.kindOf scope other).slotCount ≤ slot.toNat

/-- A local takes as many slots as a value of its kind. -/
theorem toNat_width
    (scope : MethodScope)
    (id : Nat) :
    (scope.localAt id).width.toNat = (CodeStream.kindOf scope id).slotCount := by
  have sameWidth : ∀ ty : Ty,
      (if ty.isWide then (2 : UInt16) else 1).toNat = (ValueKind.ofTy ty).slotCount := by
    intro ty
    cases ty with
    | primitive kind =>
        cases kind <;> rfl
    | _ =>
        rfl
  exact sameWidth _

end MethodScope

namespace CodeContext

/-- The ledger of slots: a local that is known and seen has a value of its kind in
its slot, and what is read has to be there. -/
def slotLedger
    (context : CodeContext)
    (apart : context.scope.SlotsApart)
    (wellFormed : context.scope.WellFormed) :
    context.Ledger where
  demand := fun instruction trail => ∀ kind slot,
    instruction.read? = some (kind, slot) →
    Trail.Holds context.scope.IsParameterSlot trail kind slot
  knows := fun place set trail => ∀ id : Nat, set.contains id = true →
    id < place.count ∧
      ((context.localAt id).scope ∈ context.scope.enclosing place.block →
        ∀ slot, (context.localAt id).slot = some slot →
          Trail.Holds context.scope.IsParameterSlot trail (CodeStream.kindOf context.scope id)
            slot)
  plain := by
    intro instruction trail usesNone kind slot isRead
    rw [Instruction.read?_of_usesSlot usesNone] at isRead
    cases isRead
  carries := by
    intro place set instruction trail knows noStore id member
    obtain ⟨counted, holds⟩ := knows id member
    exact ⟨counted, fun around slot isSlot =>
      (holds around slot isSlot).cons (Instruction.spares_of_ne_store noStore _ _)⟩
  load := by
    intro place set id slot trail knows sees member isSlot kind other isRead
    simp only [Instruction.read?, Option.some.injEq, Prod.mk.injEq] at isRead
    obtain ⟨rfl, rfl⟩ := isRead
    exact (knows id member).2 sees.2 slot isSlot
  increment := by
    intro place set id slot delta trail knows sees member isSlot isInt kind other isRead
    simp only [Instruction.read?, Option.some.injEq, Prod.mk.injEq] at isRead
    obtain ⟨rfl, rfl⟩ := isRead
    have isKind : CodeStream.kindOf context.scope id = .int :=
      congrArg ValueKind.ofTy isInt
    exact isKind ▸ (knows id member).2 sees.2 slot isSlot
  store := by
    intro place set id slot trail knows sees isSlot
    refine ⟨?_, fun other member => ?_⟩
    · intro kind other isRead
      cases isRead
    by_cases same : id = other
    · subst same
      refine ⟨sees.1, fun _ found isFound => ?_⟩
      obtain rfl := Option.some.inj (isSlot.symm.trans isFound)
      exact .store _ _ _ _
    · have known : set.contains other = true := by simpa [same] using member
      obtain ⟨counted, holds⟩ := knows other known
      refine ⟨counted, fun around otherSlot isOtherSlot => ?_⟩
      exact (holds around otherSlot isOtherSlot).cons
        (.inr (apart isSlot isOtherSlot sees.2 around same))
  absent := by
    intro place set id trail knows sees slotless other member
    by_cases same : id = other
    · subst same
      refine ⟨sees.1, fun _ slot isSlot => ?_⟩
      have hasNone : (context.localAt id).slot.isSome = false := slotless
      rw [isSlot] at hasNone
      cases hasNone
    · exact knows other (by simpa [same] using member)
  weaken := by
    intro place outer set smaller trail knows around counted isKnown id member
    rcases isKnown id member with known | ⟨isCounted, notSeen⟩
    · obtain ⟨isCounted, holds⟩ := knows id known
      exact ⟨Nat.lt_of_lt_of_le isCounted counted, fun isAround =>
        holds (wellFormed.mem_enclosing_trans around isAround)⟩
    · exact ⟨isCounted, fun isAround => absurd isAround notSeen⟩
  enter := by
    intro outer first inner set trail knows opens id member
    obtain ⟨isCounted, holds⟩ := knows id member
    refine ⟨isCounted, fun isAround => holds ?_⟩
    rw [wellFormed.enclosing_eq inner, opens.parent] at isAround
    exact (List.mem_cons.mp isAround).resolve_left (opens.fresh id isCounted)
  recount := by
    intro block count fewer set trail other knows fewerKnown id member
    exact ⟨(fewerKnown id member).1, (knows id member).2⟩

/-- The head of a loop costs an execution nothing beyond its code: the element has no
initial value, which has no code, and a loop that never comes back has no index. -/
structure PlainHead
    (context : CodeContext)
    (head : LocalDecl × LoopFacts) :
    Prop where
  initial : head.1.initial = none
  index : ∀ {resolution : LoopResolution} {index bound source : LocalId},
    head.2.classification = .resolved resolution →
    resolution.strategy = .array index bound source →
    head.2.continues = false →
    context.hasSlot index = false

/-- The element of a loop with a plain head is not assigned before the loop takes one. -/
theorem PlainHead.definite_eq
    {context : CodeContext}
    {head : LocalDecl × LoopFacts}
    (plain : context.PlainHead head)
    (before : VarSet) :
    head.1.definite before = before := by
  simp [LocalDecl.definite, plain.initial]

end CodeContext

section Methods

variable
  {strict : Bool}
  {table : ClassTable}
  {options : CompilerOptions}
  {method : Method}

/-- The loops of a method without reserved names and without initial values of
elements have plain heads. -/
theorem plainHead_loweringContext
    (tableSound : table.Sound strict)
    (allowed : method.isAllowed strict = true)
    (clean : (analyzedMethod table options method).state.Clean)
    (unreserved : method.isUnreserved = true)
    (uninitialized : method.elementsUninitialized = true)
    {head : LocalDecl × LoopFacts}
    (member : head ∈ Stmt.allHeads (method.analyzedBody table options).nodes) :
    (loweringContext table options method).PlainHead head where
  initial := by
    have elements := elements_analyzeStmts options
      (checkMethod table options method .initial).node.body.stmts
      (.atBody (checkMethod table options method .initial).node.params
        (checkMethod table options method .initial).state)
    have isElement : head.1 ∈ (Stmt.allHeads
        (checkMethod table options method .initial).node.body.stmts).map Prod.fst :=
      elements ▸ List.mem_map_of_mem member
    obtain ⟨checked, isChecked, sameElement⟩ := List.mem_map.mp isElement
    rw [← sameElement]
    exact initial_checkMethod table options uninitialized isChecked
  index := by
    intro resolution index bound source classified strategy once
    obtain ⟨span, collection, action, isPart⟩ := Stmt.exists_part_of_mem_allHeads member
    have resolved := (resolved_analyzedBody tableSound allowed clean).1
    have runs := (runs_body tableSound allowed clean).2
    obtain ⟨_, _, _, found, _, resolvedHead, -⟩ :=
      CodeContext.entersHeads_of_allRun resolved runs _ isPart
    obtain rfl := LoopClassification.resolved.inj (classified.symm.trans resolvedHead.classification)
    obtain ⟨_, -, iterates⟩ := resolvedHead.iterated
    have introduced : index ∈ resolution.strategy.synthetics := by
      simp [strategy, LoopStrategy.synthetics]
    obtain ⟨isNeeded, slotted⟩ :=
      hasSlot_synthetic tableSound allowed clean unreserved isPart classified introduced
    have unneeded : resolution.strategy.needs
        ((loweringContext table options method).touchesElements head.1 action) head.2.continues
        index = false := by
      simp [strategy, LoopStrategy.needs, once, (iterates.ne_of_array strategy).1]
    exact slotted.trans (isNeeded.trans unneeded)

/-- The loops of a method without reserved names and without initial values of
elements suit the ledger of slots. -/
theorem suitsHead_slotLedger
    (tableSound : table.Sound strict)
    (allowed : method.isAllowed strict = true)
    (clean : (analyzedMethod table options method).state.Clean)
    (unreserved : method.isUnreserved = true)
    (uninitialized : method.elementsUninitialized = true)
    (apart : (loweringContext table options method).scope.SlotsApart)
    (wellFormed : (loweringContext table options method).scope.WellFormed)
    {head : LocalDecl × LoopFacts}
    (member : head ∈ Stmt.allHeads (method.analyzedBody table options).nodes) :
    ((loweringContext table options method).slotLedger apart wellFormed).SuitsHead head := by
  have plain := plainHead_loweringContext tableSound allowed clean unreserved uninitialized member
  constructor
  · intro place set trail knows
    rwa [plain.definite_eq]
  · intro resolution index bound source classified strategy once place set slot trail _ isSlot
    have slotless := plain.index classified strategy once
    rw [CodeContext.hasSlot, isSlot] at slotless
    cases slotless

/-- In a frame that fits, the slots of two locals that some scope sees are apart. -/
theorem slotsApart_loweringContext
    (tableSound : table.Sound strict)
    (allowed : method.isAllowed strict = true)
    (clean : (analyzedMethod table options method).state.Clean)
    (fits : (loweringContext table options method).scope.FrameFits options.keepUnusedLocals) :
    (loweringContext table options method).scope.SlotsApart := by
  intro block id other slot otherSlot isSlot isOtherSlot around otherAround different
  have wellFormed := (sound_analyzedMethod tableSound allowed clean).wellFormed
  rw [← MethodScope.toNat_width, ← MethodScope.toNat_width]
  exact wellFormed.slots_apart fits isSlot isOtherSlot around otherAround different

/-- Where a method starts, its parameters are in their slots. -/
theorem knows_parameterSet
    (apart : (loweringContext table options method).scope.SlotsApart)
    (wellFormed : (loweringContext table options method).scope.WellFormed) :
    ((loweringContext table options method).slotLedger apart wellFormed).knows
      ⟨MethodScope.root, (method.bodyState table).scope.locals.size⟩
      (method.parameterSet table options) [] := by
  intro id member
  obtain ⟨known, isParam⟩ := Method.isParam_parameterSet member
  have grows := (leads_checkStmts table options method.body.stmts MethodScope.root
    (method.bodyState table)).scope.trans (marks_loweringContext table options method).scope
  exact ⟨known, fun _ slot isSlot =>
    .start ⟨id, (grows.persists id known).isParam.trans isParam, isSlot, rfl⟩⟩

/-- The slots that an instruction uses lie in a frame that fits. -/
theorem frameEnd_le_frameSize
    (tableSound : table.Sound strict)
    (allowed : method.isAllowed strict = true)
    (clean : (analyzedMethod table options method).state.Clean)
    (fits : (loweringContext table options method).scope.FrameFits options.keepUnusedLocals)
    {instruction : Instruction}
    {labelCount : Nat}
    (refers : instruction.RefersTo (loweringContext table options method).scope labelCount) :
    instruction.frameEnd ≤ (loweringContext table options method).scope.frameSize.toNat := by
  have wellFormed := (sound_analyzedMethod tableSound allowed clean).wellFormed
  have framed : ∀ id slot,
      ((loweringContext table options method).localAt id).slot = some slot →
      slot.toNat + (CodeStream.kindOf (loweringContext table options method).scope id).slotCount ≤
        (loweringContext table options method).scope.frameSize.toNat := by
    intro id slot isSlot
    rw [← MethodScope.toNat_width]
    exact wellFormed.slot_le_frameSize fits isSlot
  cases instruction with
  | load kind slot | store kind slot =>
      obtain ⟨id, isSlot, rfl⟩ := refers
      exact framed id slot isSlot
  | increment slot delta =>
      obtain ⟨id, isSlot⟩ := refers
      exact Nat.le_trans (Nat.add_le_add_left (ValueKind.slotCount_pos _) _)
        (framed id slot isSlot)
  | _ =>
      exact Nat.zero_le _

end Methods

/-- No slot is read that is stale or not initialized: wherever an execution reads
a slot, the slot holds a value of the kind that is read, and all slots that the
code uses are in its frame. -/
theorem holds_lowerMethod
    {table : ClassTable}
    {options : CompilerOptions}
    {method : Method}
    {lowered : LoweredMethod}
    {unit : CompilationUnit}
    (declared : ClassTable.ofUnit unit = .ok table)
    (isLowered : lowerMethod table options method = .ok lowered)
    (noErrors : lowered.hasErrors = false)
    (unreserved : method.isUnreserved = true)
    (uninitialized : method.elementsUninitialized = true)
    (fits : lowered.scope.FrameFits options.keepUnusedLocals) :
    ∃ code, lowered.code = some code ∧
      (∀ trail offset instruction kind slot,
        code.Reaches trail offset →
        code.instructions[offset]? = some instruction →
        instruction.read? = some (kind, slot) →
        Trail.Holds lowered.scope.IsParameterSlot trail kind slot) ∧
      ∀ instruction ∈ code.instructions, instruction.frameEnd ≤ code.maxLocals.toNat := by
  have tableSound := ClassTable.ofUnit_sound unit.isAllowed_lenient declared
  obtain ⟨clean, isScope, code, isCode, generated⟩ := exists_code_lowerMethod isLowered noErrors
  rw [isScope] at fits ⊢
  have apart : (loweringContext table options method).scope.SlotsApart :=
    slotsApart_loweringContext tableSound method.isAllowed_lenient clean fits
  have wellFormed := (sound_loweringContext tableSound method.isAllowed_lenient clean).wellFormed
  refine ⟨code, isCode, ?_, ?_⟩
  · intro trail offset instruction kind slot reaches fetched isRead
    have safe := safe_methodCode tableSound method.isAllowed_lenient clean
      ((loweringContext table options method).slotLedger apart wellFormed)
      (fun head member => suitsHead_slotLedger tableSound method.isAllowed_lenient clean
        unreserved uninitialized apart wellFormed member)
      (knows_parameterSet apart wellFormed) generated
    obtain ⟨found, isFound, isHeld, -⟩ := reaches.safe safe 1
    obtain rfl := Option.some.inj (fetched.symm.trans isFound)
    exact isHeld kind slot isRead
  · obtain ⟨refers, -, -, frame⟩ :=
      refers_methodCode tableSound method.isAllowed_lenient clean generated
    rw [frame]
    intro instruction member
    exact frameEnd_le_frameSize tableSound method.isAllowed_lenient clean fits
      (refers instruction member)

/-- A method that returns the last one of some numbers. -/
def Method.returnsLast :
    Method where
  name := ⟨"m", .absent⟩
  typeParams := []
  params := [⟨⟨"values", .absent⟩, .array .absent (.named .absent "int"), false, none⟩]
  returnType := some (.named .absent "int")
  body := {
    span := .absent
    stmts := [
      .localVar .absent ⟨⟨"last", .absent⟩, .named .absent "int", some (.intLit .absent 0),
        false, none⟩,
      .forEach .absent ⟨⟨"value", .absent⟩, .named .absent "int", none, false, none⟩
        (.name .absent (.unbound "values"))
        (some (.expr .absent (.assign .absent ⟨.unbound "last", .absent⟩ none
          (.name .absent (.unbound "value")))))
        .initial,
      .returnWith .absent (some (.name .absent (.unbound "last")))]
    facts := .initial
  }

/-- What a method reads on its way through some numbers is in its slots. -/
theorem returnsLast_holds :
    ∃ lowered, ClassTable.ofUnit ⟨"Main", none, [], [], []⟩ = .ok .builtin ∧
      lowerMethod .builtin .standard .returnsLast = .ok lowered ∧
      lowered.hasErrors = false ∧
      Method.returnsLast.isUnreserved = true ∧
      Method.returnsLast.elementsUninitialized = true ∧
      lowered.scope.FrameFits CompilerOptions.standard.keepUnusedLocals ∧
      ∃ code, lowered.code = some code ∧
        (∃ instruction ∈ code.instructions, instruction.read?.isSome = true) ∧
        ∀ trail offset instruction kind slot,
          code.Reaches trail offset →
          code.instructions[offset]? = some instruction →
          instruction.read? = some (kind, slot) →
          Trail.Holds lowered.scope.IsParameterSlot trail kind slot := by
  have declared : ClassTable.ofUnit ⟨"Main", none, [], [], []⟩ = .ok .builtin := rfl
  have evaluated : (lowerMethod .builtin .standard .returnsLast).toOption.any
      (fun lowered => !lowered.hasErrors &&
        decide (lowered.scope.FrameFits CompilerOptions.standard.keepUnusedLocals) &&
        lowered.code.any fun code =>
          code.instructions.any fun instruction => instruction.read?.isSome) = true := by
    decide +kernel
  have unreserved : Method.returnsLast.isUnreserved = true := by
    decide +kernel
  have uninitialized : Method.returnsLast.elementsUninitialized = true := by
    decide +kernel
  cases isLowered : lowerMethod .builtin .standard .returnsLast with
  | error cause =>
      rw [isLowered] at evaluated
      cases evaluated
  | ok lowered =>
      simp only [isLowered, Except.toOption, Option.any_some, Bool.and_eq_true,
        Bool.not_eq_true', decide_eq_true_eq] at evaluated
      obtain ⟨⟨noErrors, fits⟩, reads⟩ := evaluated
      obtain ⟨code, isCode, holds, -⟩ :=
        holds_lowerMethod declared isLowered noErrors unreserved uninitialized fits
      simp only [isCode, Option.any_some, Array.any_eq_true'] at reads
      exact ⟨lowered, declared, rfl, noErrors, unreserved, uninitialized, fits, code, isCode,
        reads, holds⟩

end LoopLowering
