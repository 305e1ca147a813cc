import LoopLowering.Proofs.Locals.Layout

namespace LoopLowering

/-!
# Slots of locals

However the scopes of a method have been built, assigning slots lays out the frame:
the locals that exist in the code and no others have slots, locals that can be alive
at the same time have slots of their own, and the frame is as large as its locals
need. A second assignment finds nothing to change.
-/

/-- Every local takes a slot. -/
theorem LocalVariable.width_pos
    (entry : LocalVariable) :
    0 < entry.width.toNat := by
  rw [width]
  split <;> decide

namespace MethodScope

/-- Scopes are built by opening blocks in scopes that exist and declaring locals
there. At any time, a local may be taken for used or unused, and whatever slots
there are may be assigned again or replaced. -/
inductive IsBuilt :
    MethodScope → Prop where
  | initial :
      IsBuilt .initial
  | openBlock {scope : MethodScope} {parent : Nat} :
      parent < scope.blocks.size →
      IsBuilt scope →
      IsBuilt (scope.openBlock parent)
  | declare {scope : MethodScope} {block : Nat} (entry : LocalVariable) :
      block < scope.blocks.size →
      IsBuilt scope →
      IsBuilt (scope.declare block entry)
  | adjust {scope : MethodScope} (id : Nat) (isUsed : Bool) (slot : Option UInt16) :
      IsBuilt scope →
      IsBuilt (scope.modifyLocal id fun entry => { entry with isUsed := isUsed, slot := slot })
  | assignSlots {scope : MethodScope} (keepUnused : Bool) :
      IsBuilt scope →
      IsBuilt (scope.assignSlots keepUnused)

/-- A frame is laid out: the scopes are as before apart from the slots, and the slots
follow the order of the declarations. -/
structure LaysOut
    (keepUnused : Bool)
    (before after : MethodScope) :
    Prop where
  blocks : after.blocks = before.blocks
  localCount : after.locals.size = before.locals.size
  sameLocals : ∀ id : Nat,
    { after.localAt id with slot := none } = { before.localAt id with slot := none }
  hasSlot : ∀ id < before.locals.size,
    (after.localAt id).slot.isSome = before.isMaterialized keepUnused id
  apart : ∀ {id other : Nat} {slot otherSlot : UInt16},
    (after.localAt id).slot = some slot →
    (after.localAt other).slot = some otherSlot →
    after.isWithin (after.localAt id).scope (after.localAt other).scope = true →
    id ≠ other →
    slot.toNat + (after.localAt id).width.toNat ≤ otherSlot.toNat ∨
      otherSlot.toNat + (after.localAt other).width.toNat ≤ slot.toNat
  inFrame : ∀ {id : Nat} {slot : UInt16},
    (after.localAt id).slot = some slot →
    slot.toNat + (after.localAt id).width.toNat ≤ after.frameSize.toNat
  /-- A local ends where the frame ends, unless there is no local in it. -/
  reachesEnd :
    (∃ id slot, (after.localAt id).slot = some slot ∧
      slot.toNat + (after.localAt id).width.toNat = after.frameSize.toNat) ∨
    (after.frameSize = 0 ∧ ∀ id : Nat, (after.localAt id).slot = none)
  startsAtRoot : ∀ {id : Nat} {slot : UInt16},
    (after.localAt id).scope = root →
    (after.localAt id).slot = some slot →
    (∀ older < id, (after.localAt older).scope = root → (after.localAt older).slot = none) →
    slot = 0
  ordered : ∀ {id other : Nat} {slot otherSlot : UInt16},
    (after.localAt id).scope = (after.localAt other).scope →
    (after.localAt id).slot = some slot →
    (after.localAt other).slot = some otherSlot →
    id < other →
    slot < otherSlot

/-- Scopes that have been built are well formed. -/
theorem IsBuilt.wellFormed
    {scope : MethodScope}
    (built : scope.IsBuilt) :
    scope.WellFormed := by
  induction built with
  | initial =>
      exact wellFormed_initial
  | openBlock known _ inductionHypothesis =>
      exact inductionHypothesis.openBlock known
  | declare entry known _ inductionHypothesis =>
      exact inductionHypothesis.declare known entry
  | @adjust scope changed isUsed slot _ inductionHypothesis =>
      apply inductionHypothesis.ofSameHomes
      · rfl
      · simp [modifyLocal]
      · intro id known
        by_cases same : changed = id
        · subst same
          simp [localAt, modifyLocal, Array.getElem?_modify, Array.getElem?_eq_getElem known]
        · simp [localAt, modifyLocal, Array.getElem?_modify, same]
  | assignSlots keepUnused _ inductionHypothesis =>
      exact inductionHypothesis.assignSlots keepUnused

section Ends

variable
  {scope : MethodScope}
  {keepUnused : Bool}

/-- Each slot of some locals is taken by one of them. -/
theorem exists_taking
    {position : Nat}
    {ids : List Nat}
    (sorted : ids.Pairwise (· < ·))
    (within : position < scope.slotCounts keepUnused ids) :
    ∃ id ∈ ids, scope.slotsBefore keepUnused id ids ≤ position ∧
      position < scope.slotsBefore keepUnused id ids + scope.slotCount keepUnused id := by
  induction ids generalizing position with
  | nil =>
      simp [slotCounts] at within
  | cons first rest inductionHypothesis =>
      by_cases own : position < scope.slotCount keepUnused first
      · refine ⟨first, List.mem_cons_self, ?_⟩
        simpa [slotsBefore, slotCounts] using own
      · have remaining : position - scope.slotCount keepUnused first <
            scope.slotCounts keepUnused rest := by
          simp only [slotCounts, List.map_cons, List.foldr_cons] at within ⊢
          omega
        obtain ⟨id, member, starts, ends⟩ := inductionHypothesis sorted.of_cons remaining
        have different : first ≠ id := Nat.ne_of_lt (List.rel_of_pairwise_cons sorted member)
        refine ⟨id, List.mem_cons_of_mem first member, ?_⟩
        simp only [slotsBefore, slotCounts, List.takeWhile_cons, bne_iff_ne, ne_eq, different,
          not_false_eq_true, if_true, List.map_cons, List.foldr_cons] at starts ends ⊢
        omega

/-- Each slot of a scope and of those around it is taken by a local there. -/
theorem WellFormed.exists_taking
    (wellFormed : scope.WellFormed)
    {position block : Nat}
    (within : position < scope.slotDepth keepUnused block) :
    ∃ id < scope.locals.size, (scope.localAt id).scope ∈ scope.enclosing block ∧
      scope.firstSlot keepUnused id ≤ position ∧
      position < scope.firstSlot keepUnused id + scope.slotCount keepUnused id := by
  induction block using Nat.strongRecOn with
  | ind block inductionHypothesis =>
      rw [wellFormed.slotDepth_eq] at within
      by_cases above : position < scope.blockCounts keepUnused (scope.enclosing block).tail
      · rw [wellFormed.enclosing_eq block] at above ⊢
        cases isParent : (scope.block block).parent with
        | none =>
            simp [isParent, blockCounts] at above
        | some parent =>
            simp only [isParent, List.tail_cons] at above ⊢
            obtain ⟨id, known, around, isTaken⟩ :=
              inductionHypothesis parent (wellFormed.parentOlder isParent) above
            exact ⟨id, known, List.mem_cons_of_mem block around, isTaken⟩
      · have own : position - scope.blockCounts keepUnused (scope.enclosing block).tail <
            scope.slotCounts keepUnused (scope.block block).locals := by
          omega
        obtain ⟨id, member, starts, ends⟩ :=
          MethodScope.exists_taking (wellFormed.sorted block) own
        obtain ⟨known, isHome⟩ := (wellFormed.mem_locals block id).mp member
        refine ⟨id, known, isHome ▸ wellFormed.mem_enclosing_self block, ?_⟩
        rw [firstSlot, isHome]
        omega

/-- Where the slots of a scope and of those around it end, a local ends, unless there
is no local in them. -/
theorem WellFormed.exists_deepest
    (wellFormed : scope.WellFormed)
    {block : Nat}
    (some_ : 0 < scope.slotDepth keepUnused block) :
    ∃ id < scope.locals.size, 0 < scope.slotCount keepUnused id ∧
      scope.firstSlot keepUnused id + scope.slotCount keepUnused id =
        scope.slotDepth keepUnused block := by
  obtain ⟨id, known, around, starts, ends⟩ :=
    wellFormed.exists_taking (Nat.sub_one_lt_of_lt some_)
  have framed := wellFormed.firstSlot_add_le keepUnused known
  have inner : scope.slotDepth keepUnused (scope.localAt id).scope ≤
      scope.slotDepth keepUnused block := wellFormed.slotDepth_le around
  exact ⟨id, known, by omega, by omega⟩

/-- No slots come before a local if the older ones take none. -/
theorem slotsBefore_eq_zero
    {id : Nat}
    {ids : List Nat}
    (sorted : ids.Pairwise (· < ·))
    (member : id ∈ ids)
    (noneOlder : ∀ older ∈ ids, older < id → scope.slotCount keepUnused older = 0) :
    scope.slotsBefore keepUnused id ids = 0 := by
  induction ids with
  | nil =>
      rfl
  | cons first rest inductionHypothesis =>
      by_cases same : first = id
      · simp [slotsBefore, slotCounts, same]
      · have further : id ∈ rest := (List.mem_cons.mp member).resolve_left (Ne.symm same)
        have isOlder : first < id := List.rel_of_pairwise_cons sorted further
        have none_ := noneOlder first List.mem_cons_self isOlder
        have remaining := inductionHypothesis sorted.of_cons further fun older inRest =>
          noneOlder older (List.mem_cons_of_mem first inRest)
        simp only [slotsBefore, slotCounts, List.takeWhile_cons, bne_iff_ne, ne_eq, same,
          not_false_eq_true, if_true, List.map_cons, List.foldr_cons, none_] at remaining ⊢
        omega

/-- The first local of the outermost scope that takes slots takes the first ones. -/
theorem WellFormed.firstSlot_root
    (wellFormed : scope.WellFormed)
    {id : Nat}
    (known : id < scope.locals.size)
    (isRoot : (scope.localAt id).scope = MethodScope.root)
    (noneOlder : ∀ older < id, (scope.localAt older).scope = MethodScope.root →
      scope.slotCount keepUnused older = 0) :
    scope.firstSlot keepUnused id = 0 := by
  have outermost : (scope.block MethodScope.root).parent = none := by
    cases isParent : (scope.block MethodScope.root).parent with
    | none =>
        rfl
    | some parent =>
        cases wellFormed.parentOlder isParent
  have member := (wellFormed.mem_locals MethodScope.root id).mpr ⟨known, isRoot⟩
  have noneBefore : scope.slotsBefore keepUnused id (scope.block MethodScope.root).locals = 0 := by
    apply slotsBefore_eq_zero (wellFormed.sorted MethodScope.root) member
    intro older inRoot isOlder
    exact noneOlder older isOlder ((wellFormed.mem_locals MethodScope.root older).mp inRoot).2
  rw [firstSlot, isRoot, noneBefore, wellFormed.enclosing_eq MethodScope.root, outermost]
  rfl

/-- The greatest of some numbers is one of them. -/
theorem foldl_max_mem
    (numbers : List UInt16)
    (start : UInt16) :
    numbers.foldl max start = start ∨ numbers.foldl max start ∈ numbers := by
  induction numbers generalizing start with
  | nil =>
      exact .inl rfl
  | cons first rest inductionHypothesis =>
      rw [List.foldl_cons]
      rcases inductionHypothesis (max start first) with isGreatest | further
      · rw [isGreatest]
        by_cases ordered : start ≤ first
        · have isFirst : max start first = first := if_pos ordered
          rw [isFirst]
          exact .inr List.mem_cons_self
        · exact .inl (if_neg ordered)
      · exact .inr (List.mem_cons_of_mem first further)

/-- The frame ends where the slots of some scope end. -/
theorem WellFormed.exists_frameWidth
    (wellFormed : scope.WellFormed)
    (fits : scope.FrameFits keepUnused) :
    scope.frameWidth keepUnused = 0 ∨
      ∃ block, (scope.frameWidth keepUnused).toNat = scope.slotDepth keepUnused block := by
  rcases foldl_max_mem ((List.range scope.blocks.size).map (scope.blockEnd keepUnused)) 0 with
    isNone | isEnd
  · exact .inl isNone
  · obtain ⟨block, known, isBlock⟩ := List.mem_map.mp isEnd
    refine .inr ⟨block, ?_⟩
    rw [← wellFormed.toNat_blockEnd_of_fits fits (List.mem_range.mp known), isBlock]
    rfl

end Ends

section Assigned

variable
  {scope : MethodScope}
  {keepUnused : Bool}

/-- A local that takes slots is given its first one. -/
theorem WellFormed.exists_slot
    (wellFormed : scope.WellFormed)
    (fits : scope.FrameFits keepUnused)
    {id : Nat}
    (known : id < scope.locals.size)
    (exists_ : 0 < scope.slotCount keepUnused id) :
    ∃ slot, ((scope.assignSlots keepUnused).localAt id).slot = some slot ∧
      slot.toNat = scope.firstSlot keepUnused id := by
  have isMaterialized : scope.isMaterialized keepUnused id = true := by
    rw [slotCount] at exists_
    split at exists_
    · assumption
    · cases exists_
  rw [← slotFor_isSome, Option.isSome_iff_exists] at isMaterialized
  obtain ⟨slot, isSlot⟩ := isMaterialized
  refine ⟨slot, ?_, (wellFormed.toNat_slotFor fits known isSlot).1⟩
  rw [localAt_assignSlots, if_pos known]
  exact isSlot

/-- A frame that ends where it starts has no local in it. -/
theorem WellFormed.slot_eq_none
    (wellFormed : scope.WellFormed)
    (fits : scope.FrameFits keepUnused)
    (isEmpty : scope.frameWidth keepUnused = 0)
    (id : Nat) :
    ((scope.assignSlots keepUnused).localAt id).slot = none := by
  cases isSlot : ((scope.assignSlots keepUnused).localAt id).slot with
  | none =>
      rfl
  | some slot =>
      obtain ⟨known, -, -, counts⟩ := wellFormed.assigned fits isSlot
      have within := wellFormed.firstSlot_add_le keepUnused known
      have framed := wellFormed.slotDepth_le_frameWidth fits (wellFormed.home id known)
      have takes := LocalVariable.width_pos ((scope.assignSlots keepUnused).localAt id)
      rw [isEmpty, UInt16.toNat_zero] at framed
      omega

/-- A local is the same in every other respect after slots have been assigned. -/
theorem exists_localAt_assignSlots
    (keepUnused : Bool)
    (scope : MethodScope)
    (id : Nat) :
    ∃ slot, (scope.assignSlots keepUnused).localAt id = { scope.localAt id with slot := slot } := by
  by_cases known : id < scope.locals.size
  · exact ⟨_, by rw [localAt_assignSlots, if_pos known]⟩
  · exact ⟨none, by rw [localAt_assignSlots, if_neg known, localAt_unknown known]; rfl⟩

/-- Unless the frame is empty, a local ends where it ends. -/
theorem WellFormed.exists_atEnd
    (wellFormed : scope.WellFormed)
    (fits : scope.FrameFits keepUnused)
    (notEmpty : scope.frameWidth keepUnused ≠ 0) :
    ∃ id slot, ((scope.assignSlots keepUnused).localAt id).slot = some slot ∧
      slot.toNat + ((scope.assignSlots keepUnused).localAt id).width.toNat =
        (scope.frameWidth keepUnused).toNat := by
  obtain ⟨block, isEnd⟩ := (wellFormed.exists_frameWidth fits).resolve_left notEmpty
  have isPositive : 0 < scope.slotDepth keepUnused block := by
    rw [← isEnd]
    apply Nat.pos_of_ne_zero
    exact fun isZero => notEmpty (UInt16.toNat_inj.mp isZero)
  obtain ⟨id, known, exists_, isDeepest⟩ := wellFormed.exists_deepest isPositive
  obtain ⟨slot, isSlot, isFirst⟩ := wellFormed.exists_slot fits known exists_
  obtain ⟨-, -, -, counts⟩ := wellFormed.assigned fits isSlot
  refine ⟨id, slot, isSlot, ?_⟩
  rw [isFirst, counts, isDeepest, isEnd]

/-- The first local of the outermost scope that has a slot has the first one. -/
theorem WellFormed.slot_eq_zero
    (wellFormed : scope.WellFormed)
    (fits : scope.FrameFits keepUnused)
    {id : Nat}
    {slot : UInt16}
    (isRoot : ((scope.assignSlots keepUnused).localAt id).scope = MethodScope.root)
    (isSlot : ((scope.assignSlots keepUnused).localAt id).slot = some slot)
    (noneOlder : ∀ older < id,
      ((scope.assignSlots keepUnused).localAt older).scope = MethodScope.root →
      ((scope.assignSlots keepUnused).localAt older).slot = none) :
    slot = 0 := by
  obtain ⟨known, sameScope, isFirst, -⟩ := wellFormed.assigned fits isSlot
  rw [sameScope] at isRoot
  apply UInt16.toNat_inj.mp
  rw [isFirst]
  apply wellFormed.firstSlot_root known isRoot
  intro older isOlder inRoot
  obtain ⟨_, isLocal⟩ := exists_localAt_assignSlots keepUnused scope older
  have isNone := noneOlder older isOlder (by rw [isLocal]; exact inRoot)
  rcases Nat.eq_zero_or_pos (scope.slotCount keepUnused older) with none_ | exists_
  · exact none_
  · obtain ⟨slot, isSome, -⟩ :=
      wellFormed.exists_slot fits (Nat.lt_trans isOlder known) exists_
    cases isNone.symm.trans isSome

/-- Assigning slots does not change where a local starts. -/
theorem firstSlot_assignSlots
    (keepUnused : Bool)
    (scope : MethodScope)
    (id : Nat) :
    (scope.assignSlots keepUnused).firstSlot keepUnused id = scope.firstSlot keepUnused id := by
  have same : (scope.assignSlots keepUnused).slotCount keepUnused =
      scope.slotCount keepUnused :=
    funext (slotCount_assignSlots keepUnused scope)
  obtain ⟨slot, isLocal⟩ := exists_localAt_assignSlots keepUnused scope id
  unfold firstSlot blockCounts slotsBefore slotCounts
  rw [same, isLocal]
  rfl

/-- How many slots locals take does not depend on where they are. -/
theorem widthOf_assignSlots
    (keepUnused : Bool)
    (scope : MethodScope)
    (ids : List Nat) :
    (scope.assignSlots keepUnused).widthOf keepUnused ids = scope.widthOf keepUnused ids := by
  rw [widthOf, widthOf]
  congr 1
  apply List.map_congr_left
  intro id _
  obtain ⟨slot, isLocal⟩ := exists_localAt_assignSlots keepUnused scope id
  simp only [isMaterialized, isLocal]
  rfl

/-- Where a scope starts does not depend on the slots of its locals. -/
theorem blockStart_assignSlots
    (keepUnused : Bool)
    (scope : MethodScope)
    (id : Nat) :
    (scope.assignSlots keepUnused).blockStart keepUnused id = scope.blockStart keepUnused id := by
  rw [blockStart, blockStart]
  congr 1
  apply List.map_congr_left
  intro above _
  exact widthOf_assignSlots keepUnused scope _

/-- The slot of a local does not depend on the slots there have been. -/
theorem slotFor_assignSlots
    (keepUnused : Bool)
    (scope : MethodScope)
    (id : Nat) :
    (scope.assignSlots keepUnused).slotFor keepUnused id = scope.slotFor keepUnused id := by
  obtain ⟨slot, isLocal⟩ := exists_localAt_assignSlots keepUnused scope id
  simp only [slotFor, slotAmong_eq, isMaterialized, isLocal, blockStart_assignSlots,
    widthOf_assignSlots]
  rfl

/-- The size of the frame does not depend on the slots there have been. -/
theorem frameWidth_assignSlots
    (keepUnused : Bool)
    (scope : MethodScope) :
    (scope.assignSlots keepUnused).frameWidth keepUnused = scope.frameWidth keepUnused := by
  have sameEnd : (scope.assignSlots keepUnused).blockEnd keepUnused =
      scope.blockEnd keepUnused := by
    funext id
    rw [blockEnd, blockEnd, blockStart_assignSlots, blockWidth, widthOf_assignSlots]
    rfl
  rw [frameWidth, sameEnd]
  rfl

/-- Slots that are assigned again are the same. -/
theorem assignSlots_assignSlots
    (keepUnused : Bool)
    (scope : MethodScope) :
    (scope.assignSlots keepUnused).assignSlots keepUnused = scope.assignSlots keepUnused := by
  have sameLocals : (scope.assignSlots keepUnused).locals.mapIdx (fun id entry =>
      { entry with slot := scope.slotFor keepUnused id }) =
        (scope.assignSlots keepUnused).locals := by
    apply Array.ext_getElem?
    intro id
    cases entry : scope.locals[id]? <;> simp [assignSlots, entry]
  calc (scope.assignSlots keepUnused).assignSlots keepUnused
      = { scope.assignSlots keepUnused with
          locals := (scope.assignSlots keepUnused).locals.mapIdx (fun id entry =>
            { entry with slot := scope.slotFor keepUnused id })
          frameSize := scope.frameWidth keepUnused } := by
        rw [assignSlots, frameWidth_assignSlots]
        simp only [slotFor_assignSlots]
    _ = scope.assignSlots keepUnused := by
        rw [sameLocals]
        rfl

end Assigned

/-- Assigning slots lays out the frame of scopes that have been built and take no
more slots than there are numbers for, and assigning them again changes nothing. -/
theorem IsBuilt.laysOut_assignSlots
    {scope : MethodScope}
    {keepUnused : Bool}
    (built : scope.IsBuilt)
    (fits : scope.FrameFits keepUnused) :
    LaysOut keepUnused scope (scope.assignSlots keepUnused) ∧
      (scope.assignSlots keepUnused).assignSlots keepUnused = scope.assignSlots keepUnused := by
  have wellFormed := built.wellFormed
  refine ⟨⟨rfl, Array.size_mapIdx, fun id => ?_, fun id known => ?_, ?_, ?_, ?_, ?_, ?_⟩,
    assignSlots_assignSlots keepUnused scope⟩
  · obtain ⟨slot, isLocal⟩ := exists_localAt_assignSlots keepUnused scope id
    rw [isLocal]
  · rw [localAt_assignSlots, if_pos known]
    exact slotFor_isSome keepUnused scope id
  · intro id other slot otherSlot isSlot isOtherSlot isWithin different
    obtain ⟨known, sameScope, isFirst, counts⟩ := wellFormed.assigned fits isSlot
    obtain ⟨otherKnown, otherScope, isOtherFirst, otherCounts⟩ :=
      wellFormed.assigned fits isOtherSlot
    rw [sameScope, otherScope] at isWithin
    have around : (scope.localAt other).scope ∈ scope.enclosing (scope.localAt id).scope :=
      List.contains_iff_mem.mp isWithin
    rw [isFirst, isOtherFirst, counts, otherCounts]
    exact wellFormed.firstSlot_apart keepUnused known otherKnown
      (wellFormed.mem_enclosing_self _) around different
  · intro id slot isSlot
    obtain ⟨known, -, isFirst, counts⟩ := wellFormed.assigned fits isSlot
    rw [isFirst, counts]
    exact Nat.le_trans (wellFormed.firstSlot_add_le keepUnused known)
      (wellFormed.slotDepth_le_frameWidth fits (wellFormed.home id known))
  · by_cases isEmpty : scope.frameWidth keepUnused = 0
    · exact .inr ⟨isEmpty, wellFormed.slot_eq_none fits isEmpty⟩
    · exact .inl (wellFormed.exists_atEnd fits isEmpty)
  · intro id slot isRoot isSlot noneOlder
    exact wellFormed.slot_eq_zero fits isRoot isSlot noneOlder
  · intro id other slot otherSlot sameScope isSlot isOtherSlot isOlder
    obtain ⟨known, isScope, isFirst, counts⟩ := wellFormed.assigned fits isSlot
    obtain ⟨-, otherScope, isOtherFirst, -⟩ := wellFormed.assigned fits isOtherSlot
    rw [isScope, otherScope] at sameScope
    have before := wellFormed.firstSlot_add_le_firstSlot keepUnused known isOlder sameScope
    have takes := LocalVariable.width_pos ((scope.assignSlots keepUnused).localAt id)
    rw [UInt16.lt_iff_toNat_lt, isFirst, isOtherFirst]
    omega

/-- Two locals in the outermost scope and, side by side, an integer that is not used
and one that takes two slots. -/
def sideBySide :
    MethodScope :=
  let local_ (name : String) (type : Ty) (isUsed : Bool) : LocalVariable :=
    { LocalVariable.declared name type ⟨0, 0⟩ with isUsed := isUsed, slot := some 7 }
  ((((initial.declare root (local_ "wide" (.primitive .long) true)).openBlock root).openBlock root).declare 1
    (local_ "unused" (.primitive .int) false)).declare 2 (local_ "inner" (.primitive .long) true)
      |>.declare root (local_ "late" (.primitive .int) true)

/-- The slots of a local that is declared after a block are apart from those inside. -/
theorem sideBySide_laysOut :
    (sideBySide.IsBuilt ∧ sideBySide.FrameFits false) ∧
      LaysOut false sideBySide (sideBySide.assignSlots false) ∧
      (sideBySide.assignSlots false).assignSlots false = sideBySide.assignSlots false := by
  have built : sideBySide.IsBuilt :=
    .declare _ (by decide) (.declare _ (by decide) (.declare _ (by decide)
      (.openBlock (by decide) (.openBlock (by decide) (.declare _ (by decide) .initial)))))
  have fits : sideBySide.FrameFits false := by decide
  exact ⟨⟨built, fits⟩, built.laysOut_assignSlots fits⟩

end MethodScope

end LoopLowering
