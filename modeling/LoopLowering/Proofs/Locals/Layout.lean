import LoopLowering.Locals.Slots
import LoopLowering.Proofs.Locals.WellFormed

namespace LoopLowering

/-!
# Frame layout

Frame slots are 16-bit numbers. As long as no scope and the scopes around it take
more slots than that, the slots of a local are counted without wrapping: they lie
inside the frame, and they are apart from those of every other local that some
scope sees as well.
-/

namespace MethodScope

/-- Assigning slots changes the slot of a local only. -/
theorem localAt_assignSlots
    (keepUnused : Bool)
    (scope : MethodScope)
    (id : Nat) :
    (scope.assignSlots keepUnused).localAt id =
      if id < scope.locals.size then { scope.localAt id with slot := scope.slotFor keepUnused id }
      else default := by
  simp only [localAt, assignSlots, Array.getElem?_mapIdx]
  split
  · next known =>
      simp [Array.getElem?_eq_getElem known]
  · next unknown =>
      simp [Array.getElem?_eq_none (Nat.le_of_not_lt unknown)]

/-- A local has a slot exactly if it exists in the code. -/
theorem slotFor_isSome
    (keepUnused : Bool)
    (scope : MethodScope)
    (id : Nat) :
    (scope.slotFor keepUnused id).isSome = scope.isMaterialized keepUnused id := by
  simp only [slotFor]
  split <;> simp_all

section Counting

/-- The frame slots of a local: none if it does not exist in the code. -/
def slotCount
    (scope : MethodScope)
    (keepUnused : Bool)
    (id : Nat) :
    Nat :=
  if scope.isMaterialized keepUnused id then (scope.localAt id).width.toNat else 0

/-- The frame slots of some locals. -/
def slotCounts
    (scope : MethodScope)
    (keepUnused : Bool)
    (ids : List Nat) :
    Nat :=
  (ids.map (scope.slotCount keepUnused)).foldr (· + ·) 0

/-- The frame slots of some scopes. -/
def blockCounts
    (scope : MethodScope)
    (keepUnused : Bool)
    (ids : List Nat) :
    Nat :=
  (ids.map fun id => scope.slotCounts keepUnused (scope.block id).locals).foldr (· + ·) 0

/-- The frame slots of a scope and of those around it. -/
def slotDepth
    (scope : MethodScope)
    (keepUnused : Bool)
    (id : Nat) :
    Nat :=
  scope.blockCounts keepUnused (scope.enclosing id)

/-- The slots of a frame can be numbered by 16 bits. -/
def FrameFits
    (scope : MethodScope)
    (keepUnused : Bool) :
    Prop :=
  ∀ id < scope.blocks.size, scope.slotDepth keepUnused id ≤ 65535

instance
    (scope : MethodScope)
    (keepUnused : Bool) :
    Decidable (scope.FrameFits keepUnused) :=
  inferInstanceAs (Decidable (∀ id < scope.blocks.size, scope.slotDepth keepUnused id ≤ 65535))

/-- The slots of the locals before a local in its scope. -/
def slotsBefore
    (scope : MethodScope)
    (keepUnused : Bool)
    (id : Nat)
    (ids : List Nat) :
    Nat :=
  scope.slotCounts keepUnused (ids.takeWhile fun other => other != id)

/-- The first slot of a local, counted without a bound. -/
def firstSlot
    (scope : MethodScope)
    (keepUnused : Bool)
    (id : Nat) :
    Nat :=
  scope.blockCounts keepUnused (scope.enclosing (scope.localAt id).scope).tail +
    scope.slotsBefore keepUnused id (scope.block (scope.localAt id).scope).locals

end Counting

section Sums

/-- A sum of 16-bit numbers wraps at 16 bits. -/
theorem toNat_sum :
    ∀ numbers : List UInt16,
      (numbers.foldr (· + ·) 0).toNat = (numbers.map UInt16.toNat).foldr (· + ·) 0 % 65536
  | [] => rfl
  | number :: rest => by
      rw [List.foldr_cons, List.map_cons, List.foldr_cons, UInt16.toNat_add, toNat_sum rest]
      omega

/-- The greatest of some 16-bit numbers is that of the numbers they stand for. -/
theorem toNat_foldl_max
    (numbers : List UInt16)
    (start : UInt16) :
    (numbers.foldl max start).toNat = (numbers.map UInt16.toNat).foldl max start.toNat := by
  induction numbers generalizing start with
  | nil =>
      rfl
  | cons first rest inductionHypothesis =>
      have greater : (max start first).toNat = max start.toNat first.toNat := by
        by_cases ordered : start ≤ first
        · have isFirst : max start first = first := if_pos ordered
          rw [isFirst, Nat.max_eq_right (UInt16.le_iff_toNat_le.mp ordered)]
        · have isStart : max start first = start := if_neg ordered
          rw [UInt16.le_iff_toNat_le] at ordered
          rw [isStart, Nat.max_eq_left (by omega)]
      rw [List.foldl_cons, inductionHypothesis, greater, List.map_cons, List.foldl_cons]

/-- The greatest of some numbers is at least each of them. -/
theorem le_foldl_max
    {numbers : List Nat}
    {start number : Nat}
    (member : number ≤ start ∨ number ∈ numbers) :
    number ≤ numbers.foldl max start := by
  induction numbers generalizing start with
  | nil =>
      exact member.resolve_right List.not_mem_nil
  | cons first rest inductionHypothesis =>
      rw [List.foldl_cons]
      apply inductionHypothesis
      rcases member with atMost | isMember
      · exact .inl (Nat.le_trans atMost (Nat.le_max_left _ _))
      · rcases List.mem_cons.mp isMember with rfl | further
        · exact .inl (Nat.le_max_right _ _)
        · exact .inr further

end Sums

section Layout

variable
  {scope : MethodScope}
  {keepUnused : Bool}

/-- The locals before a local and the local itself are some of the locals. -/
theorem slotsBefore_add_le
    {id : Nat} :
    ∀ {ids : List Nat},
      id ∈ ids →
      scope.slotsBefore keepUnused id ids + scope.slotCount keepUnused id ≤
        scope.slotCounts keepUnused ids
  | first :: rest, member => by
      by_cases same : first = id
      · subst same
        simp [slotsBefore, slotCounts]
      · have further : id ∈ rest := (List.mem_cons.mp member).resolve_left (Ne.symm same)
        have remaining := slotsBefore_add_le further
        simp only [slotsBefore, slotCounts, List.takeWhile_cons, bne_iff_ne, ne_eq, same,
          not_false_eq_true, if_true, List.map_cons, List.foldr_cons] at remaining ⊢
        omega

/-- The locals before a local and the local itself come before an older one. -/
theorem slotsBefore_add_le_slotsBefore
    {older younger : Nat}
    (ordered : older < younger) :
    ∀ {ids : List Nat},
      ids.Pairwise (· < ·) →
      older ∈ ids →
      scope.slotsBefore keepUnused older ids + scope.slotCount keepUnused older ≤
        scope.slotsBefore keepUnused younger ids
  | first :: rest, sorted, member => by
      have notYounger : first ≠ younger := by
        rintro rfl
        rcases List.mem_cons.mp member with rfl | further
        · exact Nat.lt_irrefl _ ordered
        · exact Nat.lt_asymm ordered (List.rel_of_pairwise_cons sorted further)
      by_cases same : first = older
      · subst same
        simp [slotsBefore, slotCounts, notYounger]
      · have further : older ∈ rest := (List.mem_cons.mp member).resolve_left (Ne.symm same)
        have remaining := slotsBefore_add_le_slotsBefore ordered sorted.of_cons further
        simp only [slotsBefore, slotCounts, List.takeWhile_cons, bne_iff_ne, ne_eq, same,
          notYounger, not_false_eq_true, if_true, List.map_cons, List.foldr_cons] at remaining ⊢
        omega

/-- The slots of some locals are counted with wrapping. -/
theorem toNat_widthOf
    (scope : MethodScope)
    (keepUnused : Bool)
    (ids : List Nat) :
    (scope.widthOf keepUnused ids).toNat = scope.slotCounts keepUnused ids % 65536 := by
  have counted : ((ids.map fun id => if scope.isMaterialized keepUnused id then
      (scope.localAt id).width else 0).map UInt16.toNat) =
        ids.map (scope.slotCount keepUnused) := by
    rw [List.map_map]
    apply List.map_congr_left
    intro id _
    simp only [Function.comp_apply, slotCount]
    split <;> rfl
  rw [slotCounts, ← counted]
  exact toNat_sum _

/-- The slots before a scope are counted with wrapping. -/
theorem toNat_blockStart
    (scope : MethodScope)
    (keepUnused : Bool)
    (id : Nat) :
    (scope.blockStart keepUnused id).toNat =
      scope.blockCounts keepUnused (scope.enclosing id).tail % 65536 := by
  rw [blockStart, blockCounts]
  induction (scope.enclosing id).tail with
  | nil =>
      rfl
  | cons first rest inductionHypothesis =>
      simp only [List.map_cons, List.foldr_cons]
      rw [UInt16.toNat_add, inductionHypothesis, blockWidth, toNat_widthOf]
      omega

/-- A local comes after those before it in its scope. -/
theorem slotAmong_eq
    (scope : MethodScope)
    (keepUnused : Bool)
    (id : Nat)
    (ids : List Nat)
    (next : UInt16) :
    scope.slotAmong keepUnused id next ids =
      next + scope.widthOf keepUnused (ids.takeWhile fun other => other != id) := by
  induction ids generalizing next with
  | nil =>
      exact (UInt16.add_zero next).symm
  | cons first rest inductionHypothesis =>
      by_cases same : first = id
      · simp [slotAmong, widthOf, same]
      · simp only [slotAmong, beq_iff_eq, same, if_false, List.takeWhile_cons, bne_iff_ne, ne_eq,
          not_false_eq_true, if_true, widthOf, List.map_cons, List.foldr_cons]
        split <;> rw [inductionHypothesis, widthOf]
        · rw [UInt16.add_assoc]
        · rw [UInt16.zero_add]

/-- The slots of a scope come after those of the scopes around it. -/
theorem WellFormed.slotDepth_eq
    (wellFormed : scope.WellFormed)
    (id : Nat) :
    scope.slotDepth keepUnused id = scope.slotCounts keepUnused (scope.block id).locals +
      scope.blockCounts keepUnused (scope.enclosing id).tail := by
  rw [slotDepth, wellFormed.enclosing_eq id]
  rfl

/-- A scope takes no more slots than one inside it. -/
theorem WellFormed.slotDepth_le
    (wellFormed : scope.WellFormed)
    {id : Nat} :
    ∀ {other : Nat}, other ∈ scope.enclosing id →
      scope.slotDepth keepUnused other ≤ scope.slotDepth keepUnused id := by
  induction id using Nat.strongRecOn with
  | ind id inductionHypothesis =>
      intro other around
      rw [wellFormed.enclosing_eq id] at around
      rcases List.mem_cons.mp around with rfl | above
      · exact Nat.le_refl _
      · rw [wellFormed.slotDepth_eq id, wellFormed.enclosing_eq id]
        cases isParent : (scope.block id).parent with
        | none =>
            simp [isParent] at above
        | some parent =>
            simp only [isParent] at above
            have deeper := inductionHypothesis parent (wellFormed.parentOlder isParent) above
            simp only [List.tail_cons]
            exact Nat.le_trans deeper (Nat.le_add_left _ _)

/-- A scope takes no more slots than come before those of a scope inside it. -/
theorem WellFormed.slotDepth_le_tail
    (wellFormed : scope.WellFormed)
    (keepUnused : Bool)
    {id other : Nat}
    (around : other ∈ scope.enclosing id)
    (different : other ≠ id) :
    scope.slotDepth keepUnused other ≤
      scope.blockCounts keepUnused (scope.enclosing id).tail := by
  rw [wellFormed.enclosing_eq id] at around ⊢
  have above := (List.mem_cons.mp around).resolve_left different
  cases isParent : (scope.block id).parent with
  | none =>
      simp [isParent] at above
  | some parent =>
      simp only [isParent] at above
      exact wellFormed.slotDepth_le above

/-- Of two scopes around a scope, one is around the other. -/
theorem WellFormed.enclosing_total
    (wellFormed : scope.WellFormed)
    {id : Nat} :
    ∀ {first second : Nat},
      first ∈ scope.enclosing id →
      second ∈ scope.enclosing id →
      first ∈ scope.enclosing second ∨ second ∈ scope.enclosing first := by
  induction id using Nat.strongRecOn with
  | ind id inductionHypothesis =>
      intro first second firstAround secondAround
      have firstInside := firstAround
      have secondInside := secondAround
      rw [wellFormed.enclosing_eq id] at firstInside secondInside
      rcases List.mem_cons.mp firstInside with rfl | firstAbove
      · exact .inr secondAround
      · rcases List.mem_cons.mp secondInside with rfl | secondAbove
        · exact .inl firstAround
        · cases isParent : (scope.block id).parent with
          | none =>
              simp [isParent] at firstAbove
          | some parent =>
              simp only [isParent] at firstAbove secondAbove
              exact inductionHypothesis parent (wellFormed.parentOlder isParent) firstAbove
                secondAbove

/-- The slots of a local are among those of its scope. -/
theorem WellFormed.firstSlot_add_le
    (wellFormed : scope.WellFormed)
    (keepUnused : Bool)
    {id : Nat}
    (known : id < scope.locals.size) :
    scope.firstSlot keepUnused id + scope.slotCount keepUnused id ≤
      scope.slotDepth keepUnused (scope.localAt id).scope := by
  have member := (wellFormed.mem_locals (scope.localAt id).scope id).mpr ⟨known, rfl⟩
  have within : scope.slotsBefore keepUnused id (scope.block (scope.localAt id).scope).locals +
      scope.slotCount keepUnused id ≤
        scope.slotCounts keepUnused (scope.block (scope.localAt id).scope).locals :=
    slotsBefore_add_le member
  rw [wellFormed.slotDepth_eq, firstSlot]
  omega

/-- In one scope, the slots of an older local come first. -/
theorem WellFormed.firstSlot_add_le_firstSlot
    (wellFormed : scope.WellFormed)
    (keepUnused : Bool)
    {older younger : Nat}
    (known : older < scope.locals.size)
    (ordered : older < younger)
    (sameScope : (scope.localAt older).scope = (scope.localAt younger).scope) :
    scope.firstSlot keepUnused older + scope.slotCount keepUnused older ≤
      scope.firstSlot keepUnused younger := by
  have member := (wellFormed.mem_locals (scope.localAt older).scope older).mpr ⟨known, rfl⟩
  have before : scope.slotsBefore keepUnused older
      (scope.block (scope.localAt older).scope).locals + scope.slotCount keepUnused older ≤
        scope.slotsBefore keepUnused younger
          (scope.block (scope.localAt older).scope).locals :=
    slotsBefore_add_le_slotsBefore ordered (wellFormed.sorted _) member
  simp only [firstSlot, ← sameScope]
  omega

/-- The slots of two locals that some scope sees are apart. -/
theorem WellFormed.firstSlot_apart
    (wellFormed : scope.WellFormed)
    (keepUnused : Bool)
    {block id other : Nat}
    (known : id < scope.locals.size)
    (otherKnown : other < scope.locals.size)
    (around : (scope.localAt id).scope ∈ scope.enclosing block)
    (otherAround : (scope.localAt other).scope ∈ scope.enclosing block)
    (different : id ≠ other) :
    scope.firstSlot keepUnused id + scope.slotCount keepUnused id ≤
        scope.firstSlot keepUnused other ∨
      scope.firstSlot keepUnused other + scope.slotCount keepUnused other ≤
        scope.firstSlot keepUnused id := by
  -- In the same scope the older local comes first, and otherwise that of the outer scope.
  have outside : ∀ {outer inner : Nat}, outer < scope.locals.size →
      (scope.localAt outer).scope ∈ scope.enclosing (scope.localAt inner).scope →
      (scope.localAt outer).scope ≠ (scope.localAt inner).scope →
      scope.firstSlot keepUnused outer + scope.slotCount keepUnused outer ≤
        scope.firstSlot keepUnused inner := by
    intro outer inner isKnown isAround differ
    have within := wellFormed.firstSlot_add_le keepUnused isKnown
    have above := wellFormed.slotDepth_le_tail keepUnused isAround differ
    exact Nat.le_trans (Nat.le_trans within above) (Nat.le_add_right _ _)
  by_cases sameScope : (scope.localAt id).scope = (scope.localAt other).scope
  · rcases Nat.lt_or_gt_of_ne different with older | younger
    · exact .inl (wellFormed.firstSlot_add_le_firstSlot keepUnused known older sameScope)
    · exact .inr (wellFormed.firstSlot_add_le_firstSlot keepUnused otherKnown younger
        sameScope.symm)
  · rcases wellFormed.enclosing_total around otherAround with outer | inner
    · exact .inl (outside known outer sameScope)
    · exact .inr (outside otherKnown inner (Ne.symm sameScope))

/-- The slot of a local that exists in the code is its first one, counted with
wrapping. -/
theorem toNat_slotFor
    {id : Nat}
    {slot : UInt16}
    (isSlot : scope.slotFor keepUnused id = some slot) :
    slot.toNat = scope.firstSlot keepUnused id % 65536 ∧
      scope.slotCount keepUnused id = (scope.localAt id).width.toNat := by
  simp only [slotFor, slotAmong_eq, Option.ite_none_right_eq_some, Option.some.injEq] at isSlot
  obtain ⟨exists_, rfl⟩ := isSlot
  rw [UInt16.toNat_add, toNat_blockStart, toNat_widthOf, slotCount, if_pos exists_]
  exact ⟨(Nat.add_mod _ _ _).symm, rfl⟩

/-- In a frame that fits, it is not wrapped. -/
theorem WellFormed.toNat_slotFor
    (wellFormed : scope.WellFormed)
    (fits : scope.FrameFits keepUnused)
    {id : Nat}
    (known : id < scope.locals.size)
    {slot : UInt16}
    (isSlot : scope.slotFor keepUnused id = some slot) :
    slot.toNat = scope.firstSlot keepUnused id ∧
      scope.slotCount keepUnused id = (scope.localAt id).width.toNat := by
  have within := wellFormed.firstSlot_add_le keepUnused known
  have bounded := fits _ (wellFormed.home id known)
  obtain ⟨isFirst, counts⟩ := MethodScope.toNat_slotFor isSlot
  exact ⟨by omega, counts⟩

/-- The end of a scope is counted with wrapping. -/
theorem WellFormed.toNat_blockEnd
    (wellFormed : scope.WellFormed)
    (keepUnused : Bool)
    (id : Nat) :
    (scope.blockEnd keepUnused id).toNat = scope.slotDepth keepUnused id % 65536 := by
  rw [wellFormed.slotDepth_eq, blockEnd, UInt16.toNat_add, toNat_blockStart, blockWidth,
    toNat_widthOf]
  omega

/-- The end of a scope whose slots fit is not wrapped. -/
theorem WellFormed.toNat_blockEnd_of_fits
    (wellFormed : scope.WellFormed)
    (fits : scope.FrameFits keepUnused)
    {id : Nat}
    (known : id < scope.blocks.size) :
    (scope.blockEnd keepUnused id).toNat = scope.slotDepth keepUnused id := by
  have bounded := fits id known
  rw [wellFormed.toNat_blockEnd]
  exact Nat.mod_eq_of_lt (Nat.lt_succ_of_le bounded)

/-- The frame has room for the slots of every scope. -/
theorem WellFormed.slotDepth_le_frameWidth
    (wellFormed : scope.WellFormed)
    (fits : scope.FrameFits keepUnused)
    {id : Nat}
    (known : id < scope.blocks.size) :
    scope.slotDepth keepUnused id ≤ (scope.frameWidth keepUnused).toNat := by
  rw [← wellFormed.toNat_blockEnd_of_fits fits known, frameWidth, toNat_foldl_max]
  exact le_foldl_max (.inr (List.mem_map_of_mem (List.mem_map_of_mem
    (List.mem_range.mpr known))))

end Layout

section Assigned

variable
  {scope : MethodScope}
  {keepUnused : Bool}

/-- Assigning slots does not change how many a local takes. -/
theorem slotCount_assignSlots
    (keepUnused : Bool)
    (scope : MethodScope)
    (id : Nat) :
    (scope.assignSlots keepUnused).slotCount keepUnused id = scope.slotCount keepUnused id := by
  have count : ∀ entry other : LocalVariable, entry = other →
      (if entry.isMaterialized keepUnused then entry.width.toNat else 0) =
        if other.isMaterialized keepUnused then other.width.toNat else 0 := by
    rintro entry _ rfl
    rfl
  by_cases known : id < scope.locals.size
  · exact count _ { scope.localAt id with slot := scope.slotFor keepUnused id } (by
      rw [localAt_assignSlots, if_pos known])
  · exact count _ _ (by rw [localAt_assignSlots, if_neg known, localAt_unknown known])

/-- Assigning slots does not change how many the scopes take. -/
theorem slotDepth_assignSlots
    (keepUnused : Bool)
    (scope : MethodScope)
    (id : Nat) :
    (scope.assignSlots keepUnused).slotDepth keepUnused id = scope.slotDepth keepUnused id := by
  have same : (scope.assignSlots keepUnused).slotCount keepUnused =
      scope.slotCount keepUnused :=
    funext (slotCount_assignSlots keepUnused scope)
  unfold slotDepth blockCounts slotCounts
  rw [same]
  rfl

/-- The local of an assigned slot. -/
theorem slotFor_of_assignSlots
    {id : Nat}
    {slot : UInt16}
    (isSlot : ((scope.assignSlots keepUnused).localAt id).slot = some slot) :
    id < scope.locals.size ∧ scope.slotFor keepUnused id = some slot := by
  rw [localAt_assignSlots] at isSlot
  split at isSlot
  · next known =>
      exact ⟨known, isSlot⟩
  · cases isSlot

/-- Whether a frame fits does not depend on its slots. -/
theorem frameFits_assignSlots
    (keepUnused : Bool)
    (scope : MethodScope) :
    (scope.assignSlots keepUnused).FrameFits keepUnused ↔ scope.FrameFits keepUnused := by
  simp only [FrameFits, slotDepth_assignSlots]
  rfl

/-- What a local with a slot is, and where its slots are. -/
theorem WellFormed.assigned
    (wellFormed : scope.WellFormed)
    (fits : scope.FrameFits keepUnused)
    {id : Nat}
    {slot : UInt16}
    (isSlot : ((scope.assignSlots keepUnused).localAt id).slot = some slot) :
    id < scope.locals.size ∧
      ((scope.assignSlots keepUnused).localAt id).scope = (scope.localAt id).scope ∧
      slot.toNat = scope.firstSlot keepUnused id ∧
      ((scope.assignSlots keepUnused).localAt id).width.toNat = scope.slotCount keepUnused id := by
  obtain ⟨known, isFor⟩ := slotFor_of_assignSlots isSlot
  obtain ⟨isFirst, counts⟩ := wellFormed.toNat_slotFor fits known isFor
  have isLocal : (scope.assignSlots keepUnused).localAt id =
      { scope.localAt id with slot := scope.slotFor keepUnused id } := by
    rw [localAt_assignSlots, if_pos known]
  rw [isLocal, counts]
  exact ⟨known, rfl, isFirst, rfl⟩

/-- The slots of a local lie inside a frame that fits. -/
theorem WellFormed.slot_le_frameSize
    (wellFormed : scope.WellFormed)
    (fits : (scope.assignSlots keepUnused).FrameFits keepUnused)
    {id : Nat}
    {slot : UInt16}
    (isSlot : ((scope.assignSlots keepUnused).localAt id).slot = some slot) :
    slot.toNat + ((scope.assignSlots keepUnused).localAt id).width.toNat ≤
      (scope.assignSlots keepUnused).frameSize.toNat := by
  rw [frameFits_assignSlots] at fits
  obtain ⟨known, -, isFirst, counts⟩ := wellFormed.assigned fits isSlot
  have within := wellFormed.firstSlot_add_le keepUnused known
  have framed := wellFormed.slotDepth_le_frameWidth fits (wellFormed.home id known)
  rw [isFirst, counts]
  exact Nat.le_trans within framed

/-- The slots of two locals that some scope sees are apart in a frame that
fits. -/
theorem WellFormed.slots_apart
    (wellFormed : scope.WellFormed)
    (fits : (scope.assignSlots keepUnused).FrameFits keepUnused)
    {block id other : Nat}
    {slot otherSlot : UInt16}
    (isSlot : ((scope.assignSlots keepUnused).localAt id).slot = some slot)
    (isOtherSlot : ((scope.assignSlots keepUnused).localAt other).slot = some otherSlot)
    (around : ((scope.assignSlots keepUnused).localAt id).scope ∈ scope.enclosing block)
    (otherAround : ((scope.assignSlots keepUnused).localAt other).scope ∈ scope.enclosing block)
    (different : id ≠ other) :
    slot.toNat + ((scope.assignSlots keepUnused).localAt id).width.toNat ≤ otherSlot.toNat ∨
      otherSlot.toNat + ((scope.assignSlots keepUnused).localAt other).width.toNat ≤
        slot.toNat := by
  rw [frameFits_assignSlots] at fits
  obtain ⟨known, sameScope, isFirst, counts⟩ := wellFormed.assigned fits isSlot
  obtain ⟨otherKnown, otherScope, isOtherFirst, otherCounts⟩ :=
    wellFormed.assigned fits isOtherSlot
  rw [sameScope] at around
  rw [otherScope] at otherAround
  rw [isFirst, isOtherFirst, counts, otherCounts]
  exact wellFormed.firstSlot_apart keepUnused known otherKnown around otherAround different

end Assigned

end MethodScope

end LoopLowering
