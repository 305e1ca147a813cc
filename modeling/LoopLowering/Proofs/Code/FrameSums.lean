import LoopLowering.Proofs.Code.LocalTables
import LoopLowering.Proofs.Locals.FrameSlots
import LoopLowering.Proofs.Machine.ClosedCode

namespace LoopLowering

/-!
# Frames as sums

No pass limits how many locals a method has, and no pass reports a frame that 16 bits
cannot number. Slots and frame size are then the sums of the widths before them,
wrapped. They are those sums, and the frame has its locals in it, exactly if no scope
and those around it take more than 65535 slots.
-/

namespace MethodScope

/-- The slots that a frame needs, counted without a bound: those of the deepest
scope. -/
def frameSlots
    (scope : MethodScope)
    (keepUnused : Bool) :
    Nat :=
  ((List.range scope.blocks.size).map (scope.slotDepth keepUnused)).foldl max 0

/-- Slots and frame size are the numbers of slots before them, counted without a
bound. -/
structure CountsSlots
    (scope : MethodScope)
    (keepUnused : Bool) :
    Prop where
  slots : ∀ {id : Nat} {slot : UInt16},
    (scope.localAt id).slot = some slot → slot.toNat = scope.firstSlot keepUnused id
  frame : scope.frameSize.toNat = scope.frameSlots keepUnused

/-- The slots of every local lie in the frame. -/
def FramesLocals
    (scope : MethodScope) :
    Prop :=
  ∀ {id : Nat} {slot : UInt16},
    (scope.localAt id).slot = some slot →
    slot.toNat + (scope.localAt id).width.toNat ≤ scope.frameSize.toNat

/-- The size of a frame is that of its deepest scope, where depths are wrapped. -/
theorem WellFormed.toNat_frameWidth
    {scope : MethodScope}
    (wellFormed : scope.WellFormed)
    (keepUnused : Bool) :
    (scope.frameWidth keepUnused).toNat = ((List.range scope.blocks.size).map fun id =>
      scope.slotDepth keepUnused id % 65536).foldl max 0 := by
  rw [frameWidth, toNat_foldl_max, List.map_map]
  congr 1
  apply List.map_congr_left
  intro id _
  exact wellFormed.toNat_blockEnd keepUnused id

section Assigned

variable
  {scope : MethodScope}
  {keepUnused : Bool}
  (settled : scope.assignSlots keepUnused = scope)

include settled

/-- Once slots are assigned, the slot of each local is the one counted for it. -/
theorem slot_eq_slotFor
    {id : Nat}
    (known : id < scope.locals.size) :
    (scope.localAt id).slot = scope.slotFor keepUnused id := by
  have assigned := localAt_assignSlots keepUnused scope id
  rw [settled, if_pos known] at assigned
  rw [assigned]

/-- The slot of a local is its first one, wrapped. -/
theorem slot_eq_firstSlot
    {id : Nat}
    (known : id < scope.locals.size) :
    (scope.localAt id).slot =
      if scope.isMaterialized keepUnused id then
        some (UInt16.ofNat (scope.firstSlot keepUnused id))
      else
        none := by
  rw [slot_eq_slotFor settled known]
  have exists_ := slotFor_isSome keepUnused scope id
  cases isSlot : scope.slotFor keepUnused id with
  | none =>
      rw [isSlot] at exists_
      rw [← exists_]
      rfl
  | some slot =>
      rw [isSlot] at exists_
      rw [← exists_, if_pos (by rfl)]
      congr 1
      apply UInt16.toNat_inj.mp
      exact (toNat_slotFor isSlot).1.trans (UInt16.toNat_ofNat' ..).symm

/-- The size of the frame is the one counted for it. -/
theorem frameSize_eq :
    scope.frameSize = scope.frameWidth keepUnused :=
  (congrArg MethodScope.frameSize settled).symm

/-- Slots are counted without wrapping exactly if they fit. -/
theorem WellFormed.countsSlots_iff
    (wellFormed : scope.WellFormed) :
    scope.CountsSlots keepUnused ↔ scope.FrameFits keepUnused := by
  constructor
  · intro counts id known
    have within : scope.slotDepth keepUnused id ≤ scope.frameSlots keepUnused :=
      le_foldl_max (.inr (List.mem_map_of_mem (List.mem_range.mpr known)))
    rw [← counts.frame] at within
    exact Nat.le_trans within (Nat.le_of_lt_succ (UInt16.toNat_lt _))
  · intro fits
    constructor
    · intro id slot isSlot
      rw [← settled] at isSlot
      exact (wellFormed.assigned fits isSlot).2.2.1
    · rw [frameSize_eq settled, wellFormed.toNat_frameWidth, frameSlots]
      congr 1
      apply List.map_congr_left
      intro id member
      exact Nat.mod_eq_of_lt (Nat.lt_succ_of_le (fits id (List.mem_range.mp member)))

/-- The frame has its locals in it exactly if their slots fit. -/
theorem WellFormed.framesLocals_iff
    (wellFormed : scope.WellFormed) :
    scope.FramesLocals ↔ scope.FrameFits keepUnused := by
  constructor
  · intro frames block _
    by_contra exceeds
    -- The local that takes slot 65535 ends behind every frame.
    obtain ⟨id, known, -, starts, ends⟩ :=
      wellFormed.exists_taking (Nat.lt_of_not_le exceeds)
    have exists_ : (scope.slotFor keepUnused id).isSome = true := by
      rw [slotFor_isSome]
      by_contra absent
      rw [slotCount, if_neg absent] at ends
      omega
    obtain ⟨slot, isSlot⟩ := Option.isSome_iff_exists.mp exists_
    obtain ⟨isFirst, counts⟩ := MethodScope.toNat_slotFor isSlot
    have framed := frames ((slot_eq_slotFor settled known).trans isSlot)
    have bounded := scope.frameSize.toNat_lt
    omega
  · intro fits id slot isSlot
    have framed := @WellFormed.slot_le_frameSize scope keepUnused wellFormed
    rw [settled] at framed
    exact framed fits isSlot

end Assigned

end MethodScope

section Methods

variable
  {table : ClassTable}
  {options : CompilerOptions}
  {method : Method}
  {lowered : LoweredMethod}

/-- A method without errors has code, however many locals it has. Its slots and the
size of its frame are the sums of the widths before them, wrapped at 16 bits. They are
the sums themselves exactly if no scope and those around it take more than 65535
slots, which is also when the frame has all locals in it, and then locals that are
seen together do not share slots. -/
theorem countsSlots_lowerMethod
    (isLowered : lowerMethod table options method = .ok lowered)
    (noErrors : lowered.hasErrors = false) :
    ∃ code, lowered.code = some code ∧
      code.maxLocals = lowered.scope.frameSize ∧
      code.maxLocals.toNat = ((List.range lowered.scope.blocks.size).map fun id =>
        lowered.scope.slotDepth options.keepUnusedLocals id % 65536).foldl max 0 ∧
      (∀ id < lowered.scope.locals.size, (lowered.scope.localAt id).slot =
        if lowered.scope.isMaterialized options.keepUnusedLocals id then
          some (UInt16.ofNat (lowered.scope.firstSlot options.keepUnusedLocals id))
        else
          none) ∧
      (lowered.scope.CountsSlots options.keepUnusedLocals ↔
        lowered.scope.FrameFits options.keepUnusedLocals) ∧
      (lowered.scope.FramesLocals ↔ lowered.scope.FrameFits options.keepUnusedLocals) ∧
      (lowered.scope.FrameFits options.keepUnusedLocals → lowered.scope.SeparatesLocals) := by
  obtain ⟨-, sameScope, code, isCode, generated⟩ := exists_code_lowerMethod isLowered noErrors
  have wellFormed := wellFormed_loweringContext table options method
  have settled : (loweringContext table options method).scope.assignSlots
      options.keepUnusedLocals = (loweringContext table options method).scope :=
    MethodScope.assignSlots_assignSlots _ _
  have isFrame : code.maxLocals = (loweringContext table options method).scope.frameSize := by
    obtain ⟨_, _, -, -, finished⟩ := CodeContext.methodCode_eq_ok.mp generated
    simp only [CodeStream.finish, bind_eq_ok, pure_eq_ok] at finished
    obtain ⟨_, -, rfl⟩ := finished
    rfl
  rw [sameScope]
  refine ⟨code, isCode, isFrame, ?_, fun id known => MethodScope.slot_eq_firstSlot settled known,
    wellFormed.countsSlots_iff settled, wellFormed.framesLocals_iff settled,
    separatesLocals_loweringContext⟩
  rw [isFrame, MethodScope.frameSize_eq settled]
  exact wellFormed.toNat_frameWidth _

end Methods

section LongParameters

/-- A method that takes `long` parameters of the given names and does nothing. -/
def Method.takesLongs
    (names : List String) :
    Method where
  name := ⟨"m", .absent⟩
  typeParams := []
  params := names.map fun name => ⟨⟨name, .absent⟩, .named .absent "long", false, none⟩
  returnType := none
  body := ⟨.absent, [], .initial⟩

namespace MethodScope

/-- The locals of a method that takes `long` parameters. -/
def longParams
    (names : List String) :
    MethodScope where
  locals := (names.map fun name =>
    { LocalVariable.declared name (.primitive .long) .absent with isParam := true }).toArray
  blocks := #[⟨none, List.range names.length, []⟩]
  frameSize := 0

variable
  {names : List String}

/-- One of the parameters. -/
theorem localAt_longParams
    {id : Nat}
    (known : id < names.length) :
    (longParams names).localAt id =
      { LocalVariable.declared names[id] (.primitive .long) .absent with isParam := true } := by
  simp [longParams, localAt, known]

/-- A name is not visible before a parameter has it. -/
theorem lookup_longParams
    {name : String}
    (new : name ∉ names) :
    (longParams names).lookup root name = none := by
  have unlike : (longParams names).lookupIn name root = none := by
    rw [lookupIn_eq_find?, List.find?_eq_none]
    intro id member
    have known : id < names.length := by
      simpa [longParams, block, root] using member
    rw [localAt_longParams known, beq_iff_eq]
    rintro rfl
    exact new (List.getElem_mem known)
  change [root].findSome? ((longParams names).lookupIn name) = none
  simp [unlike]

/-- A parameter that is declared comes behind the others. -/
theorem declare_longParams
    (names : List String)
    (name : String) :
    (longParams names).declare root
        { LocalVariable.declared name (.primitive .long) .absent with isParam := true } =
      longParams (names ++ [name]) := by
  simp [longParams, declare, recordLocal, nextLocal, root, LocalVariable.declared,
    List.range_succ]

/-- Every parameter takes two slots. -/
theorem slotCounts_longParams
    (keepUnused : Bool)
    {count : Nat}
    (known : count ≤ names.length) :
    (longParams names).slotCounts keepUnused (List.range count) = 2 * count := by
  have twice : (List.range count).map ((longParams names).slotCount keepUnused) =
      List.replicate count 2 := by
    apply List.eq_replicate_iff.mpr
    refine ⟨by simp, ?_⟩
    intro taken member
    obtain ⟨id, inRange, rfl⟩ := List.mem_map.mp member
    have isLocal := Nat.lt_of_lt_of_le (List.mem_range.mp inRange) known
    rw [slotCount, isMaterialized, localAt_longParams isLocal]
    rfl
  rw [slotCounts, twice]
  exact List.sum_replicate_nat.trans (Nat.mul_comm count 2)

/-- A parameter starts behind two slots for each one before it. -/
theorem firstSlot_longParams
    (keepUnused : Bool)
    {id : Nat}
    (known : id < names.length) :
    (longParams names).firstSlot keepUnused id = 2 * id := by
  obtain ⟨further, isLength⟩ := Nat.exists_eq_add_of_lt known
  have before : (List.range names.length).takeWhile (fun other => other != id) =
      List.range id := by
    rw [isLength, Nat.add_assoc, List.range_add, List.takeWhile_append_of_pos]
    · simp [List.range_succ_eq_map]
    · intro other inRange
      exact bne_iff_ne.mpr (Nat.ne_of_lt (List.mem_range.mp inRange))
  have isRoot : ((longParams names).localAt id).scope = root := by
    rw [localAt_longParams known]
    rfl
  rw [firstSlot, isRoot]
  change 0 + (longParams names).slotCounts keepUnused
    ((List.range names.length).takeWhile fun other => other != id) = 2 * id
  rw [before, slotCounts_longParams keepUnused (Nat.le_of_lt known), Nat.zero_add]

/-- All of them take twice as many slots as there are parameters. -/
theorem slotDepth_longParams
    (keepUnused : Bool)
    (names : List String) :
    (longParams names).slotDepth keepUnused root = 2 * names.length :=
  (Nat.add_zero _).trans (slotCounts_longParams keepUnused (Nat.le_refl names.length))

/-- The slot of a parameter is wrapped. -/
theorem slot_longParams
    (keepUnused : Bool)
    {id : Nat}
    (known : id < names.length) :
    (((longParams names).assignSlots keepUnused).localAt id).slot =
      some (UInt16.ofNat (2 * id)) := by
  have inScope : id < ((longParams names).assignSlots keepUnused).locals.size := by
    simpa [assignSlots, longParams] using known
  have isParam : ((longParams names).assignSlots keepUnused).isMaterialized keepUnused id =
      true := by
    obtain ⟨slot, isLocal⟩ := exists_localAt_assignSlots keepUnused (longParams names) id
    rw [isMaterialized, isLocal, localAt_longParams known]
    rfl
  rw [slot_eq_firstSlot (assignSlots_assignSlots keepUnused (longParams names)) inScope,
    if_pos isParam, firstSlot_assignSlots, firstSlot_longParams keepUnused known]

end MethodScope

/-- Resolution declares the parameters and reports nothing. -/
theorem checkParams_takesLongs
    {before names : List String}
    (apart : (before ++ names).Nodup)
    {state : MethodState}
    (declared : state.scope = .longParams before) :
    (checkParams .builtin (Method.takesLongs names).params state).state =
      { state with scope := .longParams (before ++ names) } := by
  induction names generalizing before state with
  | nil =>
      rw [List.append_nil, ← declared]
      rfl
  | cons name rest inductionHypothesis =>
      have new : name ∉ before := fun member =>
        List.disjoint_of_nodup_append apart member List.mem_cons_self
      have appended : before ++ name :: rest = (before ++ [name]) ++ rest := by
        simp
      have isDeclared : (declareLocal MethodScope.root
          { LocalVariable.declared name (.primitive .long) .absent with isParam := true }
          state).2 = { state with scope := .longParams (before ++ [name]) } := by
        rw [← MethodScope.declare_longParams, ← declared]
        simp [declareLocal, declared, MethodScope.lookup_longParams new, MethodState.reportIf,
          LocalVariable.declared, MethodState.mapScope]
      rw [appended] at apart ⊢
      change (checkParams .builtin (Method.takesLongs rest).params (declareLocal MethodScope.root
          { LocalVariable.declared name (.primitive .long) .absent with isParam := true }
          state).2).state = _
      rw [isDeclared]
      exact inductionHypothesis apart rfl

/-- However many parameters there are, the method is lowered and nothing is
reported. -/
theorem lowerMethod_takesLongs
    {names : List String}
    (apart : names.Nodup) :
    ∃ lowered, lowerMethod .builtin .standard (.takesLongs names) = .ok lowered ∧
      lowered.diagnostics = #[] ∧
      lowered.scope = (MethodScope.longParams names).assignSlots false := by
  have checked : (checkMethod .builtin .standard (.takesLongs names) .initial).state =
      { MethodState.initial with scope := .longParams names } := by
    have fromNone : ([] ++ names).Nodup := apart
    exact checkParams_takesLongs fromNone rfl
  have isState : (analyzedMethod .builtin .standard (.takesLongs names)).state =
      { MethodState.initial with scope := .longParams names } := by
    change checkCompletion _ _
      (checkMethod .builtin .standard (.takesLongs names) .initial).state = _
    rw [checked]
    simp only [checkCompletion, MethodState.reportIf, MethodState.initial, bne_self_eq_false,
      Bool.and_false, Bool.false_and, Bool.false_eq_true, if_false]
    congr 1
    exact reachable_atBody _ _
  have clean : (analyzedMethod .builtin .standard (.takesLongs names)).state.Clean := by
    simp [MethodState.Clean, isState, Diagnostics.hasErrors, MethodState.initial]
  obtain ⟨code, generated⟩ := (exists_methodCode_iff (ClassTable.builtin_sound false _)
    (Method.takesLongs names).isAllowed_lenient clean).mpr (by
      intro emission member
      cases member)
  refine ⟨_, lowerMethod_of_methodCode generated, ?_, ?_⟩
  · rw [isState]
    rfl
  · change MethodScope.assignSlots _ (analyzedMethod _ _ _).state.scope = _
    rw [isState]
    rfl

/-- Of 32769 parameters that take two slots each, the last one starts at slot 65536. That
is slot 0 again, which the first one has, and the frame is left with two slots. -/
theorem takesLongs_sharesSlots :
    ∃ names lowered code, names.Nodup ∧ names.length = 32769 ∧
      lowerMethod .builtin .standard (.takesLongs names) = .ok lowered ∧
      lowered.diagnostics = #[] ∧ lowered.code = some code ∧ code.maxLocals = 2 ∧
      (lowered.scope.localAt 0).slot = some 0 ∧
      (lowered.scope.localAt 32768).slot = some 0 ∧
      ¬lowered.scope.CountsSlots false ∧ ¬lowered.scope.FramesLocals := by
  obtain ⟨names, apart, isLength⟩ :
      ∃ names : List String, names.Nodup ∧ names.length = 32769 := by
    refine ⟨(List.range 32769).map fun length => String.ofList (List.replicate length 'p'), ?_,
      by simp⟩
    apply List.nodup_range.map
    intro first second same
    simpa using congrArg String.length same
  obtain ⟨lowered, isLowered, reportsNothing, isScope⟩ := lowerMethod_takesLongs apart
  have noErrors : lowered.hasErrors = false := by
    simp [LoweredMethod.hasErrors, reportsNothing, Diagnostics.hasErrors]
  obtain ⟨code, isCode, -, isFrame, -, counts, frames, -⟩ :=
    countsSlots_lowerMethod isLowered noErrors
  have depth : lowered.scope.slotDepth false MethodScope.root = 65538 := by
    rw [isScope, MethodScope.slotDepth_assignSlots, MethodScope.slotDepth_longParams, isLength]
  have oneBlock : lowered.scope.blocks.size = 1 := by
    rw [isScope]
    rfl
  have exceeds : ¬lowered.scope.FrameFits false := by
    intro fits
    have bounded := fits MethodScope.root (oneBlock ▸ Nat.zero_lt_one)
    omega
  refine ⟨names, lowered, code, apart, isLength, isLowered, reportsNothing, isCode, ?_, ?_, ?_,
    fun exact_ => exceeds (counts.mp exact_), fun framed => exceeds (frames.mp framed)⟩
  · apply UInt16.toNat_inj.mp
    rw [isFrame, oneBlock]
    change [lowered.scope.slotDepth false MethodScope.root % 65536].foldl max 0 = 2
    rw [depth]
    rfl
  · rw [isScope, MethodScope.slot_longParams false (by omega)]
    rfl
  · rw [isScope, MethodScope.slot_longParams false (by omega)]
    rfl

end LongParameters

end LoopLowering
