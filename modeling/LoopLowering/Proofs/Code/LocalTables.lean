import LoopLowering.Proofs.Code.LiveRanges
import LoopLowering.Proofs.Code.Methods
import LoopLowering.Proofs.Locals.Layout
import Mathlib.Data.List.Sort

namespace LoopLowering

/-!
# The table of locals

The table of a method lists ranges of source locals in the order of their slots.
Ranges of locals whose slots overlap do not, so that at each instruction a slot
belongs to one local at most.
-/

/-- Ordering a list is sorting it. -/
theorem stableOrder_eq_insertionSort
    (comesAfter : α → α → Bool)
    (items : List α) :
    stableOrder comesAfter items =
      items.insertionSort fun first second => comesAfter first second = false := by
  have inserts : ∀ (item : α) (items : List α),
      insertOrdered comesAfter item items =
        items.orderedInsert (fun first second => comesAfter first second = false) item := by
    intro item items
    induction items with
    | nil =>
        rfl
    | cons other rest inductionHypothesis =>
        cases after : comesAfter item other <;>
          simp [insertOrdered, List.orderedInsert, after, inductionHypothesis]
  induction items with
  | nil =>
      rfl
  | cons item rest inductionHypothesis =>
      rw [List.insertionSort_cons, ← inductionHypothesis, ← inserts]
      rfl

/-- A range comes before another: it has a lower slot, or the same slot and starts no
later. -/
def LocalRange.ComesBefore
    (first second : LocalRange) :
    Prop :=
  first.slot < second.slot ∨ first.slot = second.slot ∧ first.start ≤ second.start

namespace LocalRange

variable
  {first second third : LocalRange}

/-- Of two ranges one comes before the other. -/
theorem comesBefore_total
    (first second : LocalRange) :
    first.ComesBefore second ∨ second.ComesBefore first := by
  simp only [ComesBefore, UInt16.lt_iff_toNat_lt, ← UInt16.toNat_inj]
  omega

theorem ComesBefore.trans
    (earlier : first.ComesBefore second)
    (later : second.ComesBefore third) :
    first.ComesBefore third := by
  simp only [ComesBefore, UInt16.lt_iff_toNat_lt, ← UInt16.toNat_inj] at earlier later ⊢
  omega

end LocalRange

namespace CodeStream

/-- A range that is not listed after another comes before it. -/
theorem listedAfter_eq_false
    {first second : LocalRange} :
    listedAfter first second = false ↔ first.ComesBefore second := by
  simp only [listedAfter, LocalRange.ComesBefore, Bool.or_eq_false_iff, Bool.and_eq_false_iff,
    beq_eq_false_iff_ne, decide_eq_false_iff_not, UInt16.lt_iff_toNat_lt, ← UInt16.toNat_inj,
    ne_eq]
  omega

end CodeStream

/-- A table lists a range of a local: a source local, in its slots in the frame, and a
range with instructions. -/
structure MethodCode.ListsLocal
    (code : MethodCode)
    (scope : MethodScope)
    (id : LocalId)
    (range : LocalRange) :
    Prop where
  name : range.name = (scope.localAt id).name
  slot : (scope.localAt id).slot = some range.slot
  isSource : (scope.localAt id).isSynthetic = false
  starts : range.start < range.stop
  stops : range.stop ≤ code.instructions.size
  framed : range.slot.toNat + (scope.localAt id).width.toNat ≤ code.maxLocals.toNat

/-- The table of a method lists ranges of source locals in the order of their slots,
and the ranges of locals that share slots are disjoint. -/
structure MethodCode.ListsLocals
    (code : MethodCode)
    (scope : MethodScope)
    (rows : List (LocalId × LocalRange)) :
    Prop where
  isTable : rows.map Prod.snd = code.locals
  lists : ∀ row ∈ rows, code.ListsLocal scope row.1 row.2
  sorted : code.locals.Pairwise LocalRange.ComesBefore
  disjoint : rows.Pairwise fun first second => scope.SharesSlots first.1 second.1 →
    first.2.stop ≤ second.2.start ∨ second.2.stop ≤ first.2.start

theorem MethodScope.SharesSlots.symm
    {scope : MethodScope}
    {id other : Nat}
    (shares : scope.SharesSlots id other) :
    scope.SharesSlots other id := by
  obtain ⟨slot, otherSlot, isSlot, isOtherSlot, before, after⟩ := shares
  exact ⟨otherSlot, slot, isOtherSlot, isSlot, after, before⟩

namespace CodeStream

variable
  {scope : MethodScope}

/-- The row of the table for a range, if the table lists it. -/
def tabledRow?
    (scope : MethodScope)
    (range : LiveRange) :
    Option (LocalId × LocalRange) :=
  (tabledRange? scope range).map fun listed => (range.id, listed)

/-- What the table says of a range. -/
theorem tabledRow?_eq_some
    {range : LiveRange}
    {row : LocalId × LocalRange} :
    tabledRow? scope range = some row ↔
      row.1 = range.id ∧ row.2.name = (scope.localAt range.id).name ∧
        (scope.localAt range.id).slot = some row.2.slot ∧ range.stop = some row.2.stop ∧
        row.2.start = range.start ∧ (scope.localAt range.id).isSynthetic = false ∧
        range.start < row.2.stop := by
  obtain ⟨id, name, slot, start, stop⟩ := row
  simp only [tabledRow?, tabledRange?, Option.map_eq_some_iff, Option.bind_eq_bind,
    Option.bind_eq_some_iff, Option.ite_none_right_eq_some, Bool.and_eq_true, Bool.not_eq_true',
    decide_eq_true_eq, Option.some.injEq, Prod.mk.injEq]
  constructor
  · rintro ⟨listed, ⟨found, isSlot, ended, isStop, ⟨isSource, isRange⟩, rfl⟩, rfl, ⟨⟩⟩
    exact ⟨rfl, rfl, isSlot, isStop, rfl, isSource, isRange⟩
  · rintro ⟨rfl, rfl, isSlot, isStop, rfl, isSource, isRange⟩
    exact ⟨_, ⟨slot, isSlot, stop, isStop, ⟨isSource, isRange⟩, rfl⟩, rfl, rfl⟩

/-- The table of a finished stream lists the ranges that code generation has kept
apart. -/
theorem exists_rows_finish
    {block : Nat}
    {code : CodeStream}
    {name : String}
    {finished : MethodCode}
    (ranged : code.Ranged scope block)
    (framed : ∀ {id : Nat} {slot : UInt16}, (scope.localAt id).slot = some slot →
      slot.toNat + (scope.localAt id).width.toNat ≤ scope.frameSize.toNat)
    (isFinished : code.finish scope name = .ok finished) :
    ∃ rows, finished.ListsLocals scope rows := by
  have closed := ranged.closeWhere fun _ => true
  simp only [finish, bind_eq_ok, pure_eq_ok] at isFinished
  obtain ⟨labels, -, rfl⟩ := isFinished
  have unordered : (((code.closeWhere fun _ => true).ranges.toList.filterMap
      (tabledRow? scope)).map Prod.snd) =
        (code.closeWhere fun _ => true).ranges.toList.filterMap (tabledRange? scope) := by
    rw [List.map_filterMap]
    congr 1
    funext range
    simp [tabledRow?, Option.map_map, Function.comp_def]
  have ordered := List.map_insertionSort
    (fun first second : LocalId × LocalRange => listedAfter first.2 second.2 = false)
    (fun first second => listedAfter first second = false) Prod.snd
    ((code.closeWhere fun _ => true).ranges.toList.filterMap (tabledRow? scope))
    (fun _ _ _ _ => Iff.rfl)
  refine ⟨_, ⟨ordered.trans ?_, ?_, ?_, ?_⟩⟩
  · rw [unordered, ← stableOrder_eq_insertionSort]
  · intro row member
    rw [List.mem_insertionSort, List.mem_filterMap] at member
    obtain ⟨range, inRanges, isRow⟩ := member
    obtain ⟨isId, isName, isSlot, isStop, isStart, isSource, isRange⟩ :=
      tabledRow?_eq_some.mp isRow
    rw [isId]
    exact ⟨isName, isSlot, isSource, isStart ▸ isRange, closed.ended range inRanges _ isStop,
      framed isSlot⟩
  · rw [stableOrder_eq_insertionSort]
    have total : Std.Total fun first second : LocalRange => listedAfter first second = false :=
      ⟨fun first second => by
        simp only [listedAfter_eq_false]
        exact first.comesBefore_total second⟩
    have transitive :
        IsTrans LocalRange fun first second => listedAfter first second = false :=
      ⟨fun first second third => by
        simp only [listedAfter_eq_false]
        exact .trans⟩
    exact (List.pairwise_insertionSort _ _).imp listedAfter_eq_false.mp
  · have symmetric : ∀ {first second : LocalId × LocalRange},
        (scope.SharesSlots first.1 second.1 →
          first.2.stop ≤ second.2.start ∨ second.2.stop ≤ first.2.start) →
        scope.SharesSlots second.1 first.1 →
          second.2.stop ≤ first.2.start ∨ first.2.stop ≤ second.2.start :=
      fun disjoint shares => (disjoint shares.symm).symm
    refine ((List.perm_insertionSort _ _).pairwise_iff symmetric).mpr ?_
    refine List.Pairwise.filterMap _ ?_ closed.apart
    intro earlier later apart first isFirst second isSecond shares
    obtain ⟨firstId, -, -, firstStop, -, -, -⟩ := tabledRow?_eq_some.mp isFirst
    obtain ⟨secondId, -, -, -, secondStart, -, -⟩ := tabledRow?_eq_some.mp isSecond
    rw [firstId, secondId] at shares
    obtain ⟨stop, isStop, before⟩ := apart shares
    obtain rfl := Option.some.inj (isStop.symm.trans firstStop)
    exact .inl (secondStart ▸ before)

end CodeStream

/-- Parameters are visible in the scope of the method. -/
theorem sees_checkParams
    {scopes : MethodScope}
    (wellFormed : scopes.WellFormed)
    {table : ClassTable} :
    ∀ {params : List Param} {state : MethodState},
      (checkParams table params state).state.scope.Grows scopes →
      ∀ param ∈ (checkParams table params state).node, ∀ id, param.binding = some id →
        scopes.Sees MethodScope.root scopes.locals.size id
  | [], _, _, _, member => by
      simp [checkParams] at member
  | first :: rest, state, grows, param, member => by
      intro id isBound
      simp only [checkParams, List.mem_cons] at grows member
      rcases member with rfl | further
      · obtain rfl := Option.some.inj isBound
        exact MethodScope.sees_declareLocal wellFormed
          ((MethodState.leads_checkParams rest _).scope.trans grows)
      · exact sees_checkParams wellFormed grows param further id isBound

section Methods

variable
  {table : ClassTable}
  {options : CompilerOptions}
  {method : Method}
  {lowered : LoweredMethod}
  {code : MethodCode}

/-- A method that has code has that which is generated for it. -/
theorem methodCode_lowerMethod
    (isLowered : lowerMethod table options method = .ok lowered)
    (isCode : lowered.code = some code) :
    lowered.scope = (loweringContext table options method).scope ∧
      (loweringContext table options method).methodCode
        (analyzedMethod table options method).node = .ok code := by
  unfold loweringContext
  simp only [lowerMethod] at isLowered
  split at isLowered
  · next generated isGenerated =>
      obtain rfl := Except.ok.inj isLowered
      obtain rfl := Option.some.inj isCode
      exact ⟨rfl, isGenerated⟩
  · split at isLowered
    · obtain rfl := Except.ok.inj isLowered
      cases isCode
    · cases isLowered

/-- The scopes of a method are well formed when it is analyzed, whatever errors are
reported. -/
theorem wellFormed_analyzedMethod
    (table : ClassTable)
    (options : CompilerOptions)
    (method : Method) :
    (analyzedMethod table options method).state.scope.WellFormed :=
  (marks_analyzeMethod options _ _).wellFormed
    (wellFormed_checkStmts (method.wellFormed_bodyState table)
      (method.wellFormed_bodyState table).root)

/-- They stay so when slots are assigned. -/
theorem wellFormed_loweringContext
    (table : ClassTable)
    (options : CompilerOptions)
    (method : Method) :
    (loweringContext table options method).scope.WellFormed :=
  (marks_assignSlots _ _).wellFormed (wellFormed_analyzedMethod table options method)

/-- In a frame that fits, locals that some scope sees together do not share slots. -/
theorem separatesLocals_loweringContext
    (fits : (loweringContext table options method).scope.FrameFits options.keepUnusedLocals) :
    (loweringContext table options method).scope.SeparatesLocals := by
  rintro block id other sees otherSees ⟨slot, otherSlot, isSlot, isOtherSlot, before, after⟩
  by_contra different
  have apart := (wellFormed_analyzedMethod table options method).slots_apart fits isSlot
    isOtherSlot sees.2 otherSees.2 different
  rcases apart with isBefore | isAfter
  · exact absurd after (Nat.not_lt.mpr isBefore)
  · exact absurd before (Nat.not_lt.mpr isAfter)

/-- The statements of a method nest their scopes where its code is generated. -/
theorem nestsAll_loweringContext
    (table : ClassTable)
    (options : CompilerOptions)
    (method : Method) :
    (loweringContext table options method).scope.NestsAll
      (analyzedMethod table options method).node.body.stmts MethodScope.root :=
  MethodScope.NestsAll.analyzeStmts options _
    (MethodScope.nests_checkStmts (wellFormed_loweringContext table options method)
      method.body.stmts MethodScope.root (method.bodyState table)
      (method.wellFormed_bodyState table) (method.wellFormed_bodyState table).root
      (marks_loweringContext table options method).scope)

/-- The table of a method is consistent, whatever errors are reported: it lists ranges
of source locals in the order of their slots, and ranges of locals that share slots
are disjoint. -/
theorem listsLocals_lowerMethod
    (isLowered : lowerMethod table options method = .ok lowered)
    (fits : lowered.scope.FrameFits options.keepUnusedLocals)
    (isCode : lowered.code = some code) :
    ∃ rows, code.ListsLocals lowered.scope rows := by
  obtain ⟨isScope, generated⟩ := methodCode_lowerMethod isLowered isCode
  rw [isScope] at fits ⊢
  have wellFormed := wellFormed_loweringContext table options method
  have separates := separatesLocals_loweringContext fits
  obtain ⟨opened, ran, isOpened, isRan, isFinished⟩ := CodeContext.methodCode_eq_ok.mp generated
  have params := CodeContext.keepsRanged_openParams separates
    (sees_checkParams wellFormed ((leads_checkStmts table options method.body.stmts
      MethodScope.root (method.bodyState table)).scope.trans
        (marks_loweringContext table options method).scope)) (.empty _ MethodScope.root) isOpened
  have body := CodeContext.keepsRanged_pushStmts separates wellFormed
    (nestsAll_loweringContext table options method) params isRan
  have returned : ((loweringContext table options method).returned ran).Ranged
      (loweringContext table options method).scope MethodScope.root := by
    simp only [CodeContext.returned]
    split
    · exact body.emit _
    · exact body
  exact CodeStream.exists_rows_finish (returned.markSource _ _)
    ((wellFormed_analyzedMethod table options method).slot_le_frameSize fits) isFinished

end Methods

/-- A method that doubles numbers after a block with a local of its own, and does not
return the result it should. -/
def Method.doublesNumbers :
    Method where
  name := ⟨"m", .absent⟩
  typeParams := []
  params := [⟨⟨"values", .absent⟩, .array .absent (.named .absent "long"), false, none⟩]
  returnType := some (.named .absent "int")
  body := {
    span := .absent
    stmts := [
      .block .absent [
        .localVar .absent ⟨⟨"first", .absent⟩, .named .absent "int", some (.intLit .absent 0),
          false, none⟩,
        .expr .absent (.assign .absent ⟨.unbound "first", .absent⟩ none
          (.name .absent (.unbound "first")))] .initial,
      .forEach .absent ⟨⟨"value", .absent⟩, .named .absent "long", none, false, none⟩
        (.name .absent (.unbound "values"))
        (some (.expr .absent (.assign .absent ⟨.unbound "value", .absent⟩ none
          (.binary .absent .add (.name .absent (.unbound "value"))
            (.name .absent (.unbound "value"))))))
        .initial]
    facts := .initial
  }

/-- Its table lists the parameter, and two locals that share a slot one after the
other. -/
theorem doublesNumbers_listsLocals :
    ∃ lowered code rows, lowerMethod .builtin .standard .doublesNumbers = .ok lowered ∧
      lowered.hasErrors = true ∧
      lowered.scope.FrameFits CompilerOptions.standard.keepUnusedLocals ∧
      lowered.code = some code ∧
      code.locals.map (fun range => (range.slot, range.start, range.stop)) =
        [(0, 0, 24), (1, 2, 4), (1, 16, 20)] ∧
      code.ListsLocals lowered.scope rows := by
  have evaluated : (lowerMethod .builtin .standard .doublesNumbers).toOption.any
      (fun lowered => lowered.hasErrors &&
        decide (lowered.scope.FrameFits CompilerOptions.standard.keepUnusedLocals) &&
        lowered.code.any fun code =>
          decide (code.locals.map (fun range => (range.slot, range.start, range.stop)) =
            [(0, 0, 24), (1, 2, 4), (1, 16, 20)])) = true := by
    decide +kernel
  cases isLowered : lowerMethod .builtin .standard .doublesNumbers with
  | error cause =>
      rw [isLowered] at evaluated
      cases evaluated
  | ok lowered =>
      simp only [isLowered, Except.toOption, Option.any_some, Bool.and_eq_true,
        decide_eq_true_eq] at evaluated
      obtain ⟨⟨hasErrors, fits⟩, coded⟩ := evaluated
      cases isCode : lowered.code with
      | none =>
          rw [isCode] at coded
          cases coded
      | some code =>
          simp only [isCode, Option.any_some, decide_eq_true_eq] at coded
          obtain ⟨rows, lists⟩ := listsLocals_lowerMethod isLowered fits isCode
          exact ⟨lowered, code, rows, rfl, hasErrors, fits, isCode, coded, lists⟩

end LoopLowering
