import Mathlib.Data.List.Nodup
import Mathlib.Logic.Relation
import LoopLowering.Proofs.Locals.FrameSlots

namespace LoopLowering

/-!
# Scopes as a tree

A tree of scopes is stored twice, as the scope around each scope and as the list of scopes
directly inside it, beside a list of locals that know their scope while the scopes know their
locals. However the scopes have been built, all of this agrees. The walks over it have no bound
on their steps: the search for a name and the test for nesting go from a scope to the one
around it, and the assignment of slots goes from a scope to those inside it. They are written
here as rules, and each ends, because a scope is older than those inside it.
-/

namespace MethodScope

/-!
## The tree
-/

/-- What is stored of well-formed scopes agrees: all but the outermost one have a scope around
them, and each lists those directly inside it, oldest first. -/
structure IsTree
    (scope : MethodScope) :
    Prop
    extends scope.WellFormed where
  hasParent : ∀ id : Nat,
    (scope.block id).parent.isSome = decide (id ≠ MethodScope.root ∧ id < scope.blocks.size)
  children : ∀ id : Nat,
    (scope.block id).children =
      (List.range scope.blocks.size).filter fun child => (scope.block child).parent = some id

/-- The scopes directly inside a scope after opening one. -/
theorem children_openBlock
    {parent : Nat}
    {scope : MethodScope}
    (known : parent < scope.blocks.size)
    (id : Nat) :
    ((scope.openBlock parent).block id).children =
      (scope.block id).children ++ if id = parent then [scope.blocks.size] else [] := by
  have inBounds : parent < scope.blocks.size := known
  have other : parent ≠ scope.blocks.size := Nat.ne_of_lt inBounds
  by_cases new : id = scope.blocks.size
  · simp only [block, openBlock, nextBlock, Array.getElem?_modify, Array.getElem?_push, new, other,
      Ne.symm other, Array.getElem?_eq_none (Nat.le_refl scope.blocks.size), if_true, if_false,
      Option.getD_some, Option.getD_none, default_block, List.append_nil]
  · by_cases same : parent = id
    · subst same
      simp [block, openBlock, nextBlock, Array.getElem?_modify, Array.getElem?_push, new,
        Array.getElem?_eq_getElem inBounds]
    · simp [block, openBlock, Array.getElem?_modify, Array.getElem?_push, new, same, Ne.symm same]

/-- The scopes directly inside a scope after declaring a local. -/
theorem children_declare
    (home : Nat)
    (entry : LocalVariable)
    (scope : MethodScope)
    (id : Nat) :
    ((scope.declare home entry).block id).children = (scope.block id).children := by
  by_cases same : home = id
  · subst same
    cases found : scope.blocks[home]? <;>
      simp [block, declare, recordLocal, Array.getElem?_modify, found]
  · simp [block, declare, recordLocal, Array.getElem?_modify, same]

/-- The outermost scope alone, without locals, is a tree. -/
theorem isTree_initial :
    initial.IsTree where
  toWellFormed := wellFormed_initial
  hasParent := by
    intro id
    cases id <;> simp [block, initial, root, default_block]
  children := by
    intro id
    cases id <;> simp [block, initial, default_block]

/-- Opening a scope in one that exists keeps what is stored of the scopes in agreement. -/
theorem IsTree.openBlock
    {scope : MethodScope}
    (isTree : scope.IsTree)
    {parent : Nat}
    (known : parent < scope.blocks.size) :
    (scope.openBlock parent).IsTree := by
  have size : (scope.openBlock parent).blocks.size = scope.blocks.size + 1 := by
    simp [MethodScope.openBlock]
  have parents := fun id => (block_openBlock known id).1
  refine ⟨isTree.toWellFormed.openBlock known, ?_, ?_⟩
  · intro id
    have nonempty : 0 < scope.blocks.size := isTree.root
    rw [parents, size]
    split
    · next new =>
        rw [new, Option.isSome_some, eq_comm, decide_eq_true_iff]
        exact ⟨Nat.ne_of_gt nonempty, Nat.lt_succ_self _⟩
    · next other =>
        have stillOlder : id < scope.blocks.size ↔ id < scope.blocks.size + 1 := by omega
        rw [isTree.hasParent, decide_eq_decide, stillOlder]
  · intro id
    have unchanged : (List.range scope.blocks.size).filter
        (fun child => ((scope.openBlock parent).block child).parent = some id) =
          (scope.block id).children := by
      rw [isTree.children]
      apply List.filter_congr
      intro child isOlder
      rw [parents, if_neg (Nat.ne_of_lt (List.mem_range.mp isOlder))]
    rw [children_openBlock known, size, List.range_succ, List.filter_append, unchanged,
      List.filter_cons, List.filter_nil, parents, if_pos rfl]
    by_cases same : id = parent
    · simp [same]
    · simp [same, Ne.symm same]

/-- Declaring a local in a scope that exists keeps what is stored of the scopes in agreement. -/
theorem IsTree.declare
    {scope : MethodScope}
    (isTree : scope.IsTree)
    {home : Nat}
    (known : home < scope.blocks.size)
    (entry : LocalVariable) :
    (scope.declare home entry).IsTree := by
  have size : (scope.declare home entry).blocks.size = scope.blocks.size := by
    simp [MethodScope.declare]
  have parents := fun id => (block_declare known entry id).1
  refine ⟨isTree.toWellFormed.declare known entry, ?_, ?_⟩
  · intro id
    rw [parents, size]
    exact isTree.hasParent id
  · intro id
    simp only [children_declare, size, parents]
    exact isTree.children id

/-- What is stored of scopes that have been built agrees. -/
theorem IsBuilt.storesTree
    {scope : MethodScope}
    (built : scope.IsBuilt) :
    scope.IsTree := by
  induction built with
  | initial =>
      exact isTree_initial
  | openBlock known _ inductionHypothesis =>
      exact inductionHypothesis.openBlock known
  | declare entry known _ inductionHypothesis =>
      exact inductionHypothesis.declare known entry
  -- The scopes themselves stay as they are when the locals in them change.
  | adjust id isUsed slot earlier inductionHypothesis =>
      exact ⟨(earlier.adjust id isUsed slot).wellFormed, inductionHypothesis.hasParent,
        inductionHypothesis.children⟩
  | assignSlots keepUnused earlier inductionHypothesis =>
      exact ⟨(earlier.assignSlots keepUnused).wellFormed, inductionHypothesis.hasParent,
        inductionHypothesis.children⟩

/-!
## Walks to the scopes around a scope
-/

/-- The search for a name goes from a scope to the one around it, until one lists a local of
that name, and takes the latest one there. -/
inductive LooksUp
    (scope : MethodScope)
    (name : String) :
    (block found : Option Nat) →
    Prop where
  | outside :
      LooksUp scope name none none
  | finds
      {block id : Nat}
      (known : block < scope.blocks.size)
      (declared : ∀ listed ∈ (scope.block block).locals, listed < scope.locals.size)
      (latest : (scope.block block).locals.reverse.find?
        (fun id => (scope.localAt id).name == name) = some id) :
      LooksUp scope name (some block) (some id)
  | goesOn
      {block : Nat}
      {found : Option Nat}
      (known : block < scope.blocks.size)
      (declared : ∀ listed ∈ (scope.block block).locals, listed < scope.locals.size)
      (noneHere : (scope.block block).locals.reverse.find?
        (fun id => (scope.localAt id).name == name) = none)
      (outer : LooksUp scope name (scope.block block).parent found) :
      LooksUp scope name (some block) found

/-- The test for nesting goes from a scope to the one around it, until it meets the one it
asks for. -/
inductive Climbs
    (scope : MethodScope)
    (ancestor : Nat) :
    (block : Option Nat) →
    (isInside : Bool) →
    Prop where
  | outside :
      Climbs scope ancestor none false
  | arrives :
      Climbs scope ancestor (some ancestor) true
  | goesOn
      {block : Nat}
      {isInside : Bool}
      (differs : block ≠ ancestor)
      (known : block < scope.blocks.size)
      (outer : Climbs scope ancestor (scope.block block).parent isInside) :
      Climbs scope ancestor (some block) isInside

section Upwards

variable
  {scope : MethodScope}

/-- A search for a name has one result. -/
theorem LooksUp.unique
    {name : String}
    {block found other : Option Nat}
    (looksUp : scope.LooksUp name block found)
    (again : scope.LooksUp name block other) :
    found = other := by
  induction looksUp generalizing other with
  | outside =>
      cases again
      rfl
  | finds known declared latest =>
      cases again with
      | finds _ _ otherLatest => exact latest.symm.trans otherLatest
      | goesOn _ _ noneHere _ => rw [latest] at noneHere; cases noneHere
  | goesOn known declared noneHere outer inductionHypothesis =>
      cases again with
      | finds _ _ latest => rw [latest] at noneHere; cases noneHere
      | goesOn _ _ _ otherOuter => exact inductionHypothesis otherOuter

/-- A test for nesting has one result. -/
theorem Climbs.unique
    {ancestor : Nat}
    {block : Option Nat}
    {isInside other : Bool}
    (climbs : scope.Climbs ancestor block isInside)
    (again : scope.Climbs ancestor block other) :
    isInside = other := by
  induction climbs generalizing other with
  | outside =>
      cases again
      rfl
  | arrives =>
      cases again with
      | arrives => rfl
      | goesOn differs => exact absurd rfl differs
  | goesOn differs known outer inductionHypothesis =>
      cases again with
      | arrives => exact absurd rfl differs
      | goesOn _ _ otherOuter => exact inductionHypothesis otherOuter

/-- The search for a name ends, with the local that the name refers to. -/
theorem IsTree.looksUp
    (isTree : scope.IsTree)
    (name : String)
    {block : Nat}
    (known : block < scope.blocks.size) :
    scope.LooksUp name (some block) (scope.lookup block name) := by
  have declared : ∀ listed ∈ (scope.block block).locals, listed < scope.locals.size :=
    fun listed member => ((isTree.mem_locals block listed).mp member).1
  induction block using Nat.strongRecOn with
  | ind block inductionHypothesis =>
      rw [lookup, isTree.toWellFormed.enclosing_eq block, List.findSome?_cons]
      cases found : scope.lookupIn name block with
      | some id =>
          rw [lookupIn_eq_find?] at found
          exact .finds known declared found
      | none =>
          rw [lookupIn_eq_find?] at found
          refine .goesOn known declared found ?_
          cases isParent : (scope.block block).parent with
          | none =>
              exact .outside
          | some parent =>
              have older := isTree.parentOlder isParent
              exact inductionHypothesis parent older (Nat.lt_trans older known)
                fun listed member =>
                  ((isTree.mem_locals parent listed).mp member).1

/-- A scope is inside itself and those that the one around it is inside. -/
theorem WellFormed.isWithin_eq
    (wellFormed : scope.WellFormed)
    (block ancestor : Nat) :
    scope.isWithin block ancestor = (ancestor == block ||
      match (scope.block block).parent with
      | some parent => scope.isWithin parent ancestor
      | none => false) := by
  rw [isWithin, wellFormed.enclosing_eq block, List.contains_cons]
  cases (scope.block block).parent <;> rfl

/-- A scope is inside any other one through the one around it. -/
theorem WellFormed.isWithin_of_ne
    (wellFormed : scope.WellFormed)
    {block ancestor : Nat}
    (differs : block ≠ ancestor) :
    scope.isWithin block ancestor =
      match (scope.block block).parent with
      | some parent => scope.isWithin parent ancestor
      | none => false := by
  rw [wellFormed.isWithin_eq, beq_false_of_ne (Ne.symm differs), Bool.false_or]

/-- Every scope is inside itself. -/
theorem WellFormed.isWithin_self
    (wellFormed : scope.WellFormed)
    (block : Nat) :
    scope.isWithin block block = true :=
  List.contains_iff_mem.mpr (wellFormed.mem_enclosing_self block)

/-- The test for nesting ends, with the answer that is asked for. -/
theorem IsTree.climbs
    (isTree : scope.IsTree)
    (ancestor : Nat)
    {block : Nat}
    (known : block < scope.blocks.size) :
    scope.Climbs ancestor (some block) (scope.isWithin block ancestor) := by
  induction block using Nat.strongRecOn with
  | ind block inductionHypothesis =>
      by_cases differs : block = ancestor
      · subst differs
        rw [isTree.toWellFormed.isWithin_self]
        exact .arrives
      · rw [isTree.toWellFormed.isWithin_of_ne differs]
        refine .goesOn differs known ?_
        cases isParent : (scope.block block).parent with
        | none =>
            exact .outside
        | some parent =>
            have older := isTree.parentOlder isParent
            exact inductionHypothesis parent older (Nat.lt_trans older known)

/-- A scope is inside another one exactly if steps from a scope to the one around it lead
there. -/
theorem WellFormed.isWithin_iff_reflTransGen
    (wellFormed : scope.WellFormed)
    (block ancestor : Nat) :
    scope.isWithin block ancestor = true ↔
      Relation.ReflTransGen (fun inner outer => (scope.block inner).parent = some outer)
        block ancestor := by
  constructor
  · intro isInside
    induction block using Nat.strongRecOn with
    | ind block inductionHypothesis =>
        by_cases differs : block = ancestor
        · rw [differs]
        · rw [wellFormed.isWithin_of_ne differs] at isInside
          cases isParent : (scope.block block).parent with
          | none =>
              simp [isParent] at isInside
          | some parent =>
              simp only [isParent] at isInside
              exact .head isParent
                (inductionHypothesis parent (wellFormed.parentOlder isParent) isInside)
  · intro leads
    induction leads using Relation.ReflTransGen.head_induction_on with
    | refl =>
        exact wellFormed.isWithin_self ancestor
    | @head inner outer isParent _ inductionHypothesis =>
        by_cases differs : inner = ancestor
        · rw [differs]
          exact wellFormed.isWithin_self ancestor
        · rw [wellFormed.isWithin_of_ne differs, isParent]
          exact inductionHypothesis

/-- Every scope is inside the outermost one. -/
theorem IsTree.isWithin_root
    (isTree : scope.IsTree)
    {block : Nat}
    (known : block < scope.blocks.size) :
    scope.isWithin block root = true := by
  induction block using Nat.strongRecOn with
  | ind block inductionHypothesis =>
      by_cases differs : block = root
      · rw [differs]
        exact isTree.toWellFormed.isWithin_self root
      · rw [isTree.toWellFormed.isWithin_of_ne differs]
        have inner := isTree.hasParent block
        cases isParent : (scope.block block).parent with
        | none =>
            simp [isParent, differs, known] at inner
        | some parent =>
            have older := isTree.parentOlder isParent
            exact inductionHypothesis parent older (Nat.lt_trans older known)

/-- A scope is not inside a younger one. -/
theorem WellFormed.isWithin_younger
    (wellFormed : scope.WellFormed)
    {older younger : Nat}
    (isOlder : older < younger) :
    scope.isWithin older younger = false := by
  rw [Bool.eq_false_iff, ne_eq, isWithin, List.contains_iff_mem]
  exact fun around => Nat.not_le_of_lt isOlder (wellFormed.le_of_mem_enclosing around)

/-- A scope that exists is listed once by the one around it and by no other. -/
theorem IsTree.count_children
    (isTree : scope.IsTree)
    (ancestor : Nat)
    {block : Nat}
    (known : block < scope.blocks.size) :
    (scope.block ancestor).children.count block =
      if (scope.block block).parent = some ancestor then 1 else 0 := by
  rw [isTree.children]
  split
  · next isParent =>
      rw [List.count_filter (by simpa using isParent)]
      exact List.count_eq_one_of_mem List.nodup_range (List.mem_range.mpr known)
  · next isNot =>
      rw [List.count_eq_zero, List.mem_filter, decide_eq_true_iff]
      exact fun listed => isNot listed.2

/-- Members that are a given one or satisfy a test that it fails. -/
theorem countP_or
    {given : Nat}
    {test : Nat → Bool}
    (fails : test given = false)
    (ids : List Nat) :
    ids.countP (fun id => id == given || test id) = ids.count given + ids.countP test := by
  induction ids with
  | nil =>
      rfl
  | cons first rest inductionHypothesis =>
      by_cases same : first = given
      · simp [same, fails, inductionHypothesis]
        omega
      · simp [same, inductionHypothesis, List.countP_cons]
        omega

/-- A scope inside another one is that one or inside exactly one of the scopes directly inside
that one. -/
theorem IsTree.countP_children
    (isTree : scope.IsTree)
    (ancestor : Nat)
    {block : Nat}
    (known : block < scope.blocks.size) :
    (scope.block ancestor).children.countP (scope.isWithin block) +
        (if block = ancestor then 1 else 0) =
      if scope.isWithin block ancestor then 1 else 0 := by
  have wellFormed := isTree.toWellFormed
  -- The induction goes up: a scope is inside itself and those that the one around it is inside.
  induction block using Nat.strongRecOn with
  | ind block inductionHypothesis =>
      have here := isTree.count_children ancestor known
      rw [funext (wellFormed.isWithin_eq block)]
      cases isParent : (scope.block block).parent with
      | none =>
          rw [isParent, if_neg (Option.some_ne_none ancestor).symm] at here
          rw [countP_or rfl, here, List.countP_false]
          by_cases same : block = ancestor
          · simp [same]
          · simp [same, Ne.symm same]
      | some parent =>
          have isOlder := wellFormed.parentOlder isParent
          have above := inductionHypothesis parent isOlder (Nat.lt_trans isOlder known)
          simp only [isParent, Option.some.injEq] at here
          rw [countP_or (wellFormed.isWithin_younger isOlder), here]
          by_cases same : block = ancestor
          · subst same
            rw [wellFormed.isWithin_younger isOlder] at above
            simpa [Nat.ne_of_lt isOlder] using above
          · simp only [same, beq_iff_eq, Ne.symm same, Bool.or_eq_true, false_or, if_false]
            omega

/-- A scope inside another one is that one or inside one of the scopes directly inside it. -/
theorem IsTree.exists_child
    (isTree : scope.IsTree)
    {block ancestor : Nat}
    (known : block < scope.blocks.size)
    (isInside : scope.isWithin block ancestor = true)
    (differs : block ≠ ancestor) :
    ∃ child ∈ (scope.block ancestor).children, scope.isWithin block child = true := by
  have counted := isTree.countP_children ancestor known
  rw [if_neg differs, if_pos isInside] at counted
  exact List.countP_pos_iff.mp (by omega)

end Upwards

/-!
## Visits of the scopes inside a scope
-/

/-- Give locals their slots, one after the other, and tell which slot is next. -/
def placeLocals
    (keepUnused : Bool) :
    (next : UInt16) → List Nat → MethodScope → MethodScope × UInt16
  | next, [], scope => (scope, next)
  | next, id :: rest, scope =>
      if scope.isMaterialized keepUnused id then
        placeLocals keepUnused (next + (scope.localAt id).width) rest
          (scope.modifyLocal id fun entry => { entry with slot := some next })
      else
        placeLocals keepUnused next rest
          (scope.modifyLocal id fun entry => { entry with slot := none })

/-- Slots are assigned in scopes side by side, one scope after the other. Each starts at the
same slot, gives slots to its own locals, and goes on to the scopes inside it from the next
slot on; the greatest end of all is handed on. The locals that are visited are listed. -/
inductive AssignsSlots
    (keepUnused : Bool) :
    (blocks : List Nat) →
    (offset greatest : UInt16) →
    (before : MethodScope) →
    (visited : List Nat) →
    (after : MethodScope) →
    (frameEnd : UInt16) →
    Prop where
  | nothing
      (offset greatest : UInt16)
      (scope : MethodScope) :
      AssignsSlots keepUnused [] offset greatest scope [] scope greatest
  | enters
      {block : Nat}
      {others inside beside : List Nat}
      {offset greatest next innerEnd frameEnd : UInt16}
      {before placed within after : MethodScope}
      (known : block < before.blocks.size)
      (declared : ∀ listed ∈ (before.block block).locals, listed < before.locals.size)
      (places : before.placeLocals keepUnused offset (before.block block).locals = (placed, next))
      (inner : AssignsSlots keepUnused (placed.block block).children next next placed inside within
        innerEnd)
      (later : AssignsSlots keepUnused others offset (max greatest innerEnd) within beside after
        frameEnd) :
      AssignsSlots keepUnused (block :: others) offset greatest before
        ((before.block block).locals ++ inside ++ beside) after frameEnd

section Visits

variable
  {scope : MethodScope}
  {keepUnused : Bool}

/-- An assignment of slots has one result. -/
theorem AssignsSlots.unique
    {blocks visited otherVisited : List Nat}
    {offset greatest frameEnd otherEnd : UInt16}
    {before after otherAfter : MethodScope}
    (assigns : AssignsSlots keepUnused blocks offset greatest before visited after frameEnd)
    (again : AssignsSlots keepUnused blocks offset greatest before otherVisited otherAfter otherEnd) :
    visited = otherVisited ∧ after = otherAfter ∧ frameEnd = otherEnd := by
  induction assigns generalizing otherVisited otherAfter otherEnd with
  | nothing =>
      cases again
      exact ⟨rfl, rfl, rfl⟩
  | enters known declared places inner later innerHypothesis laterHypothesis =>
      cases again with
      | enters _ _ otherPlaces otherInner otherLater =>
          obtain ⟨rfl, rfl⟩ := Prod.mk.inj (places.symm.trans otherPlaces)
          obtain ⟨rfl, rfl, rfl⟩ := innerHypothesis otherInner
          obtain ⟨rfl, rfl, rfl⟩ := laterHypothesis otherLater
          exact ⟨rfl, rfl, rfl⟩

/-- The scopes once some locals have been given the slots that they get. -/
def withSlots
    (keepUnused : Bool)
    (given : List Nat)
    (scope : MethodScope) :
    MethodScope :=
  { scope with
    locals := scope.locals.mapIdx fun id entry =>
      if id ∈ given then { entry with slot := scope.slotFor keepUnused id } else entry }

/-- At first no local has been given a slot. -/
theorem withSlots_nil
    (keepUnused : Bool)
    (scope : MethodScope) :
    scope.withSlots keepUnused [] = scope := by
  have same : scope.locals.mapIdx (fun id entry =>
      if id ∈ ([] : List Nat) then { entry with slot := scope.slotFor keepUnused id } else entry) =
        scope.locals := by
    apply Array.ext_getElem?
    intro id
    simp
  rw [withSlots, same]

/-- A local is the same in every other respect whichever have been given slots. -/
theorem exists_localAt_withSlots
    (keepUnused : Bool)
    (given : List Nat)
    (scope : MethodScope)
    (id : Nat) :
    ∃ slot, (scope.withSlots keepUnused given).localAt id =
      { scope.localAt id with slot := slot } := by
  by_cases known : id < scope.locals.size
  · simp only [localAt, withSlots, Array.getElem?_mapIdx, Array.getElem?_eq_getElem known,
      Option.map_some, Option.getD_some]
    split
    · exact ⟨_, rfl⟩
    · exact ⟨_, rfl⟩
  · refine ⟨none, ?_⟩
    rw [localAt_unknown known, localAt_unknown (by simpa [withSlots] using known)]
    rfl

/-- One more local is given the slot that it gets. -/
theorem modifyLocal_withSlots
    (keepUnused : Bool)
    (given : List Nat)
    (scope : MethodScope)
    (id : Nat) :
    (scope.withSlots keepUnused given).modifyLocal id
        (fun entry => { entry with slot := scope.slotFor keepUnused id }) =
      scope.withSlots keepUnused (given ++ [id]) := by
  have same : (scope.withSlots keepUnused given).locals.modify id
      (fun entry => { entry with slot := scope.slotFor keepUnused id }) =
        (scope.withSlots keepUnused (given ++ [id])).locals := by
    apply Array.ext_getElem?
    intro other
    by_cases isThis : id = other
    · subst isThis
      cases found : scope.locals[id]? with
      | none =>
          simp [withSlots, Array.getElem?_modify, found]
      | some entry =>
          by_cases already : id ∈ given <;>
            simp [withSlots, Array.getElem?_modify, found, already]
    · simp [withSlots, Array.getElem?_modify, isThis, Ne.symm isThis]
  rw [modifyLocal, same]
  rfl

/-- Once every local has been given its slot, the slots are those that are assigned. -/
theorem withSlots_all
    {given : List Nat}
    (isAll : given.Perm (List.range scope.locals.size)) :
    scope.withSlots keepUnused given =
      { scope.assignSlots keepUnused with frameSize := scope.frameSize } := by
  have same : (scope.withSlots keepUnused given).locals =
      (scope.assignSlots keepUnused).locals := by
    apply Array.ext_getElem?
    intro id
    cases found : scope.locals[id]? with
    | none =>
        simp [withSlots, assignSlots, found]
    | some entry =>
        have known : id < scope.locals.size := (Array.getElem?_eq_some_iff.mp found).1
        have isGiven : id ∈ given := isAll.mem_iff.mpr (List.mem_range.mpr known)
        simp [withSlots, assignSlots, found, isGiven]
  calc scope.withSlots keepUnused given
      = { scope with locals := (scope.withSlots keepUnused given).locals } := rfl
    _ = { scope.assignSlots keepUnused with frameSize := scope.frameSize } := by
        rw [same]
        rfl

/-- The slots of some locals and others are added up. -/
theorem widthOf_append
    (scope : MethodScope)
    (keepUnused : Bool)
    (earlier later : List Nat) :
    scope.widthOf keepUnused (earlier ++ later) =
      scope.widthOf keepUnused earlier + scope.widthOf keepUnused later := by
  induction earlier with
  | nil =>
      exact (UInt16.zero_add _).symm
  | cons first rest inductionHypothesis =>
      simp only [widthOf, List.cons_append, List.map_cons, List.foldr_cons] at inductionHypothesis ⊢
      rw [inductionHypothesis, UInt16.add_assoc]

/-- A local of a scope gets the slot after the scopes around and the older locals there. -/
theorem slotFor_eq
    (keepUnused : Bool)
    {earlier later : List Nat}
    {id : Nat}
    (listed : (scope.block (scope.localAt id).scope).locals = earlier ++ id :: later)
    (isNew : id ∉ earlier) :
    scope.slotFor keepUnused id =
      if scope.isMaterialized keepUnused id then
        some (scope.blockStart keepUnused (scope.localAt id).scope +
          scope.widthOf keepUnused earlier)
      else
        none := by
  have before : (earlier ++ id :: later).takeWhile (fun other => other != id) = earlier := by
    rw [List.takeWhile_append_of_pos, List.takeWhile_cons, bne_self_eq_false, if_neg (by decide),
      List.append_nil]
    intro other isEarlier
    rw [bne_iff_ne]
    rintro rfl
    exact isNew isEarlier
  rw [slotFor, slotAmong_eq, listed, before]

/-- Giving the locals of a scope slots from where the scope starts gives them the slots that
they get. -/
theorem WellFormed.placeLocals_eq
    (wellFormed : scope.WellFormed)
    (keepUnused : Bool)
    {block : Nat}
    {earlier ids : List Nat}
    (listed : (scope.block block).locals = earlier ++ ids)
    (given : List Nat) :
    (scope.withSlots keepUnused given).placeLocals keepUnused
        (scope.blockStart keepUnused block + scope.widthOf keepUnused earlier) ids =
      (scope.withSlots keepUnused (given ++ ids), scope.blockEnd keepUnused block) := by
  induction ids generalizing earlier given with
  | nil =>
      rw [placeLocals, blockEnd, blockWidth, listed, List.append_nil, List.append_nil]
  | cons id rest inductionHypothesis =>
      have isHome : (scope.localAt id).scope = block :=
        ((wellFormed.mem_locals block id).mp (by simp [listed])).2
      have isNew : id ∉ earlier := by
        have distinct := (wellFormed.sorted block).nodup
        rw [listed, List.nodup_append] at distinct
        exact fun isEarlier => distinct.2.2 id isEarlier id List.mem_cons_self rfl
      have isSlot := slotFor_eq keepUnused (isHome ▸ listed) isNew
      obtain ⟨slot, isLocal⟩ := exists_localAt_withSlots keepUnused given scope id
      have same : (scope.withSlots keepUnused given).isMaterialized keepUnused id =
          scope.isMaterialized keepUnused id := by
        rw [isMaterialized, isLocal]
        rfl
      have stillListed : (scope.block block).locals = (earlier ++ [id]) ++ rest := by
        rw [listed, List.append_assoc]
        rfl
      have further := inductionHypothesis stillListed (given ++ [id])
      rw [List.append_assoc, List.singleton_append, widthOf_append, ← modifyLocal_withSlots,
        isSlot, isHome, ← UInt16.add_assoc] at further
      rw [placeLocals, same, isLocal]
      cases exists_ : scope.isMaterialized keepUnused id with
      | true =>
          have isWidth : scope.widthOf keepUnused [id] = (scope.localAt id).width := by
            rw [widthOf, List.map_singleton, exists_]
            exact UInt16.add_zero _
          rw [exists_, isWidth] at further
          exact further
      | false =>
          have isWidth : scope.widthOf keepUnused [id] = 0 := by
            rw [widthOf, List.map_singleton, exists_]
            rfl
          rw [exists_, isWidth, UInt16.add_zero] at further
          exact further

/-- A scope starts where the locals of the one around it end. -/
theorem WellFormed.blockStart_eq
    (wellFormed : scope.WellFormed)
    {block parent : Nat}
    (isParent : (scope.block block).parent = some parent) :
    scope.blockStart keepUnused block = scope.blockEnd keepUnused parent := by
  rw [blockEnd, blockStart, blockStart, wellFormed.enclosing_eq block, isParent]
  simp only [List.tail_cons]
  rw [wellFormed.enclosing_eq parent, List.tail_cons, List.map_cons, List.foldr_cons,
    UInt16.add_comm]

/-- The scopes directly inside a scope are younger ones that exist and start where its locals
end. -/
theorem IsTree.of_mem_children
    (isTree : scope.IsTree)
    {block child : Nat}
    (member : child ∈ (scope.block block).children) :
    block < child ∧ child < scope.blocks.size ∧
      scope.blockStart keepUnused child = scope.blockEnd keepUnused block := by
  rw [isTree.children, List.mem_filter, List.mem_range, decide_eq_true_iff] at member
  exact ⟨isTree.parentOlder member.2, member.1, isTree.toWellFormed.blockStart_eq member.2⟩

/-- Each local is visited as often as there are scopes among some that its home is inside. -/
def VisitsLocals
    (scope : MethodScope)
    (blocks visited : List Nat) :
    Prop :=
  ∀ id : Nat, visited.count id =
    if id < scope.locals.size then blocks.countP (scope.isWithin (scope.localAt id).scope) else 0

/-- The greatest of a given slot and the ends of the scopes inside some. -/
structure IsGreatestEnd
    (scope : MethodScope)
    (keepUnused : Bool)
    (blocks : List Nat)
    (least greatest : UInt16) :
    Prop where
  atLeast : least.toNat ≤ greatest.toNat
  covers : ∀ inner < scope.blocks.size, ∀ block ∈ blocks, scope.isWithin inner block = true →
    (scope.blockEnd keepUnused inner).toNat ≤ greatest.toNat
  reached : greatest = least ∨
    ∃ block < scope.blocks.size, greatest = scope.blockEnd keepUnused block

/-- A visit of a scope goes through its own locals and then through the scopes inside it. -/
theorem IsTree.visitsLocals_cons
    (isTree : scope.IsTree)
    {block : Nat}
    {others inside beside : List Nat}
    (inner : scope.VisitsLocals (scope.block block).children inside)
    (later : scope.VisitsLocals others beside) :
    scope.VisitsLocals (block :: others) ((scope.block block).locals ++ inside ++ beside) := by
  intro id
  rw [List.count_append, List.count_append, inner id, later id]
  by_cases known : id < scope.locals.size
  · have own : (scope.block block).locals.count id =
        if (scope.localAt id).scope = block then 1 else 0 := by
      split
      · next isHome =>
          apply List.count_eq_one_of_mem (isTree.sorted block).nodup
          exact (isTree.mem_locals block id).mpr ⟨known, isHome⟩
      · next isNot =>
          rw [List.count_eq_zero, isTree.mem_locals]
          exact fun listed => isNot listed.2
    have around := isTree.countP_children block (isTree.home id known)
    rw [own, if_pos known, if_pos known, if_pos known, List.countP_cons]
    omega
  · have notListed : (scope.block block).locals.count id = 0 := by
      rw [List.count_eq_zero, isTree.mem_locals]
      exact fun listed => known listed.1
    rw [notListed, if_neg known, if_neg known, if_neg known]

/-- The greatest end of a scope and of others is that of the scope and those inside it, or that
of the others. -/
theorem IsTree.isGreatestEnd_cons
    (isTree : scope.IsTree)
    {block : Nat}
    {others : List Nat}
    {least innerEnd greatest : UInt16}
    (known : block < scope.blocks.size)
    (inner : scope.IsGreatestEnd keepUnused (scope.block block).children
      (scope.blockEnd keepUnused block) innerEnd)
    (later : scope.IsGreatestEnd keepUnused others (max least innerEnd) greatest) :
    scope.IsGreatestEnd keepUnused (block :: others) least greatest := by
  have isMax := later.atLeast
  rw [UInt16.toNat_max] at isMax
  have innerFirst : innerEnd.toNat ≤ greatest.toNat := Nat.le_trans (Nat.le_max_right _ _) isMax
  refine ⟨Nat.le_trans (Nat.le_max_left _ _) isMax, ?_, ?_⟩
  · intro nested nestedKnown around member isInside
    rcases List.mem_cons.mp member with rfl | isOther
    · by_cases same : nested = around
      · rw [same]
        exact Nat.le_trans inner.atLeast innerFirst
      · obtain ⟨child, isChild, isNested⟩ := isTree.exists_child nestedKnown isInside same
        exact Nat.le_trans (inner.covers nested nestedKnown child isChild isNested) innerFirst
    · exact later.covers nested nestedKnown around isOther isInside
  · rcases later.reached with isLeast | isEnd
    · by_cases isGreater : least ≤ innerEnd
      · have isInner : max least innerEnd = innerEnd := if_pos isGreater
        rw [isLeast, isInner]
        rcases inner.reached with isOwn | isEnd
        · exact .inr ⟨block, known, isOwn⟩
        · exact .inr isEnd
      · exact .inl (isLeast.trans (if_neg isGreater))
    · exact .inr isEnd

/-- The assignment of slots ends, in any scopes that start at the same slot: it gives the locals
inside them the slots that they get, and finds the greatest end. -/
theorem IsTree.exists_assignsSlots
    (isTree : scope.IsTree)
    (keepUnused : Bool)
    (limit : Nat)
    {blocks : List Nat}
    {offset : UInt16}
    (start : ∀ block ∈ blocks, block < scope.blocks.size ∧ scope.blocks.size ≤ block + limit ∧
      scope.blockStart keepUnused block = offset)
    (least : UInt16)
    (given : List Nat) :
    ∃ visited greatest,
      AssignsSlots keepUnused blocks offset least (scope.withSlots keepUnused given) visited
        (scope.withSlots keepUnused (given ++ visited)) greatest ∧
      scope.VisitsLocals blocks visited ∧ scope.IsGreatestEnd keepUnused blocks least greatest := by
  -- The scopes inside a scope are younger, so fewer of them can follow.
  induction limit using Nat.strongRecOn generalizing blocks offset least given with
  | ind limit innerHypothesis =>
      induction blocks generalizing least given with
      | nil =>
          refine ⟨[], least, ?_, ?_, Nat.le_refl _, ?_, .inl rfl⟩
          · rw [List.append_nil]
            exact .nothing offset least _
          · intro id
            rw [List.countP_nil, ite_self, List.count_nil]
          · intro inner _ block member
            cases member
      | cons block others laterHypothesis =>
          obtain ⟨known, few, isStart⟩ := start block List.mem_cons_self
          have inside : ∀ child ∈ (scope.block block).children, child < scope.blocks.size ∧
              scope.blocks.size ≤ child + (limit - 1) ∧
              scope.blockStart keepUnused child = scope.blockEnd keepUnused block := by
            intro child member
            obtain ⟨isYounger, childKnown, childStart⟩ := isTree.of_mem_children member
            exact ⟨childKnown, by omega, childStart⟩
          have fewer : limit - 1 < limit := by omega
          obtain ⟨visited, innerEnd, inner, visitsInner, innerGreatest⟩ :=
            innerHypothesis (limit - 1) fewer inside (scope.blockEnd keepUnused block)
              (given ++ (scope.block block).locals)
          obtain ⟨beside, greatest, later, visitsLater, isGreatest⟩ :=
            laterHypothesis (fun other member => start other (List.mem_cons_of_mem block member))
              (max least innerEnd) (given ++ (scope.block block).locals ++ visited)
          refine ⟨(scope.block block).locals ++ visited ++ beside, greatest, ?_,
            isTree.visitsLocals_cons visitsInner visitsLater,
            isTree.isGreatestEnd_cons known innerGreatest isGreatest⟩
          have listed : (scope.block block).locals = [] ++ (scope.block block).locals := rfl
          have places := isTree.toWellFormed.placeLocals_eq keepUnused listed given
          rw [widthOf, List.map_nil, List.foldr_nil, UInt16.add_zero, isStart] at places
          have declared : ∀ id ∈ (scope.block block).locals,
              id < (scope.withSlots keepUnused given).locals.size := by
            intro id member
            rw [withSlots, Array.size_mapIdx]
            exact ((isTree.mem_locals block id).mp member).1
          rw [← List.append_assoc, ← List.append_assoc]
          exact .enters known declared places inner later

/-- The greatest end of all scopes is the size of the frame. -/
theorem IsTree.eq_frameWidth
    (isTree : scope.IsTree)
    {greatest : UInt16}
    (isGreatest : scope.IsGreatestEnd keepUnused [root] 0 greatest) :
    greatest = scope.frameWidth keepUnused := by
  apply UInt16.toNat_inj.mp
  apply Nat.le_antisymm
  · rw [frameWidth, toNat_foldl_max]
    apply le_foldl_max
    rcases isGreatest.reached with isNone | ⟨block, known, isEnd⟩
    · rw [isNone]
      exact .inl (Nat.le_refl _)
    · rw [isEnd]
      exact .inr (List.mem_map_of_mem (List.mem_map_of_mem (List.mem_range.mpr known)))
  · rcases foldl_max_mem ((List.range scope.blocks.size).map (scope.blockEnd keepUnused)) 0 with
      isNone | isEnd
    · rw [frameWidth, isNone]
      exact isGreatest.atLeast
    · obtain ⟨block, known, isBlock⟩ := List.mem_map.mp isEnd
      rw [frameWidth, ← isBlock]
      have exists_ := List.mem_range.mp known
      exact isGreatest.covers block exists_ root List.mem_cons_self (isTree.isWithin_root exists_)

/-- The assignment of slots that starts at the outermost scope ends: it visits every local once,
and gives the slots and finds the size that the frame has. -/
theorem IsTree.exists_visits
    (isTree : scope.IsTree)
    (keepUnused : Bool) :
    ∃ visited, visited.Perm (List.range scope.locals.size) ∧
      AssignsSlots keepUnused [root] 0 0 scope visited
        { scope.assignSlots keepUnused with frameSize := scope.frameSize }
        (scope.frameWidth keepUnused) := by
  have start : ∀ block ∈ [root], block < scope.blocks.size ∧
      scope.blocks.size ≤ block + scope.blocks.size ∧ scope.blockStart keepUnused block = 0 := by
    intro block member
    rw [List.mem_singleton.mp member]
    exact ⟨isTree.root, Nat.le_add_left _ _, rfl⟩
  obtain ⟨visited, greatest, assigns, visits, isGreatest⟩ :=
    isTree.exists_assignsSlots keepUnused scope.blocks.size start 0 []
  have isAll : visited.Perm (List.range scope.locals.size) := by
    rw [List.perm_iff_count]
    intro id
    rw [visits id, List.countP_singleton]
    split
    · next known =>
        rw [isTree.isWithin_root (isTree.home id known), if_pos rfl]
        exact (List.count_eq_one_of_mem List.nodup_range (List.mem_range.mpr known)).symm
    · next unknown =>
        rw [eq_comm, List.count_eq_zero, List.mem_range]
        exact unknown
  rw [withSlots_nil, List.nil_append, withSlots_all isAll, isTree.eq_frameWidth isGreatest] at assigns
  exact ⟨visited, isAll, assigns⟩

end Visits

/-- The walks over the scopes end, each with one result: the one that the functions on scopes
give. A scope is inside those that steps from a scope to the one around it lead to, and the
assignment of slots visits every local once. -/
structure WalksEnd
    (scope : MethodScope) :
    Prop where
  lookup : ∀ block < scope.blocks.size, ∀ (name : String) (found : Option Nat),
    scope.LooksUp name (some block) found ↔ found = scope.lookup block name
  isWithin : ∀ block < scope.blocks.size, ∀ (ancestor : Nat) (isInside : Bool),
    scope.Climbs ancestor (some block) isInside ↔ isInside = scope.isWithin block ancestor
  closure : ∀ block ancestor : Nat,
    scope.isWithin block ancestor = true ↔
      Relation.ReflTransGen (fun inner outer => (scope.block inner).parent = some outer)
        block ancestor
  assignSlots : ∀ keepUnused : Bool, ∃ visited : List Nat,
    visited.Perm (List.range scope.locals.size) ∧
    ∀ (others : List Nat) (after : MethodScope) (frameEnd : UInt16),
      AssignsSlots keepUnused [root] 0 0 scope others after frameEnd ↔
        others = visited ∧ after.frameSize = scope.frameSize ∧
          { after with frameSize := frameEnd } = scope.assignSlots keepUnused

/-- What is stored of scopes that have been built agrees, and every walk over them ends. -/
theorem IsBuilt.isTree_walksEnd
    {scope : MethodScope}
    (built : scope.IsBuilt) :
    scope.IsTree ∧ scope.WalksEnd := by
  have isTree := built.storesTree
  refine ⟨isTree, ?_, ?_, isTree.toWellFormed.isWithin_iff_reflTransGen, ?_⟩
  · intro block known name found
    have ends := isTree.looksUp name known
    exact ⟨fun looksUp => looksUp.unique ends, fun same => same ▸ ends⟩
  · intro block known ancestor isInside
    have ends := isTree.climbs ancestor known
    exact ⟨fun climbs => climbs.unique ends, fun same => same ▸ ends⟩
  · intro keepUnused
    obtain ⟨visited, isAll, assigns⟩ := isTree.exists_visits keepUnused
    refine ⟨visited, isAll, fun others after frameEnd => ⟨?_, ?_⟩⟩
    · intro again
      obtain ⟨rfl, rfl, rfl⟩ := again.unique assigns
      exact ⟨rfl, rfl, rfl⟩
    · rintro ⟨rfl, sameSize, isAssigned⟩
      have isAfter : after = { scope.assignSlots keepUnused with frameSize := scope.frameSize } := by
        rw [← isAssigned, ← sameSize]
      have isEnd : frameEnd = scope.frameWidth keepUnused :=
        congrArg MethodScope.frameSize isAssigned
      rw [isAfter, isEnd]
      exact assigns

/-- A local in a scope inside a scope, one beside them and, younger than these, one around. -/
def nested :
    MethodScope :=
  let entry (name : String) : LocalVariable := .declared name (.primitive .int) ⟨0, 0⟩
  (((initial.openBlock root).openBlock 1).openBlock root)
    |>.declare 2 (entry "inner")
    |>.declare 3 (entry "beside")
    |>.declare root (entry "around")

/-- Scopes that have been opened inside each other are a tree. -/
theorem nested_isTree_walksEnd :
    nested.IsBuilt ∧ nested.IsTree ∧ nested.WalksEnd := by
  have built : nested.IsBuilt :=
    .declare _ (by decide) (.declare _ (by decide) (.declare _ (by decide)
      (.openBlock (by decide) (.openBlock (by decide) (.openBlock (by decide) .initial)))))
  exact ⟨built, built.isTree_walksEnd⟩

end MethodScope

end LoopLowering
