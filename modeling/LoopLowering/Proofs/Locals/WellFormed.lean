import LoopLowering.Locals.Slots

namespace LoopLowering

/-!
# The locals and scopes of a method

What stays while locals are added, and what always holds of the scopes they are in.

## Growth of the locals of a method

Resolution and flow analysis only add locals and scopes and mark locals as
used. What is known of a local when it is declared therefore still holds when
code is generated.
-/

namespace LocalVariable

/-- A local at an earlier and at a later time: nothing about it changes but
whether it is used and where it is kept. -/
structure Persists
    (before after : LocalVariable) :
    Prop where
  name : after.name = before.name
  type : after.type = before.type
  scope : after.scope = before.scope
  isFinal : after.isFinal = before.isFinal
  isParam : after.isParam = before.isParam
  isSynthetic : after.isSynthetic = before.isSynthetic
  isUsed : before.isUsed = true → after.isUsed = true

namespace Persists

@[refl] theorem refl
    (entry : LocalVariable) :
    entry.Persists entry :=
  ⟨rfl, rfl, rfl, rfl, rfl, rfl, id⟩

theorem trans
    {first second third : LocalVariable}
    (earlier : first.Persists second)
    (later : second.Persists third) :
    first.Persists third where
  name := later.name.trans earlier.name
  type := later.type.trans earlier.type
  scope := later.scope.trans earlier.scope
  isFinal := later.isFinal.trans earlier.isFinal
  isParam := later.isParam.trans earlier.isParam
  isSynthetic := later.isSynthetic.trans earlier.isSynthetic
  isUsed := later.isUsed ∘ earlier.isUsed

end Persists

end LocalVariable

namespace MethodScope

/-- A local that is not declared is nothing in particular. -/
theorem localAt_unknown
    {scope : MethodScope}
    {id : Nat}
    (unknown : ¬ id < scope.locals.size) :
    scope.localAt id = default := by
  have missing : scope.locals[id]? = none := Array.getElem?_eq_none (Nat.le_of_not_lt unknown)
  rw [localAt, missing]
  rfl

/-- The locals and scopes of a method at an earlier and at a later time. -/
structure Grows
    (before after : MethodScope) :
    Prop where
  localCount : before.locals.size ≤ after.locals.size
  persists : ∀ id < before.locals.size, (before.localAt id).Persists (after.localAt id)
  blockCount : before.blocks.size ≤ after.blocks.size
  parent : ∀ id < before.blocks.size, (after.block id).parent = (before.block id).parent
  ownLocals : ∀ id < before.blocks.size, (before.block id).locals <+: (after.block id).locals

namespace Grows

@[refl] theorem refl
    (scope : MethodScope) :
    scope.Grows scope where
  localCount := Nat.le_refl _
  persists := fun id _ => .refl (scope.localAt id)
  blockCount := Nat.le_refl _
  parent := fun _ _ => rfl
  ownLocals := fun _ _ => List.prefix_refl _

theorem trans
    {first second third : MethodScope}
    (earlier : first.Grows second)
    (later : second.Grows third) :
    first.Grows third where
  localCount := Nat.le_trans earlier.localCount later.localCount
  persists := fun id known =>
    (earlier.persists id known).trans (later.persists id (Nat.lt_of_lt_of_le known earlier.localCount))
  blockCount := Nat.le_trans earlier.blockCount later.blockCount
  parent := fun id known =>
    (later.parent id (Nat.lt_of_lt_of_le known earlier.blockCount)).trans (earlier.parent id known)
  ownLocals := fun id known =>
    (earlier.ownLocals id known).trans (later.ownLocals id (Nat.lt_of_lt_of_le known earlier.blockCount))

end Grows

/-- Opening a block scope only adds it. -/
theorem grows_openBlock
    (parent : Nat)
    (scope : MethodScope) :
    scope.Grows (scope.openBlock parent) where
  localCount := Nat.le_refl _
  persists := fun id _ => .refl (scope.localAt id)
  blockCount := by
    simp [openBlock]
  parent := by
    intro id known
    have other : id ≠ scope.blocks.size := Nat.ne_of_lt known
    by_cases same : parent = id <;>
      simp [block, openBlock, Array.getElem?_modify, Array.getElem?_push, other, same,
        Array.getElem?_eq_getElem known]
  ownLocals := by
    intro id known
    have other : id ≠ scope.blocks.size := Nat.ne_of_lt known
    by_cases same : parent = id <;>
      simp [block, openBlock, Array.getElem?_modify, Array.getElem?_push, other, same,
        Array.getElem?_eq_getElem known]

@[simp] theorem size_recordLocal
    (home id : Nat)
    (blocks : Array BlockScope) :
    (recordLocal home id blocks).size = blocks.size :=
  Array.size_modify

/-- Declaring a local only adds it. -/
theorem grows_declare
    (home : Nat)
    (entry : LocalVariable)
    (scope : MethodScope) :
    scope.Grows (scope.declare home entry) where
  localCount := by
    simp [declare]
  persists := by
    intro id known
    have other : id ≠ scope.locals.size := Nat.ne_of_lt known
    simp [localAt, declare, Array.getElem?_push, other, LocalVariable.Persists.refl]
  blockCount := by
    simp [declare]
  parent := by
    intro id known
    by_cases same : home = id <;>
      simp [block, declare, recordLocal, Array.getElem?_modify, same,
        Array.getElem?_eq_getElem known]
  ownLocals := by
    intro id known
    by_cases same : home = id <;>
      simp [block, declare, recordLocal, Array.getElem?_modify, same,
        Array.getElem?_eq_getElem known]

/-- Marking a local as used changes nothing else. -/
theorem grows_markUsed
    (used : Nat)
    (scope : MethodScope) :
    scope.Grows (scope.markUsed used) where
  localCount := by
    simp [markUsed, modifyLocal]
  persists := by
    intro id known
    by_cases same : used = id
    · subst same
      simp only [localAt, markUsed, modifyLocal, Array.getElem?_modify,
        Array.getElem?_eq_getElem known]
      exact ⟨rfl, rfl, rfl, rfl, rfl, rfl, fun _ => rfl⟩
    · simp [localAt, markUsed, modifyLocal, Array.getElem?_modify, same,
        LocalVariable.Persists.refl]
  blockCount := Nat.le_refl _
  parent := fun _ _ => rfl
  ownLocals := fun _ _ => List.prefix_refl _

/-- A local that is marked as used is used, if it exists. -/
theorem isUsed_markUsed
    {id : Nat}
    {scope : MethodScope}
    (known : id < scope.locals.size) :
    ((scope.markUsed id).localAt id).isUsed = true := by
  have inBounds : id < scope.locals.size := known
  simp [localAt, markUsed, modifyLocal, Array.getElem?_modify,
    Array.getElem?_eq_getElem inBounds]

/-- Assigning slots changes nothing else. -/
theorem grows_assignSlots
    (keepUnused : Bool)
    (scope : MethodScope) :
    scope.Grows (scope.assignSlots keepUnused) where
  localCount := by
    simp [assignSlots]
  persists := by
    intro id known
    simp only [localAt, assignSlots, Array.getElem?_mapIdx, Array.getElem?_eq_getElem known]
    exact ⟨rfl, rfl, rfl, rfl, rfl, rfl, fun used => used⟩
  blockCount := Nat.le_refl _
  parent := fun _ _ => rfl
  ownLocals := fun _ _ => List.prefix_refl _

end MethodScope

/-!
## Well-formed scopes

The scopes of a method form a tree in which a scope is younger than the one
around it, and each scope lists the locals that name it as their home, oldest
first. A name is found only in the scopes around the place where it is used.
-/

namespace MethodScope

/-- The scopes form a tree whose locals know their home. -/
structure WellFormed
    (scope : MethodScope) :
    Prop where
  root : 0 < scope.blocks.size
  parentOlder : ∀ {id parent : Nat}, (scope.block id).parent = some parent → parent < id
  home : ∀ id < scope.locals.size, (scope.localAt id).scope < scope.blocks.size
  mem_locals : ∀ (block id : Nat),
    id ∈ (scope.block block).locals ↔ id < scope.locals.size ∧ (scope.localAt id).scope = block
  sorted : ∀ block : Nat, (scope.block block).locals.Pairwise (· < ·)

/-- A scope that does not exist is alone and empty. -/
theorem default_block :
    (default : BlockScope) = ⟨none, [], []⟩ :=
  rfl

/-- A method without locals is well formed. -/
theorem wellFormed_initial :
    initial.WellFormed where
  root := by
    decide
  parentOlder := by
    intro id parent
    cases id <;> simp [block, initial, default_block]
  home := by
    simp [initial]
  mem_locals := by
    intro block id
    cases block <;> simp [MethodScope.block, initial, default_block]
  sorted := by
    intro block
    cases block <;> simp [MethodScope.block, initial, default_block]

/-- The scopes after opening one. -/
theorem block_openBlock
    {parent : Nat}
    {scope : MethodScope}
    (known : parent < scope.blocks.size)
    (id : Nat) :
    ((scope.openBlock parent).block id).parent =
        (if id = scope.blocks.size then some parent else (scope.block id).parent) ∧
      ((scope.openBlock parent).block id).locals = (scope.block id).locals := by
  have inBounds : parent < scope.blocks.size := known
  by_cases new : id = scope.blocks.size
  · have other : parent ≠ scope.blocks.size := Nat.ne_of_lt inBounds
    simp only [block, openBlock, nextBlock, Array.getElem?_modify, Array.getElem?_push, new, other,
      Array.getElem?_eq_none (Nat.le_refl scope.blocks.size), if_true, if_false, Option.getD_some,
      Option.getD_none, default_block, and_self]
  · by_cases same : parent = id
    · subst same
      simp [block, openBlock, Array.getElem?_modify, Array.getElem?_push, new,
        Array.getElem?_eq_getElem inBounds]
    · simp [block, openBlock, Array.getElem?_modify, Array.getElem?_push, new, same]

/-- The locals of a scope after declaring one. -/
theorem block_declare
    {home : Nat}
    {scope : MethodScope}
    (known : home < scope.blocks.size)
    (entry : LocalVariable)
    (id : Nat) :
    ((scope.declare home entry).block id).parent = (scope.block id).parent ∧
      ((scope.declare home entry).block id).locals =
        if id = home then (scope.block id).locals ++ [scope.locals.size]
        else (scope.block id).locals := by
  have inBounds : home < scope.blocks.size := known
  by_cases same : home = id
  · subst same
    simp [block, declare, recordLocal, nextLocal, Array.getElem?_modify,
      Array.getElem?_eq_getElem inBounds]
  · simp [block, declare, recordLocal, Array.getElem?_modify, same, Ne.symm same]

/-- The locals after declaring one. -/
theorem localAt_declare
    (home : Nat)
    (entry : LocalVariable)
    (scope : MethodScope)
    (id : Nat) :
    (scope.declare home entry).localAt id =
      if id = scope.locals.size then { entry with scope := home } else scope.localAt id := by
  by_cases new : id = scope.locals.size <;>
    simp [localAt, declare, Array.getElem?_push, new]

/-- Opening a block scope keeps the scopes well formed. -/
theorem WellFormed.openBlock
    {scope : MethodScope}
    (wellFormed : scope.WellFormed)
    {parent : Nat}
    (known : parent < scope.blocks.size) :
    (scope.openBlock parent).WellFormed where
  root := by
    simp [MethodScope.openBlock]
  parentOlder := by
    intro id above found
    rw [(block_openBlock known id).1] at found
    split at found
    · next new =>
        cases found
        rwa [new]
    · exact wellFormed.parentOlder found
  home := by
    intro id inLocals
    exact Nat.lt_of_lt_of_le (wellFormed.home id inLocals) (grows_openBlock parent scope).blockCount
  mem_locals := by
    intro block id
    rw [(block_openBlock known block).2]
    exact wellFormed.mem_locals block id
  sorted := by
    intro block
    rw [(block_openBlock known block).2]
    exact wellFormed.sorted block

/-- Declaring a local keeps the scopes well formed. -/
theorem WellFormed.declare
    {scope : MethodScope}
    (wellFormed : scope.WellFormed)
    {home : Nat}
    (known : home < scope.blocks.size)
    (entry : LocalVariable) :
    (scope.declare home entry).WellFormed := by
  have blocks : (scope.declare home entry).blocks.size = scope.blocks.size := by
    simp [MethodScope.declare]
  have locals : (scope.declare home entry).locals.size = scope.locals.size + 1 := by
    simp [MethodScope.declare]
  refine ⟨?_, ?_, ?_, ?_, ?_⟩
  · rw [blocks]
    exact wellFormed.root
  · intro id parent found
    rw [(block_declare known entry id).1] at found
    exact wellFormed.parentOlder found
  · intro id inLocals
    rw [blocks, localAt_declare]
    split
    · exact known
    · exact wellFormed.home id (by omega)
  · intro block id
    rw [(block_declare known entry block).2, locals, localAt_declare]
    have older := wellFormed.mem_locals block id
    by_cases new : id = scope.locals.size
    · have notOlder : id ∉ (scope.block block).locals := fun member => by
        have := (older.mp member).1
        omega
      rw [new] at notOlder
      by_cases same : block = home
      · simp [new, same]
      · simp [new, same, Ne.symm same, notOlder]
    · by_cases same : block = home
      · rw [if_pos same, if_neg new, List.mem_append, List.mem_singleton, older]
        constructor
        · rintro (⟨inLocals, home⟩ | newest)
          · exact ⟨by omega, home⟩
          · exact absurd newest new
        · rintro ⟨inLocals, home⟩
          exact .inl ⟨by omega, home⟩
      · rw [if_neg same, if_neg new, older]
        constructor
        · rintro ⟨inLocals, home⟩
          exact ⟨by omega, home⟩
        · rintro ⟨inLocals, home⟩
          exact ⟨by omega, home⟩
  · intro block
    rw [(block_declare known entry block).2]
    split
    · rw [List.pairwise_append]
      refine ⟨wellFormed.sorted block, List.pairwise_singleton _ _, ?_⟩
      intro id member newest isNewest
      rw [List.mem_singleton.mp isNewest]
      exact ((wellFormed.mem_locals block id).mp member).1
    · exact wellFormed.sorted block

/-- Scopes are well formed whatever becomes of their locals, as long as these stay
where they are. -/
theorem WellFormed.ofSameHomes
    {before after : MethodScope}
    (wellFormed : before.WellFormed)
    (sameBlocks : after.blocks = before.blocks)
    (sameCount : after.locals.size = before.locals.size)
    (sameHome : ∀ id < before.locals.size, (after.localAt id).scope = (before.localAt id).scope) :
    after.WellFormed := by
  have sameBlock : ∀ id, after.block id = before.block id := by
    intro id
    simp [block, sameBlocks]
  have sameBlockCount : after.blocks.size = before.blocks.size := by
    simp [sameBlocks]
  refine ⟨?_, ?_, ?_, ?_, ?_⟩
  · rw [sameBlockCount]
    exact wellFormed.root
  · intro id parent found
    rw [sameBlock] at found
    exact wellFormed.parentOlder found
  · intro id inLocals
    rw [sameCount] at inLocals
    rw [sameBlockCount, sameHome id inLocals]
    exact wellFormed.home id inLocals
  · intro block id
    rw [sameBlock, sameCount, wellFormed.mem_locals]
    refine and_congr_right fun inLocals => ?_
    rw [sameHome id inLocals]
  · intro block
    rw [sameBlock]
    exact wellFormed.sorted block

/-- Changing locals without moving them keeps the scopes well formed. -/
theorem WellFormed.relabel
    {before after : MethodScope}
    (wellFormed : before.WellFormed)
    (grows : before.Grows after)
    (sameBlocks : after.blocks = before.blocks)
    (sameCount : after.locals.size = before.locals.size) :
    after.WellFormed :=
  wellFormed.ofSameHomes sameBlocks sameCount fun id known => (grows.persists id known).scope

/-- Marking a local as used keeps the scopes well formed. -/
theorem WellFormed.markUsed
    {scope : MethodScope}
    (wellFormed : scope.WellFormed)
    (id : Nat) :
    (scope.markUsed id).WellFormed :=
  wellFormed.relabel (grows_markUsed id scope) rfl
    (by simp [MethodScope.markUsed, modifyLocal])

/-- Assigning slots keeps the scopes well formed. -/
theorem WellFormed.assignSlots
    {scope : MethodScope}
    (wellFormed : scope.WellFormed)
    (keepUnused : Bool) :
    (scope.assignSlots keepUnused).WellFormed :=
  wellFormed.relabel (grows_assignSlots keepUnused scope) rfl
    (by simp [MethodScope.assignSlots])

/-- The scopes around a scope do not depend on how far the way to the root may
be, as long as that is far enough. -/
theorem WellFormed.enclosingWithin_eq
    {scope : MethodScope}
    (wellFormed : scope.WellFormed) :
    ∀ {steps id : Nat},
      id ≤ steps →
      enclosingWithin scope.blocks steps id = scope.enclosing id
  | 0, id, enough => by
      obtain rfl := Nat.le_zero.mp enough
      rfl
  | steps + 1, 0, _ => by
      have noParent : (scope.block 0).parent = none := by
        cases found : (scope.block 0).parent with
        | none =>
            rfl
        | some parent =>
            exact absurd (wellFormed.parentOlder found) (Nat.not_lt_zero _)
      simp only [block] at noParent
      simp [enclosing, enclosingWithin, noParent]
  | steps + 1, id + 1, enough => by
      simp only [enclosing, enclosingWithin]
      congr 1
      cases found : (scope.block (id + 1)).parent with
      | none =>
          simp only [block] at found
          simp [found]
      | some parent =>
          have older := wellFormed.parentOlder found
          simp only [block] at found
          simp only [found]
          have inId := Nat.le_of_lt_succ older
          have inSteps := Nat.le_trans inId (Nat.le_of_succ_le_succ enough)
          rw [wellFormed.enclosingWithin_eq inSteps, wellFormed.enclosingWithin_eq inId]

/-- The scopes around a scope are those around its parent and the scope
itself. -/
theorem WellFormed.enclosing_eq
    {scope : MethodScope}
    (wellFormed : scope.WellFormed)
    (id : Nat) :
    scope.enclosing id =
      id ::
        match (scope.block id).parent with
        | some parent => scope.enclosing parent
        | none => [] := by
  rw [← wellFormed.enclosingWithin_eq (Nat.le_succ id), enclosingWithin]
  congr 1
  cases found : (scope.block id).parent with
  | none =>
      simp only [block] at found
      simp [found]
  | some parent =>
      have older := wellFormed.parentOlder found
      simp only [block] at found
      simp only [found]
      exact wellFormed.enclosingWithin_eq (Nat.le_of_lt older)

/-- A scope is one of those around it. -/
theorem WellFormed.mem_enclosing_self
    {scope : MethodScope}
    (wellFormed : scope.WellFormed)
    (id : Nat) :
    id ∈ scope.enclosing id := by
  rw [wellFormed.enclosing_eq id]
  exact List.mem_cons_self

/-- A scope is not around those around it. -/
theorem WellFormed.le_of_mem_enclosing
    {scope : MethodScope}
    (wellFormed : scope.WellFormed)
    {id : Nat} :
    ∀ {other : Nat}, other ∈ scope.enclosing id → other ≤ id := by
  induction id using Nat.strongRecOn with
  | ind id inductionHypothesis =>
      intro other around
      rw [wellFormed.enclosing_eq id] at around
      rcases List.mem_cons.mp around with rfl | above
      · exact Nat.le_refl _
      · cases isParent : (scope.block id).parent with
        | none =>
            simp [isParent] at above
        | some parent =>
            have older := wellFormed.parentOlder isParent
            simp only [isParent] at above
            exact Nat.le_trans (inductionHypothesis parent older above) (Nat.le_of_lt older)

/-- The scopes around a scope around a third one are around the third one. -/
theorem WellFormed.mem_enclosing_trans
    {scope : MethodScope}
    (wellFormed : scope.WellFormed)
    {id : Nat} :
    ∀ {other further : Nat},
      other ∈ scope.enclosing id →
      further ∈ scope.enclosing other →
      further ∈ scope.enclosing id := by
  induction id using Nat.strongRecOn with
  | ind id inductionHypothesis =>
      intro other further around aroundOther
      rw [wellFormed.enclosing_eq id] at around ⊢
      rcases List.mem_cons.mp around with rfl | above
      · rwa [wellFormed.enclosing_eq other] at aroundOther
      · cases isParent : (scope.block id).parent with
        | none =>
            simp [isParent] at above
        | some parent =>
            simp only [isParent] at above
            exact List.mem_cons_of_mem _ (inductionHypothesis parent
              (wellFormed.parentOlder isParent) above aroundOther)

/-- The scopes around a scope stay the same. -/
theorem Grows.enclosing
    {before after : MethodScope}
    (grows : before.Grows after)
    (wellFormed : before.WellFormed)
    (wellFormedAfter : after.WellFormed)
    (id : Nat)
    (known : id < before.blocks.size) :
    after.enclosing id = before.enclosing id := by
  induction id using Nat.strongRecOn with
  | ind id inductionHypothesis =>
      rw [wellFormed.enclosing_eq, wellFormedAfter.enclosing_eq, grows.parent id known]
      cases found : (before.block id).parent with
      | none =>
          rfl
      | some parent =>
          have older := wellFormed.parentOlder found
          simp only
          rw [inductionHypothesis parent older (Nat.lt_trans older known)]

/-- A local that a scope sees: one declared so far, in a scope around it. -/
def Sees
    (scope : MethodScope)
    (block : ScopeId)
    (limit : Nat)
    (id : Nat) :
    Prop :=
  id < limit ∧ (scope.localAt id).scope ∈ scope.enclosing block

/-- The most recent local of a name is the first one from the end. -/
theorem lookupIn_eq_find?
    (scope : MethodScope)
    (name : String)
    (block : Nat) :
    scope.lookupIn name block =
      (scope.block block).locals.reverse.find? fun id => (scope.localAt id).name == name := by
  have latest : ∀ (ids : List Nat) (found : Option Nat),
      ids.foldl (fun found id => if (scope.localAt id).name == name then some id else found)
          found =
        (ids.reverse.find? fun id => (scope.localAt id).name == name).or found := by
    intro ids
    induction ids with
    | nil =>
        exact fun found => rfl
    | cons id rest inductionHypothesis =>
        intro found
        rw [List.foldl_cons, inductionHypothesis, List.reverse_cons, List.find?_append]
        by_cases same : (scope.localAt id).name = name <;> simp [same]
  rw [MethodScope.lookupIn, latest, Option.or_none]

/-- A name refers to a local that the scope sees. -/
theorem WellFormed.sees_lookup
    {scope : MethodScope}
    (wellFormed : scope.WellFormed)
    {block : Nat}
    {name : String}
    {id : Nat}
    (found : scope.lookup block name = some id) :
    scope.Sees block scope.locals.size id := by
  obtain ⟨around, isAround, foundIn⟩ := List.exists_of_findSome?_eq_some found
  rw [lookupIn_eq_find?] at foundIn
  have listed := List.mem_reverse.mp (List.mem_of_find?_eq_some foundIn)
  obtain ⟨inLocals, home⟩ := (wellFormed.mem_locals around id).mp listed
  exact ⟨inLocals, by rwa [home]⟩

/-- A name refers to a local of that name. -/
theorem name_of_lookup
    {scope : MethodScope}
    {block : Nat}
    {name : String}
    {id : Nat}
    (found : scope.lookup block name = some id) :
    (scope.localAt id).name = name := by
  obtain ⟨around, -, foundIn⟩ := List.exists_of_findSome?_eq_some found
  rw [lookupIn_eq_find?] at foundIn
  simpa using List.find?_some foundIn

/-- A local that a scope sees is still seen later. -/
theorem Sees.later
    {before after : MethodScope}
    (grows : before.Grows after)
    (wellFormed : before.WellFormed)
    (wellFormedAfter : after.WellFormed)
    {block : Nat}
    (known : block < before.blocks.size)
    {id : Nat}
    (sees : before.Sees block before.locals.size id) :
    after.Sees block before.locals.size id := by
  refine ⟨sees.1, ?_⟩
  rw [grows.enclosing wellFormed wellFormedAfter block known, (grows.persists id sees.1).scope]
  exact sees.2

end MethodScope

end LoopLowering
