import LoopLowering.Source.Handles

namespace LoopLowering

/-!
# Sets of locals

A set of locals is stored in words of 64 bits, with a bit for each local. It has as many words
as it has needed so far, and a word that is not stored holds no local. The same set can
therefore be stored in more words or in fewer: two sets are equal exactly when they have the
same members.
-/

/-- A set of locals as it is stored. -/
structure PackedSet where
  words : List (BitVec 64)
  deriving Repr, Inhabited

namespace PackedSet

/-- The word that holds a local. -/
def wordOf
    (id : LocalId) :
    Nat :=
  id >>> 6

/-- The word in which only the bit of a local is set. -/
def mask
    (id : LocalId) :
    BitVec 64 :=
  1#64 <<< (id &&& 63)

/-- The word at a position. -/
def word
    (set : PackedSet)
    (position : Nat) :
    BitVec 64 :=
  set.words[position]?.getD 0#64

/-- The set without members. -/
def empty :
    PackedSet :=
  ⟨[]⟩

/-- Whether a local is in a set. -/
def contains
    (set : PackedSet)
    (id : LocalId) :
    Bool :=
  set.word (wordOf id) &&& mask id != 0#64

/-- The same set in no fewer words than a given number. -/
def grow
    (count : Nat)
    (set : PackedSet) :
    PackedSet :=
  ⟨set.words ++ List.replicate (count - set.words.length) 0#64⟩

/-- Put a local into a set. -/
def insert
    (id : LocalId)
    (set : PackedSet) :
    PackedSet :=
  ⟨(set.grow (wordOf id + 1)).words.modify (wordOf id) (· ||| mask id)⟩

/-- The locals in either of two sets, in as many words as the longer one has. -/
def union
    (first second : PackedSet) :
    PackedSet :=
  ⟨(first.grow second.words.length).words.mapIdx fun position stored =>
    stored ||| second.word position⟩

/-- The locals in both of two sets, in as many words as the first one has. -/
def inter
    (first second : PackedSet) :
    PackedSet :=
  ⟨first.words.mapIdx fun position stored => stored &&& second.word position⟩

/-- Whether a set has no members. -/
def isEmpty
    (set : PackedSet) :
    Bool :=
  set.words.all (· == 0#64)

/-- The members of a set, in ascending order. -/
def members
    (set : PackedSet) :
    List LocalId :=
  (List.range (64 * set.words.length)).filter set.contains

/-- The number of bits of a word that are set. -/
def countOnes
    (stored : BitVec 64) :
    Nat :=
  (List.range 64).countP stored.getLsbD

/-- The number of members. -/
def size
    (set : PackedSet) :
    Nat :=
  set.words.foldr (fun stored counted => countOnes stored + counted) 0

/-- Whether two sets hold the same locals in every word of the longer one. -/
def sameWords
    (first second : PackedSet) :
    Bool :=
  (List.range (max first.words.length second.words.length)).all fun position =>
    first.word position == second.word position

/-! ### Words and members -/

/-- A word that is not stored holds no local. -/
theorem word_of_length_le
    {set : PackedSet}
    {position : Nat}
    (notStored : set.words.length ≤ position) :
    set.word position = 0#64 := by
  rw [word, List.getElem?_eq_none notStored]
  rfl

/-- A local is in a set if its bit is set in its word. -/
theorem contains_eq
    (set : PackedSet)
    (id : Nat) :
    set.contains id = (set.word (id / 64)).getLsbD (id % 64) := by
  have isWord : id >>> 6 = id / 64 := Nat.shiftRight_eq_div_pow id 6
  have isBit : id &&& 63 = id % 64 := Nat.and_two_pow_sub_one_eq_mod id 6
  have inWord : id % 64 < 64 := Nat.mod_lt id (by decide)
  rw [contains, wordOf, mask, isWord, isBit, ← BitVec.twoPow_eq, BitVec.and_twoPow]
  split
  · next isSet =>
      have notZero : BitVec.twoPow 64 (id % 64) ≠ 0#64 := fun isZero => by
        have bit := congrArg (BitVec.getLsbD · (id % 64)) isZero
        simp [inWord] at bit
      rw [isSet, bne_iff_ne]
      exact notZero
  · next notSet =>
      simpa using notSet

/-- A local that has no stored word is not in a set. -/
theorem contains_of_length_le
    {set : PackedSet}
    {id : Nat}
    (notStored : 64 * set.words.length ≤ id) :
    set.contains id = false := by
  rw [contains_eq, word_of_length_le (by omega)]
  exact BitVec.getLsbD_zero

/-- Words hold the same locals if they are the same. -/
theorem word_ext
    {first second : PackedSet}
    (same : ∀ id : Nat, first.contains id = second.contains id)
    (position : Nat) :
    first.word position = second.word position := by
  apply BitVec.eq_of_getLsbD_eq
  intro bit inWord
  have sameMember := same (64 * position + bit)
  have isWord : (64 * position + bit) / 64 = position := by
    omega
  have isBit : (64 * position + bit) % 64 = bit := by
    omega
  rwa [contains_eq, contains_eq, isWord, isBit] at sameMember

/-- Sets have the same words if they have the same members. -/
theorem sameWords_iff
    {first second : PackedSet} :
    first.sameWords second = true ↔ ∀ id : Nat, first.contains id = second.contains id := by
  rw [sameWords, List.all_eq_true]
  constructor
  · intro same id
    rw [contains_eq, contains_eq]
    by_cases stored : id / 64 < max first.words.length second.words.length
    · have sameWord := beq_iff_eq.mp (same (id / 64) (List.mem_range.mpr stored))
      rw [sameWord]
    · rw [word_of_length_le (by omega), word_of_length_le (by omega)]
  · intro same position _
    exact beq_iff_eq.mpr (word_ext same position)

@[simp] theorem contains_empty
    (id : Nat) :
    empty.contains id = false :=
  contains_of_length_le (Nat.zero_le id)

@[simp] theorem word_grow
    (count : Nat)
    (set : PackedSet)
    (position : Nat) :
    (set.grow count).word position = set.word position := by
  by_cases stored : position < set.words.length
  · simp [word, grow, List.getElem?_append_left stored]
  · have notStored : set.words.length ≤ position := Nat.le_of_not_lt stored
    rw [word_of_length_le notStored, word, grow, List.getElem?_append_right notStored,
      List.getElem?_replicate]
    split <;> rfl

/-- A set that has grown has the words that were asked for. -/
theorem length_grow
    (count : Nat)
    (set : PackedSet) :
    (set.grow count).words.length = max set.words.length count := by
  simp only [grow, List.length_append, List.length_replicate]
  omega

/-- Inserting sets one bit of one word. -/
theorem word_insert
    (added : Nat)
    (set : PackedSet)
    (position : Nat) :
    (set.insert added).word position =
      if wordOf added = position then set.word position ||| mask added else set.word position := by
  have stored : wordOf added < (set.grow (wordOf added + 1)).words.length := by
    rw [length_grow]
    omega
  have grown := word_grow (wordOf added + 1) set position
  rw [word] at grown
  rw [word, insert, List.getElem?_modify, ← grown]
  split
  · next isWord =>
      subst isWord
      simp [List.getElem?_eq_getElem stored]
  · simp

@[simp] theorem contains_insert
    (set : PackedSet)
    (added id : Nat) :
    (set.insert added).contains id = (set.contains id || decide (added = id)) := by
  have isWord : added >>> 6 = added / 64 := Nat.shiftRight_eq_div_pow added 6
  have isBit : added &&& 63 = added % 64 := Nat.and_two_pow_sub_one_eq_mod added 6
  have inWord : id % 64 < 64 := Nat.mod_lt id (by decide)
  rw [contains_eq, contains_eq, word_insert, wordOf, mask, isWord, isBit, ← BitVec.twoPow_eq]
  by_cases sameWord : added / 64 = id / 64
  · have sameLocal : added % 64 = id % 64 ↔ added = id := by
      omega
    simp [sameWord, inWord, ← sameLocal, eq_comm]
  · have otherLocal : added ≠ id := by
      rintro rfl
      exact sameWord rfl
    simp [sameWord, otherLocal]

/-- A union joins words. -/
theorem word_union
    (first second : PackedSet)
    (position : Nat) :
    (first.union second).word position = first.word position ||| second.word position := by
  by_cases stored : position < (first.grow second.words.length).words.length
  · have grown := word_grow second.words.length first position
    simp only [word, List.getElem?_eq_getElem stored, Option.getD_some] at grown
    simp only [word, union, List.getElem?_mapIdx, List.getElem?_eq_getElem stored,
      Option.map_some, Option.getD_some, grown]
  · have grown := length_grow second.words.length first
    have notStored : (first.union second).words.length ≤ position := by
      simp only [union, List.length_mapIdx]
      omega
    rw [word_of_length_le notStored, word_of_length_le (by omega), word_of_length_le (by omega)]
    rfl

@[simp] theorem contains_union
    (first second : PackedSet)
    (id : Nat) :
    (first.union second).contains id = (first.contains id || second.contains id) := by
  simp only [contains_eq, word_union, BitVec.getLsbD_or]

/-- An intersection meets words. -/
theorem word_inter
    (first second : PackedSet)
    (position : Nat) :
    (first.inter second).word position = first.word position &&& second.word position := by
  simp only [word, inter, List.getElem?_mapIdx]
  cases first.words[position]? with
  | none => exact (BitVec.zero_and).symm
  | some stored => rfl

@[simp] theorem contains_inter
    (first second : PackedSet)
    (id : Nat) :
    (first.inter second).contains id = (first.contains id && second.contains id) := by
  simp only [contains_eq, word_inter, BitVec.getLsbD_and]

/-- A set is empty if it has no members. -/
theorem isEmpty_iff
    (set : PackedSet) :
    set.isEmpty = true ↔ ∀ id : Nat, set.contains id = false := by
  rw [isEmpty, List.all_eq_true]
  constructor
  · intro allZero id
    rw [contains_eq, word]
    cases isStored : set.words[id / 64]? with
    | none =>
        exact BitVec.getLsbD_zero
    | some stored =>
        rw [Option.getD_some, beq_iff_eq.mp (allZero stored (List.mem_of_getElem? isStored))]
        exact BitVec.getLsbD_zero
  · intro noMember stored member
    obtain ⟨position, isStored⟩ := List.mem_iff_getElem?.mp member
    have isZero : set.word position = empty.word position :=
      word_ext (fun id => by rw [noMember, contains_empty]) position
    rw [word, isStored] at isZero
    exact beq_iff_eq.mpr isZero

/-- The members are those below any bound that is high enough. -/
theorem filter_contains
    (set : PackedSet)
    {bound : Nat}
    (enough : 64 * set.words.length ≤ bound) :
    (List.range bound).filter set.contains = set.members := by
  obtain ⟨further, rfl⟩ := Nat.exists_eq_add_of_le enough
  rw [List.range_add, List.filter_append, members, List.append_right_eq_self]
  simp only [List.filter_eq_nil_iff, List.mem_map, Bool.not_eq_true]
  rintro _ ⟨offset, -, rfl⟩
  exact contains_of_length_le (Nat.le_add_right _ offset)

/-- Bits of a word are counted one by one. -/
theorem size_eq
    (set : PackedSet) :
    set.size = (List.range (64 * set.words.length)).countP set.contains := by
  obtain ⟨words⟩ := set
  induction words with
  | nil =>
      rfl
  | cons first rest inductionHypothesis =>
      -- The first word holds the first 64 locals, and those of the others are 64 further on.
      have inFirst : ∀ bit ∈ List.range 64,
          contains ⟨first :: rest⟩ bit = first.getLsbD bit := by
        intro bit inWord
        rw [contains_eq, Nat.div_eq_of_lt (List.mem_range.mp inWord),
          Nat.mod_eq_of_lt (List.mem_range.mp inWord)]
        rfl
      have inRest : ∀ id : Nat, contains ⟨first :: rest⟩ (64 + id) = contains ⟨rest⟩ id := by
        intro id
        rw [contains_eq, contains_eq, Nat.add_mod_left, Nat.add_div_left id (by decide)]
        rfl
      have whole : 64 * (first :: rest).length = 64 + 64 * rest.length := by
        rw [List.length_cons]
        omega
      rw [whole, List.range_add, List.countP_append, List.countP_map,
        List.countP_congr (fun bit inWord => by rw [inFirst bit inWord])]
      have counted : (contains ⟨first :: rest⟩ ∘ fun id => 64 + id) = contains ⟨rest⟩ :=
        funext inRest
      rw [counted, ← inductionHypothesis]
      rfl

/-- The size is the number of members. -/
theorem size_eq_length
    (set : PackedSet) :
    set.size = set.members.length := by
  rw [size_eq, members, List.countP_eq_length_filter]

/-- Sets with the same members list the same members. -/
theorem members_congr
    {first second : PackedSet}
    (same : ∀ id : Nat, first.contains id = second.contains id) :
    first.members = second.members := by
  have bound := Nat.le_max_left (64 * first.words.length) (64 * second.words.length)
  have otherBound := Nat.le_max_right (64 * first.words.length) (64 * second.words.length)
  rw [← filter_contains first bound, ← filter_contains second otherBound, funext same]

end PackedSet

/-- Sets as they are stored count as the same if they have the same words. -/
instance PackedSet.sameSet :
    Setoid PackedSet where
  r first second := first.sameWords second = true
  iseqv :=
    { refl := fun _ => PackedSet.sameWords_iff.mpr fun _ => rfl
      symm := fun same => PackedSet.sameWords_iff.mpr fun id =>
        (PackedSet.sameWords_iff.mp same id).symm
      trans := fun same further => PackedSet.sameWords_iff.mpr fun id =>
        (PackedSet.sameWords_iff.mp same id).trans (PackedSet.sameWords_iff.mp further id) }

/-- A finite set of locals, however many words it is stored in. -/
def VarSet :
    Type :=
  Quotient PackedSet.sameSet

namespace VarSet

/-- The set that is stored in some words. -/
def ofPacked
    (stored : PackedSet) :
    VarSet :=
  Quotient.mk _ stored

/-- Stored sets with the same members are the same set. -/
theorem ofPacked_eq
    {first second : PackedSet}
    (same : ∀ id : Nat, first.contains id = second.contains id) :
    ofPacked first = ofPacked second :=
  Quotient.sound (PackedSet.sameWords_iff.mpr same)

instance (first second : PackedSet) :
    Decidable (first ≈ second) :=
  inferInstanceAs (Decidable (first.sameWords second = true))

instance :
    DecidableEq VarSet :=
  inferInstanceAs (DecidableEq (Quotient PackedSet.sameSet))

/-- The set without members. -/
def empty :
    VarSet :=
  ofPacked .empty

instance :
    Inhabited VarSet :=
  ⟨empty⟩

/-- Whether a local is in a set. -/
def contains
    (set : VarSet)
    (id : LocalId) :
    Bool :=
  Quotient.lift (fun stored => stored.contains id)
    (fun _ _ same => PackedSet.sameWords_iff.mp same id) set

/-- Put a local into a set. -/
def insert
    (id : LocalId)
    (set : VarSet) :
    VarSet :=
  Quotient.lift (fun stored => ofPacked (stored.insert id))
    (fun _ _ same => ofPacked_eq fun other => by
      rw [PackedSet.contains_insert, PackedSet.contains_insert,
        PackedSet.sameWords_iff.mp same other]) set

/-- The locals in either of two sets. -/
def union
    (first second : VarSet) :
    VarSet :=
  Quotient.lift₂ (fun stored other => ofPacked (stored.union other))
    (fun _ _ _ _ same alike => ofPacked_eq fun id => by
      rw [PackedSet.contains_union, PackedSet.contains_union,
        PackedSet.sameWords_iff.mp same id, PackedSet.sameWords_iff.mp alike id]) first second

/-- The locals in both of two sets. -/
def inter
    (first second : VarSet) :
    VarSet :=
  Quotient.lift₂ (fun stored other => ofPacked (stored.inter other))
    (fun _ _ _ _ same alike => ofPacked_eq fun id => by
      rw [PackedSet.contains_inter, PackedSet.contains_inter,
        PackedSet.sameWords_iff.mp same id, PackedSet.sameWords_iff.mp alike id]) first second

/-- Whether a set has no members. -/
def isEmpty
    (set : VarSet) :
    Bool :=
  Quotient.lift PackedSet.isEmpty
    (fun _ _ same => Bool.eq_iff_iff.mpr (by
      simp only [PackedSet.isEmpty_iff, PackedSet.sameWords_iff.mp same])) set

/-- The members of a set, in ascending order. -/
def members
    (set : VarSet) :
    List LocalId :=
  Quotient.lift PackedSet.members
    (fun _ _ same => PackedSet.members_congr (PackedSet.sameWords_iff.mp same)) set

instance :
    Repr VarSet :=
  ⟨fun set precedence => reprPrec set.members precedence⟩

/-- The number of members. -/
def size
    (set : VarSet) :
    Nat :=
  Quotient.lift PackedSet.size
    (fun _ _ same => by
      simp only [PackedSet.size_eq_length,
        PackedSet.members_congr (PackedSet.sameWords_iff.mp same)]) set

@[simp] theorem contains_empty
    (id : LocalId) :
    empty.contains id = false :=
  PackedSet.contains_empty id

@[simp] theorem contains_insert
    (set : VarSet)
    (added id : LocalId) :
    (set.insert added).contains id = (set.contains id || decide (added = id)) := by
  induction set using Quotient.ind with
  | _ stored => exact PackedSet.contains_insert stored added id

@[simp] theorem contains_union
    (first second : VarSet)
    (id : LocalId) :
    (first.union second).contains id = (first.contains id || second.contains id) := by
  induction first, second using Quotient.ind₂ with
  | _ stored other => exact PackedSet.contains_union stored other id

@[simp] theorem contains_inter
    (first second : VarSet)
    (id : LocalId) :
    (first.inter second).contains id = (first.contains id && second.contains id) := by
  induction first, second using Quotient.ind₂ with
  | _ stored other => exact PackedSet.contains_inter stored other id

/-- A set is empty if it has no members. -/
theorem isEmpty_iff
    (set : VarSet) :
    set.isEmpty = true ↔ ∀ id, set.contains id = false := by
  induction set using Quotient.ind with
  | _ stored => exact PackedSet.isEmpty_iff stored

@[ext] theorem ext
    {first second : VarSet}
    (same : ∀ id, first.contains id = second.contains id) :
    first = second := by
  induction first, second using Quotient.ind₂ with
  | _ stored other => exact ofPacked_eq same

end VarSet

end LoopLowering
