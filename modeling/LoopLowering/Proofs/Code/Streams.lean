import LoopLowering.Code.CodeStream

namespace LoopLowering

/-!
# Growth of code

Code is only appended to: instructions stay where they are, and a branch target
that is placed stays placed. A piece of code leaves the branch targets of others
alone and places those it makes.
-/

namespace CodeStream

/-- The offset of a branch target that is placed. -/
def offset?
    (code : CodeStream)
    (label : Nat) :
    Option Nat :=
  code.labels[label]?.join

/-- A branch target that was made and is still to be placed. -/
def IsOpen
    (code : CodeStream)
    (label : Nat) :
    Prop :=
  code.labels[label]? = some none

/-- The code of an earlier and of a later time: what is there stays, and what is
new comes after. -/
structure Extends
    (before after : CodeStream) :
    Prop where
  position : before.position ≤ after.position
  instruction : ∀ offset < before.position,
    after.instructions[offset]? = before.instructions[offset]?
  labelCount : before.labels.size ≤ after.labels.size
  stays : ∀ {label offset : Nat},
    before.offset? label = some offset → after.offset? label = some offset
  isNew : ∀ {label offset : Nat},
    after.offset? label = some offset →
      before.offset? label = some offset ∨ before.position ≤ offset

/-- A piece of code that leaves the branch targets before it alone, and places
those it makes except for the ones that are still open. -/
structure Appends
    (opened : List Nat)
    (before after : CodeStream) :
    Prop where
  position : before.position ≤ after.position
  instruction : ∀ offset < before.position,
    after.instructions[offset]? = before.instructions[offset]?
  labelCount : before.labels.size ≤ after.labels.size
  keeps : ∀ label < before.labels.size, after.labels[label]? = before.labels[label]?
  isOpen : ∀ label ∈ opened, before.labels.size ≤ label ∧ after.labels[label]? = some none
  isPlaced : ∀ label, before.labels.size ≤ label → label < after.labels.size →
    label ∈ opened ∨ ∃ offset, after.labels[label]? = some (some offset) ∧
      before.position ≤ offset ∧ offset ≤ after.position

namespace Extends

@[refl] theorem refl
    (code : CodeStream) :
    code.Extends code :=
  ⟨Nat.le_refl _, fun _ _ => rfl, Nat.le_refl _, id, .inl⟩

theorem trans
    {first second third : CodeStream}
    (earlier : first.Extends second)
    (later : second.Extends third) :
    first.Extends third where
  position := Nat.le_trans earlier.position later.position
  instruction := fun offset inFirst =>
    (later.instruction offset (Nat.lt_of_lt_of_le inFirst earlier.position)).trans
      (earlier.instruction offset inFirst)
  labelCount := Nat.le_trans earlier.labelCount later.labelCount
  stays := later.stays ∘ earlier.stays
  isNew := by
    intro label offset placed
    rcases later.isNew placed with inSecond | new
    · exact earlier.isNew inSecond
    · exact .inr (Nat.le_trans earlier.position new)

end Extends

/-- A label that was not made is not placed. -/
theorem offset?_eq_none_of_size_le
    {code : CodeStream}
    {label : Nat}
    (notMade : code.labels.size ≤ label) :
    code.offset? label = none := by
  simp [offset?, Array.getElem?_eq_none notMade]

/-- A branch target that is still to be placed has no offset. -/
theorem IsOpen.offset?
    {code : CodeStream}
    {label : Nat}
    (isOpen : code.IsOpen label) :
    code.offset? label = none := by
  rw [CodeStream.offset?, show code.labels[label]? = some none from isOpen]
  rfl

/-- A label that is placed was made. -/
theorem lt_size_of_offset?
    {code : CodeStream}
    {label offset : Nat}
    (placed : code.offset? label = some offset) :
    label < code.labels.size := by
  rcases Nat.lt_or_ge label code.labels.size with made | notMade
  · exact made
  · rw [offset?_eq_none_of_size_le notMade] at placed
    cases placed

namespace Appends

@[refl] theorem refl
    (code : CodeStream) :
    Appends [] code code where
  position := Nat.le_refl _
  instruction := fun _ _ => rfl
  labelCount := Nat.le_refl _
  keeps := fun _ _ => rfl
  isOpen := by
    simp
  isPlaced := by
    intro label made inAfter
    omega

variable
  {opened : List Nat}
  {before code after : CodeStream}

/-- A branch target that was there before is where it was. -/
theorem offset?_eq
    (appends : Appends opened before after)
    {label : Nat}
    (inBefore : label < before.labels.size) :
    after.offset? label = before.offset? label := by
  simp only [offset?, appends.keeps label inBefore]

/-- A branch target that was open before stays open. -/
theorem staysOpen
    (appends : Appends opened before after)
    {label : Nat}
    (isOpen : before.IsOpen label) :
    after.IsOpen label :=
  (appends.keeps label (Array.getElem?_eq_some_iff.mp isOpen).1).trans isOpen

/-- A branch target that is open is made and not placed. -/
theorem isOpen_label
    (appends : Appends opened before after)
    (label : Nat)
    (isOpen : label ∈ opened) :
    label < after.labels.size ∧ after.offset? label = none := by
  have found := (appends.isOpen label isOpen).2
  exact ⟨(Array.getElem?_eq_some_iff.mp found).1, by simp [offset?, found]⟩

/-- What is appended extends the code. -/
theorem extends_
    (appends : Appends opened before after) :
    before.Extends after where
  position := appends.position
  instruction := appends.instruction
  labelCount := appends.labelCount
  stays := by
    intro label offset placed
    rwa [appends.offset?_eq (lt_size_of_offset? placed)]
  isNew := by
    intro label offset placed
    by_cases inBefore : label < before.labels.size
    · left
      rwa [← appends.offset?_eq inBefore]
    · right
      rcases appends.isPlaced label (Nat.le_of_not_lt inBefore) (lt_size_of_offset? placed) with
        open_ | ⟨found, isFound, inCode, -⟩
      · simp [offset?, (appends.isOpen label open_).2] at placed
      · simp only [offset?, isFound, Option.join_some, Option.some.injEq] at placed
        omega

theorem trans
    (earlier : Appends opened before code)
    (later : Appends [] code after) :
    Appends opened before after where
  position := Nat.le_trans earlier.position later.position
  instruction := (earlier.extends_.trans later.extends_).instruction
  labelCount := Nat.le_trans earlier.labelCount later.labelCount
  keeps := fun label inBefore =>
    (later.keeps label (Nat.lt_of_lt_of_le inBefore earlier.labelCount)).trans
      (earlier.keeps label inBefore)
  isOpen := by
    intro label open_
    obtain ⟨made, isNone⟩ := earlier.isOpen label open_
    have inCode := (Array.getElem?_eq_some_iff.mp isNone).1
    exact ⟨made, (later.keeps label inCode).trans isNone⟩
  isPlaced := by
    intro label made inAfter
    by_cases inCode : label < code.labels.size
    · rcases earlier.isPlaced label made inCode with open_ | ⟨offset, placed, low, high⟩
      · exact .inl open_
      · exact .inr ⟨offset, (later.keeps label inCode).trans placed, low,
          Nat.le_trans high later.position⟩
    · rcases later.isPlaced label (Nat.le_of_not_lt inCode) inAfter with
        open_ | ⟨offset, placed, low, high⟩
      · simp at open_
      · exact .inr ⟨offset, placed, Nat.le_trans earlier.position low, high⟩

/-- An instruction may follow. -/
theorem emit
    (appends : Appends opened before code)
    (instruction : Instruction) :
    Appends opened before (code.emit instruction) where
  position := by
    have := appends.position
    simp only [CodeStream.position, CodeStream.emit, Array.size_push] at this ⊢
    omega
  instruction := by
    intro offset inBefore
    have inCode : offset ≠ code.instructions.size :=
      Nat.ne_of_lt (Nat.lt_of_lt_of_le inBefore appends.position)
    simp only [CodeStream.emit, Array.getElem?_push, inCode, if_false]
    exact appends.instruction offset inBefore
  labelCount := appends.labelCount
  keeps := appends.keeps
  isOpen := appends.isOpen
  isPlaced := by
    intro label made inAfter
    rcases appends.isPlaced label made inAfter with open_ | ⟨offset, placed, low, high⟩
    · exact .inl open_
    · refine .inr ⟨offset, placed, low, Nat.le_trans high ?_⟩
      simp [CodeStream.position, CodeStream.emit]

/-- A branch target may be made. -/
theorem addLabel
    (appends : Appends opened before code) :
    Appends (code.nextLabel :: opened) before code.addLabel where
  position := appends.position
  instruction := appends.instruction
  labelCount := by
    have := appends.labelCount
    simp only [CodeStream.addLabel, Array.size_push]
    omega
  keeps := by
    intro label inBefore
    have inCode : label ≠ code.labels.size :=
      Nat.ne_of_lt (Nat.lt_of_lt_of_le inBefore appends.labelCount)
    simp only [CodeStream.addLabel, Array.getElem?_push, inCode, if_false]
    exact appends.keeps label inBefore
  isOpen := by
    intro label open_
    rcases List.mem_cons.mp open_ with rfl | older
    · exact ⟨appends.labelCount, by simp [CodeStream.addLabel, nextLabel]⟩
    · obtain ⟨made, isNone⟩ := appends.isOpen label older
      have inCode := (Array.getElem?_eq_some_iff.mp isNone).1
      refine ⟨made, ?_⟩
      simp only [CodeStream.addLabel, Array.getElem?_push, Nat.ne_of_lt inCode, if_false]
      exact isNone
  isPlaced := by
    intro label made inAfter
    by_cases new : label = code.labels.size
    · exact .inl (by simp [new, nextLabel])
    · have inCode : label < code.labels.size := by
        simp only [CodeStream.addLabel, Array.size_push] at inAfter
        omega
      rcases appends.isPlaced label made inCode with open_ | ⟨offset, placed, low, high⟩
      · exact .inl (by simp [open_])
      · refine .inr ⟨offset, ?_, low, high⟩
        simp only [CodeStream.addLabel, Array.getElem?_push, new, if_false]
        exact placed

/-- An open branch target may be placed. -/
theorem place
    (appends : Appends opened before code)
    {label : Nat}
    {others : List Nat}
    (isOpen : label ∈ opened)
    (remain : ∀ other, other ∈ others ↔ other ∈ opened ∧ other ≠ label) :
    Appends others before (code.place label) where
  position := appends.position
  instruction := appends.instruction
  labelCount := by
    simpa [CodeStream.place] using appends.labelCount
  keeps := by
    intro other inBefore
    have made := (appends.isOpen label isOpen).1
    have different : label ≠ other := by
      omega
    simp only [CodeStream.place, Array.getElem?_modify, different, if_false]
    exact appends.keeps other inBefore
  isOpen := by
    intro other stillOpen
    obtain ⟨wasOpen, different⟩ := (remain other).mp stillOpen
    simp only [CodeStream.place, Array.getElem?_modify, Ne.symm different, if_false]
    exact appends.isOpen other wasOpen
  isPlaced := by
    intro other made inAfter
    simp only [CodeStream.place, Array.size_modify] at inAfter
    by_cases same : label = other
    · subst same
      right
      refine ⟨code.position, ?_, appends.position, Nat.le_refl _⟩
      simp [CodeStream.place, Array.getElem?_modify, (appends.isOpen label isOpen).2]
    · simp only [CodeStream.place, Array.getElem?_modify, same, if_false]
      rcases appends.isPlaced other made inAfter with open_ | placed
      · exact .inl ((remain other).mpr ⟨open_, Ne.symm same⟩)
      · exact .inr placed

/-- Whatever does not touch instructions and branch targets may follow. -/
theorem same
    (appends : Appends opened before code)
    (sameInstructions : after.instructions = code.instructions)
    (sameLabels : after.labels = code.labels) :
    Appends opened before after where
  position := by
    simpa [CodeStream.position, sameInstructions] using appends.position
  instruction := by
    simpa [sameInstructions] using appends.instruction
  labelCount := by
    simpa [sameLabels] using appends.labelCount
  keeps := by
    simpa [sameLabels] using appends.keeps
  isOpen := by
    simpa [sameLabels] using appends.isOpen
  isPlaced := by
    simpa [CodeStream.position, sameInstructions, sameLabels] using appends.isPlaced

end Appends

/-- Emitting extends the code. -/
theorem extends_emit
    (instruction : Instruction)
    (code : CodeStream) :
    code.Extends (code.emit instruction) :=
  ((Appends.refl code).emit instruction).extends_

/-- Making a branch target extends the code. -/
theorem extends_addLabel
    (code : CodeStream) :
    code.Extends code.addLabel :=
  (Appends.refl code).addLabel.extends_

/-- A branch target that is made is not placed, and the others are where they
were. -/
theorem offset?_addLabel
    (code : CodeStream)
    (label : Nat) :
    code.addLabel.offset? label = code.offset? label := by
  by_cases isNew : label = code.labels.size
  · simp [offset?, addLabel, isNew]
  · simp [offset?, addLabel, Array.getElem?_push, isNew]

/-- Placing a branch target that is not placed yet extends the code. -/
theorem extends_place
    {code : CodeStream}
    {label : Nat}
    (notPlaced : code.offset? label = none) :
    code.Extends (code.place label) where
  position := Nat.le_refl _
  instruction := fun _ _ => rfl
  labelCount := by
    simp [place]
  stays := by
    intro other offset placed
    have different : label ≠ other := by
      rintro rfl
      rw [notPlaced] at placed
      cases placed
    simpa [offset?, place, Array.getElem?_modify, different] using placed
  isNew := by
    intro other offset placed
    by_cases same : label = other
    · subst same
      right
      simp only [offset?, place, Array.getElem?_modify, if_true] at placed
      cases found : code.labels[label]? with
      | none =>
          simp [found] at placed
      | some entry =>
          simp only [found, Option.map_some, Option.join_some, Option.some.injEq] at placed
          exact Nat.le_of_eq placed
    · left
      simpa [offset?, place, Array.getElem?_modify, same] using placed

/-- A branch target that is made has the offset at which it is placed. -/
theorem offset?_place
    {code : CodeStream}
    {label : Nat}
    (made : label < code.labels.size) :
    (code.place label).offset? label = some code.position := by
  rw [offset?, place, Array.getElem?_modify, if_pos rfl, Array.getElem?_eq_getElem made]
  rfl

/-- Placing a branch target leaves the others as they are. -/
theorem labels_place
    {code : CodeStream}
    {label other : Nat}
    (different : label ≠ other) :
    (code.place label).labels[other]? = code.labels[other]? := by
  simp [place, Array.getElem?_modify, different]

/-- An instruction that is emitted stands where the code ended. -/
theorem instruction_emit
    (instruction : Instruction)
    (code : CodeStream) :
    (code.emit instruction).instructions[code.position]? = some instruction := by
  simp [emit, position]

@[simp] theorem position_emit
    (instruction : Instruction)
    (code : CodeStream) :
    (code.emit instruction).position = code.position + 1 := by
  simp [emit, position]

@[simp] theorem position_place
    (label : Label)
    (code : CodeStream) :
    (code.place label).position = code.position :=
  rfl

@[simp] theorem position_addLabel
    (code : CodeStream) :
    code.addLabel.position = code.position :=
  rfl

/-- Opening the range of a local adds no instruction and no branch target. -/
theorem openLocal_same
    (scope : MethodScope)
    (id : LocalId)
    (code : CodeStream) :
    (code.openLocal scope id).instructions = code.instructions ∧
      (code.openLocal scope id).labels = code.labels := by
  unfold openLocal
  split <;> exact ⟨rfl, rfl⟩

/-- Attributing code to a source range adds no instruction and no branch
target. -/
theorem markSource_same
    (start : Nat)
    (span : Span)
    (code : CodeStream) :
    (code.markSource start span).instructions = code.instructions ∧
      (code.markSource start span).labels = code.labels := by
  unfold markSource
  split <;> exact ⟨rfl, rfl⟩

/-- Opening the ranges of assigned locals adds no instruction and no branch
target. -/
theorem openAssigned_same
    (scope : MethodScope)
    (block : ScopeId)
    (flow : FlowState)
    (code : CodeStream) :
    (code.openAssigned scope block flow).instructions = code.instructions ∧
      (code.openAssigned scope block flow).labels = code.labels := by
  have opens : ∀ (ids : List LocalId) (code : CodeStream),
      (ids.foldl (fun code id => code.openLocal scope id) code).instructions = code.instructions ∧
        (ids.foldl (fun code id => code.openLocal scope id) code).labels = code.labels := by
    intro ids
    induction ids with
    | nil =>
        intro code
        exact ⟨rfl, rfl⟩
    | cons id rest inductionHypothesis =>
        intro code
        obtain ⟨instructions, labels⟩ := inductionHypothesis (code.openLocal scope id)
        obtain ⟨sameInstructions, sameLabels⟩ := openLocal_same scope id code
        exact ⟨instructions.trans sameInstructions, labels.trans sameLabels⟩
  unfold openAssigned
  split
  · exact opens _ code
  · exact ⟨rfl, rfl⟩

end CodeStream

end LoopLowering
