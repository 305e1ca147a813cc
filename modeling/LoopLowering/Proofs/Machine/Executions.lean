import LoopLowering.Proofs.Code.LoopSteps

namespace LoopLowering

/-!
# Executions of code

An execution goes through instructions from the first offset on, and a condition
may come out either way. What every execution finds is stated for a number of
steps, so that code that comes back to an offset is treated by going on there
with fewer steps left. The rules follow the code from its end to its start: what
is safe after an instruction makes it safe before the instruction.
-/

/-- The instructions that an execution has gone through, the latest one first. -/
abbrev Trail := List Instruction

/-- What is known of the way an execution has gone. -/
abbrev Knowledge := Trail → Prop

/-- What an instruction may ask of the way an execution has gone before it. -/
abbrev Demand := Instruction → Knowledge

namespace CodeStream

/-- After an instruction that goes on to the next one, control goes on. -/
theorem isTerminated_emit
    {instruction : Instruction}
    (goesOn : instruction.endsFlow = false)
    (code : CodeStream) :
    (code.emit instruction).isTerminated = false := by
  simp [isTerminated, emit, goesOn]

/-- At a branch target that is placed, control goes on. -/
theorem isTerminated_place
    {code : CodeStream}
    {label : Nat}
    (made : label < code.labels.size) :
    (code.place label).isTerminated = false := by
  have placed : (code.place label).labels[label]? = some (some code.position) := by
    rw [place, Array.getElem?_modify, if_pos rfl, Array.getElem?_eq_getElem made]
    rfl
  have contained : (code.place label).labels.contains (some (code.place label).position) = true :=
    Array.contains_iff_mem.mpr (Array.mem_of_getElem? placed)
  rw [isTerminated, contained]
  simp

/-- A branch target that is not placed yet lets control go on nowhere. -/
theorem isTerminated_addLabel
    (code : CodeStream) :
    code.addLabel.isTerminated = code.isTerminated := by
  have unplaced : code.addLabel.labels.contains (some code.position) =
      code.labels.contains (some code.position) := by
    rw [Bool.eq_iff_iff, Array.contains_iff_mem, Array.contains_iff_mem, addLabel]
    simp
  change (_ && !code.addLabel.labels.contains (some code.position)) = _
  rw [unplaced]
  rfl

/-- Whether control goes on depends on the code only. -/
theorem SameCode.isTerminated
    {before after : CodeStream}
    (same : before.SameCode after) :
    after.isTerminated = before.isTerminated := by
  simp [CodeStream.isTerminated, position, same.1, same.2]

end CodeStream

namespace MethodCode

/-- The offsets to which an execution can come, with the way it has gone. -/
inductive Reaches
    (code : MethodCode) :
    Trail → Nat → Prop where
  | start : Reaches code [] 0
  /-- An instruction goes on to the next one. -/
  | next {trail : Trail} {offset : Nat} {instruction : Instruction} :
      Reaches code trail offset →
      code.instructions[offset]? = some instruction →
      instruction.endsFlow = false →
      Reaches code (instruction :: trail) (offset + 1)
  /-- An instruction goes on at its branch target. -/
  | jump {trail : Trail} {offset target : Nat} {instruction : Instruction} {label : Label} :
      Reaches code trail offset →
      code.instructions[offset]? = some instruction →
      instruction.target? = some label →
      code.labelPosition? label = some target →
      Reaches code (instruction :: trail) target

/-- For a number of steps, an execution that goes on at an offset always finds
an instruction whose demand is met and whose branch target is placed. -/
def Safe
    (demand : Demand)
    (code : MethodCode) :
    (steps : Nat) → (offset : Nat) → Trail → Prop
  | 0, _, _ => True
  | steps + 1, offset, trail =>
      ∃ instruction, code.instructions[offset]? = some instruction ∧
        demand instruction trail ∧
        (instruction.endsFlow = false →
          Safe demand code steps (offset + 1) (instruction :: trail)) ∧
        ∀ label, instruction.target? = some label →
          ∃ target, code.labelPosition? label = some target ∧
            Safe demand code steps target (instruction :: trail)

/-- The code of a method has a piece of code as its first part. -/
structure Completes
    (code : MethodCode)
    (stream : CodeStream) :
    Prop where
  instruction : ∀ offset < stream.position,
    code.instructions[offset]? = stream.instructions[offset]?
  placed : ∀ {label offset : Nat},
    stream.offset? label = some offset → code.labelPosition? label = some offset

/-- The code of a method goes on safely where a piece of it ends, if control
goes on there at all. -/
structure Continues
    (demand : Demand)
    (code : MethodCode)
    (steps : Nat)
    (stream : CodeStream)
    (known : Knowledge) :
    Prop where
  completes : code.Completes stream
  safe : stream.isTerminated = false →
    ∀ trail, known trail → code.Safe demand steps stream.position trail

/-- The code of a method goes on safely at a branch target. -/
def ContinuesAt
    (demand : Demand)
    (code : MethodCode)
    (steps : Nat)
    (label : Label)
    (known : Knowledge) :
    Prop :=
  ∃ offset, code.labelPosition? label = some offset ∧
    ∀ trail, known trail → code.Safe demand steps offset trail

variable
  {demand : Demand}
  {code : MethodCode}
  {steps : Nat}
  {stream after : CodeStream}
  {known later : Knowledge}

/-- What is safe is safe for one step less. -/
theorem Safe.less :
    ∀ {steps offset : Nat} {trail : Trail},
      code.Safe demand (steps + 1) offset trail →
      code.Safe demand steps offset trail
  | 0, _, _, _ => trivial
  | _ + 1, _, _, safe => by
      obtain ⟨instruction, fetched, demanded, goesOn, jumps⟩ := safe
      refine ⟨instruction, fetched, demanded, fun falls => (goesOn falls).less, ?_⟩
      intro label isTarget
      obtain ⟨target, placed, safeThere⟩ := jumps label isTarget
      exact ⟨target, placed, safeThere.less⟩

/-- What is safe is safe for fewer steps. -/
theorem Safe.fewer
    {fewer offset : Nat}
    {trail : Trail}
    (safe : code.Safe demand steps offset trail)
    (isFewer : fewer ≤ steps) :
    code.Safe demand fewer offset trail := by
  induction isFewer with
  | refl =>
      exact safe
  | step _ inductionHypothesis =>
      exact inductionHypothesis safe.less

/-- An execution from a start that is safe for any number of steps stays safe
for any number of steps. -/
theorem Reaches.safe
    (safe : ∀ steps, code.Safe demand steps 0 [])
    {trail : Trail}
    {offset : Nat}
    (reaches : code.Reaches trail offset) :
    ∀ steps, code.Safe demand steps offset trail := by
  induction reaches with
  | start =>
      exact safe
  | @next trail offset instruction _ fetched falls inductionHypothesis =>
      intro steps
      obtain ⟨found, isFound, -, goesOn, -⟩ := inductionHypothesis (steps + 1)
      obtain rfl := Option.some.inj (fetched.symm.trans isFound)
      exact goesOn falls
  | @jump trail offset target instruction label _ fetched isTarget placed inductionHypothesis =>
      intro steps
      obtain ⟨found, isFound, -, -, jumps⟩ := inductionHypothesis (steps + 1)
      obtain rfl := Option.some.inj (fetched.symm.trans isFound)
      obtain ⟨other, isPlaced, safeThere⟩ := jumps label isTarget
      obtain rfl := Option.some.inj (placed.symm.trans isPlaced)
      exact safeThere

/-- A first part of a first part is a first part. -/
theorem Completes.earlier
    (completes : code.Completes after)
    (extends_ : stream.Extends after) :
    code.Completes stream where
  instruction := by
    intro offset inside
    rw [completes.instruction offset (Nat.lt_of_lt_of_le inside extends_.position),
      extends_.instruction offset inside]
  placed := fun placed => completes.placed (extends_.stays placed)

namespace Continues

/-- Code goes on safely also for fewer steps. -/
theorem fewer
    (continues : code.Continues demand steps stream known)
    {fewer : Nat}
    (isFewer : fewer ≤ steps) :
    code.Continues demand fewer stream known where
  completes := continues.completes
  safe := fun goesOn trail knows => (continues.safe goesOn trail knows).fewer isFewer

/-- Code goes on safely where more is known. -/
theorem strengthen
    (continues : code.Continues demand steps stream later)
    (implies : ∀ trail, known trail → later trail) :
    code.Continues demand steps stream known where
  completes := continues.completes
  safe := fun goesOn trail knows => continues.safe goesOn trail (implies trail knows)

/-- Code goes on safely before the same code. -/
theorem sameCode
    (continues : code.Continues demand steps after known)
    (same : stream.SameCode after) :
    code.Continues demand steps stream known := by
  have samePosition : after.position = stream.position := by
    simp [CodeStream.position, same.1]
  refine ⟨⟨?_, ?_⟩, ?_⟩
  · intro offset inside
    rw [continues.completes.instruction offset (by omega), same.1]
  · intro label offset placed
    refine continues.completes.placed ?_
    simpa [CodeStream.offset?, same.2] using placed
  · rw [← samePosition, ← same.isTerminated]
    exact continues.safe

/-- An instruction takes a step: it is safe where its demand is met and where it
goes on, it goes on safely. -/
theorem step
    {instruction : Instruction}
    (completes : code.Completes (stream.emit instruction))
    (demanded : ∀ trail, known trail → demand instruction trail)
    (falls : instruction.endsFlow = false →
      ∀ trail, known trail →
        code.Safe demand steps (stream.position + 1) (instruction :: trail))
    (jumps : ∀ label, instruction.target? = some label →
      ∃ target, code.labelPosition? label = some target ∧
        ∀ trail, known trail → code.Safe demand steps target (instruction :: trail)) :
    code.Continues demand (steps + 1) stream known where
  completes := completes.earlier (CodeStream.extends_emit instruction stream)
  safe := by
    intro _ trail knows
    have fetched : code.instructions[stream.position]? = some instruction := by
      rw [completes.instruction stream.position (by simp), CodeStream.instruction_emit]
    refine ⟨instruction, fetched, demanded trail knows, fun goesOn => falls goesOn trail knows, ?_⟩
    intro label isTarget
    obtain ⟨target, placed, safe⟩ := jumps label isTarget
    exact ⟨target, placed, safe trail knows⟩

/-- An instruction that does not branch comes before what goes on safely. -/
theorem emit
    {instruction : Instruction}
    (continues : code.Continues demand steps (stream.emit instruction) later)
    (noTarget : instruction.target? = none)
    (demanded : ∀ trail, known trail → demand instruction trail ∧ later (instruction :: trail)) :
    code.Continues demand steps stream known := by
  have stepped : code.Continues demand (steps + 1) stream known := by
    refine step continues.completes (fun trail knows => (demanded trail knows).1)
      (fun goesOn trail knows => ?_) (by simp [noTarget])
    rw [← CodeStream.position_emit instruction]
    exact continues.safe (CodeStream.isTerminated_emit goesOn stream) _ (demanded trail knows).2
  exact stepped.fewer (Nat.le_succ _)

/-- An instruction that ends the flow is safe, whatever comes after. -/
theorem finish
    {instruction : Instruction}
    (completes : code.Completes (stream.emit instruction))
    (noTarget : instruction.target? = none)
    (endsFlow : instruction.endsFlow = true)
    (demanded : ∀ trail, known trail → demand instruction trail) :
    code.Continues demand steps stream known := by
  have stepped : code.Continues demand (steps + 1) stream known :=
    step completes demanded (by simp [endsFlow]) (by simp [noTarget])
  exact stepped.fewer (Nat.le_succ _)

/-- A branch comes before what goes on safely both at its target and after it.
It takes a step to its target. -/
theorem branch
    {instruction : Instruction}
    {label : Label}
    (continues : code.Continues demand steps (stream.emit instruction) later)
    (target : code.ContinuesAt demand steps label later)
    (isTarget : instruction.target? = some label)
    (demanded : ∀ trail, known trail → demand instruction trail ∧ later (instruction :: trail)) :
    code.Continues demand (steps + 1) stream known := by
  obtain ⟨offset, placed, safe⟩ := target
  refine step continues.completes (fun trail knows => (demanded trail knows).1)
    (fun goesOn trail knows => ?_) ?_
  · rw [← CodeStream.position_emit instruction]
    exact continues.safe (CodeStream.isTerminated_emit goesOn stream) _ (demanded trail knows).2
  · intro other isOther
    obtain rfl := Option.some.inj (isTarget.symm.trans isOther)
    exact ⟨offset, placed, fun trail knows => safe _ (demanded trail knows).2⟩

/-- A jump comes before what goes on safely at its target. It takes a step. -/
theorem goto
    {label : Label}
    (completes : code.Completes (stream.emit (.goto label)))
    (target : code.ContinuesAt demand steps label later)
    (demanded : ∀ trail, known trail →
      demand (.goto label) trail ∧ later (.goto label :: trail)) :
    code.Continues demand (steps + 1) stream known := by
  obtain ⟨offset, placed, safe⟩ := target
  refine step completes (fun trail knows => (demanded trail knows).1) (by simp [Instruction.endsFlow]) ?_
  intro other isOther
  obtain rfl := Option.some.inj isOther
  exact ⟨offset, placed, fun trail knows => safe _ (demanded trail knows).2⟩

/-- A branch target is made before what goes on safely. -/
theorem addLabel
    (continues : code.Continues demand steps stream.addLabel known) :
    code.Continues demand steps stream known where
  completes := continues.completes.earlier (CodeStream.extends_addLabel stream)
  safe := by
    rw [← CodeStream.isTerminated_addLabel]
    exact continues.safe

/-- A branch target is placed before what goes on safely. -/
theorem place
    {label : Label}
    (continues : code.Continues demand steps (stream.place label) known)
    (isOpen : label < stream.labels.size ∧ stream.offset? label = none) :
    code.Continues demand steps stream known where
  completes := continues.completes.earlier (CodeStream.extends_place isOpen.2)
  safe := fun _ => continues.safe (CodeStream.isTerminated_place isOpen.1)

/-- Where a branch target is placed before what goes on safely, the code goes on
safely at the branch target. -/
theorem atPlaced
    {label : Label}
    (continues : code.Continues demand steps (stream.place label) known)
    (made : label < stream.labels.size) :
    code.ContinuesAt demand steps label known :=
  ⟨stream.position, continues.completes.placed (CodeStream.offset?_place made),
    continues.safe (CodeStream.isTerminated_place made)⟩

/-- Where control does not go on, code goes on safely whatever is known. -/
theorem ofTerminated
    (completes : code.Completes stream)
    (terminated : stream.isTerminated = true) :
    code.Continues demand steps stream known where
  completes := completes
  safe := fun goesOn => absurd goesOn (by simp [terminated])

/-- Code goes on safely if it does supposing that an execution comes there. -/
theorem ofSome
    (completes : code.Completes stream)
    (given : (∃ trail, known trail) → code.Continues demand steps stream known) :
    code.Continues demand steps stream known where
  completes := completes
  safe := fun goesOn trail knows => (given ⟨trail, knows⟩).safe goesOn trail knows

/-- Code goes on safely for any number of steps if it does for one step more
than it does where it comes back. -/
theorem loop
    (completes : code.Completes stream)
    (round : ∀ fewer < steps, code.Continues demand fewer stream known →
      code.Continues demand (fewer + 1) stream known) :
    code.Continues demand steps stream known := by
  have rounds : ∀ fewer ≤ steps, code.Continues demand fewer stream known := by
    intro fewer isFewer
    induction fewer with
    | zero =>
        exact ⟨completes, fun _ _ _ => trivial⟩
    | succ fewer inductionHypothesis =>
        exact round fewer isFewer (inductionHypothesis (by omega))
  exact rounds steps (Nat.le_refl steps)

end Continues

/-- Code goes on safely at a branch target also for fewer steps and where more
is known. -/
theorem ContinuesAt.relax
    {label : Label}
    (continues : code.ContinuesAt demand steps label later)
    {fewer : Nat}
    (isFewer : fewer ≤ steps)
    (implies : ∀ trail, known trail → later trail) :
    code.ContinuesAt demand fewer label known := by
  obtain ⟨offset, placed, safe⟩ := continues
  exact ⟨offset, placed, fun trail knows => (safe trail (implies trail knows)).fewer isFewer⟩

end MethodCode

end LoopLowering
