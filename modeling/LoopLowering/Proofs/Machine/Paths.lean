import LoopLowering.Proofs.Machine.StackMaps

namespace LoopLowering

/-!
# Paths through code

A path follows instructions from one offset to another, as long as it stays in
a piece of code and every instruction finds its operands. A condition may come
out either way.
-/

/-- Where a path stands, with the kinds on the operand stack. -/
structure KindState where
  offset : Nat
  stack : KindStack
  deriving Repr, DecidableEq

/-- The states that a path through a piece of code can lead to. -/
inductive KindPath
    (read : DescriptorReader)
    (code : CodeStream)
    (start stop : Nat)
    (first : KindState) :
    KindState → Prop where
  | refl : KindPath read code start stop first first
  /-- An instruction goes on to the next one. -/
  | next {state : KindState} {instruction : Instruction} {stack : KindStack} :
      KindPath read code start stop first state →
      start ≤ state.offset →
      state.offset < stop →
      code.instructions[state.offset]? = some instruction →
      instruction.effect read state.stack = some stack →
      instruction.endsFlow = false →
      KindPath read code start stop first ⟨state.offset + 1, stack⟩
  /-- An instruction goes on at its branch target. -/
  | jump {state : KindState} {instruction : Instruction} {stack : KindStack} {label : Label}
      {offset : Nat} :
      KindPath read code start stop first state →
      start ≤ state.offset →
      state.offset < stop →
      code.instructions[state.offset]? = some instruction →
      instruction.effect read state.stack = some stack →
      instruction.target? = some label →
      code.offset? label = some offset →
      KindPath read code start stop first ⟨offset, stack⟩

namespace KindPath

variable
  {read : DescriptorReader}
  {code after : CodeStream}
  {start stop : Nat}
  {first middle last : KindState}

theorem trans
    (earlier : KindPath read code start stop first middle)
    (later : KindPath read code start stop middle last) :
    KindPath read code start stop first last := by
  induction later with
  | refl =>
      exact earlier
  | next _ low high fetched effect goesOn inductionHypothesis =>
      exact inductionHypothesis.next low high fetched effect goesOn
  | jump _ low high fetched effect isTarget placed inductionHypothesis =>
      exact inductionHypothesis.jump low high fetched effect isTarget placed

/-- A path through a piece of code is one through code that has it as a part. -/
theorem extend
    (extends_ : code.Extends after)
    {low high : Nat}
    (inCode : stop ≤ code.position)
    (startsLater : low ≤ start)
    (stopsEarlier : stop ≤ high)
    (path : KindPath read code start stop first last) :
    KindPath read after low high first last := by
  induction path with
  | refl =>
      exact .refl
  | @next state _ _ _ starts stops fetched effect goesOn inductionHypothesis =>
      have same := extends_.instruction state.offset (by omega)
      exact inductionHypothesis.next (by omega) (by omega) (same.trans fetched) effect goesOn
  | @jump state _ _ _ _ _ starts stops fetched effect isTarget placed inductionHypothesis =>
      have same := extends_.instruction state.offset (by omega)
      exact inductionHypothesis.jump (by omega) (by omega) (same.trans fetched) effect isTarget
        (extends_.stays placed)

end KindPath

/-- Where instructions lead, given at which of them to branch. -/
def KindState.follow?
    (read : DescriptorReader)
    (code : CodeStream) :
    (branches : List Bool) → KindState → Option KindState
  | [], state => some state
  | branch :: rest, state => do
      let instruction ← code.instructions[state.offset]?
      let stack ← instruction.effect read state.stack
      if branch then
        let label ← instruction.target?
        let offset ← code.offset? label
        follow? read code rest ⟨offset, stack⟩
      else if instruction.endsFlow then
        none
      else
        follow? read code rest ⟨state.offset + 1, stack⟩

/-- Instructions that are followed are a path. -/
theorem KindPath.of_follow?
    {read : DescriptorReader}
    {code : CodeStream}
    {first last : KindState} :
    ∀ {branches : List Bool} {state : KindState},
      KindPath read code 0 code.position first state →
      state.follow? read code branches = some last →
      KindPath read code 0 code.position first last
  | [], state, path, followed => by
      cases followed
      exact path
  | branch :: rest, state, path, followed => by
      simp only [KindState.follow?, Option.bind_eq_bind, Option.bind_eq_some_iff] at followed
      obtain ⟨instruction, fetched, stack, effect, followed⟩ := followed
      have inCode : state.offset < code.position := (Array.getElem?_eq_some_iff.mp fetched).1
      cases branch with
      | true =>
          simp only [if_true, Option.bind_eq_some_iff] at followed
          obtain ⟨label, isTarget, offset, placed, followed⟩ := followed
          exact of_follow? (path.jump (Nat.zero_le _) inCode fetched effect isTarget placed) followed
      | false =>
          simp only [Bool.false_eq_true, if_false] at followed
          split at followed
          · cases followed
          · next goesOn =>
              exact of_follow? (path.next (Nat.zero_le _) inCode fetched effect
                (Bool.eq_false_iff.mpr goesOn)) followed

namespace CodeStream

/-- Some path through a piece of code puts the given kinds on whatever stack it
starts with. -/
def Arrives
    (read : DescriptorReader)
    (kinds : KindStack)
    (before after : CodeStream) :
    Prop :=
  ∀ below, KindPath read after before.position after.position ⟨before.position, below⟩
    ⟨after.position, kinds ++ below⟩

namespace Arrives

variable
  {read : DescriptorReader}
  {kinds more : KindStack}
  {before code after : CodeStream}

theorem refl
    (read : DescriptorReader)
    (code : CodeStream) :
    Arrives read [] code code :=
  fun _ => .refl

/-- An instruction may take what is there. -/
theorem emit
    (arrives : Arrives read kinds before code)
    (position : before.position ≤ code.position)
    {instruction : Instruction}
    (effect : instruction.effect read kinds = some more)
    (goesOn : instruction.endsFlow = false) :
    Arrives read more before (code.emit instruction) := by
  intro below
  have size : (code.emit instruction).position = code.position + 1 := by
    simp [CodeStream.position, CodeStream.emit]
  have path := (arrives below).extend (extends_emit instruction code) (Nat.le_refl _)
    (Nat.le_refl _) (Nat.le_trans (Nat.le_add_right _ 1) (Nat.le_of_eq size.symm))
  rw [size] at path ⊢
  exact path.next position (Nat.lt_succ_self _)
    (by simp [CodeStream.emit, CodeStream.position])
    (Instruction.effect_frame effect below) goesOn

theorem append
    (first : Arrives read kinds before code)
    (second : Arrives read more code after)
    (position : before.position ≤ code.position)
    (extends_ : code.Extends after) :
    Arrives read (more ++ kinds) before after := by
  intro below
  rw [List.append_assoc]
  exact ((first below).extend extends_ (Nat.le_refl _) (Nat.le_refl _) extends_.position).trans
    ((second (kinds ++ below)).extend (.refl after) (Nat.le_refl _) position (Nat.le_refl _))

/-- Whatever extends the code without an instruction may follow. -/
theorem extend
    (arrives : Arrives read kinds before code)
    (extends_ : code.Extends after)
    (samePosition : after.position = code.position) :
    Arrives read kinds before after := by
  intro below
  rw [samePosition]
  exact (arrives below).extend extends_ (Nat.le_refl _) (Nat.le_refl _) (Nat.le_refl _)

end Arrives

/-- An instruction finds its operands on a stack, and its branch target is
placed within a piece of code. -/
def Executes
    (read : DescriptorReader)
    (code : CodeStream)
    (start stop : Nat)
    (offset : Nat)
    (stack : KindStack) :
    Prop :=
  ∃ instruction next, code.instructions[offset]? = some instruction ∧
    instruction.effect read stack = some next ∧
    ∀ label, instruction.target? = some label →
      ∃ target, code.offset? label = some target ∧ start ≤ target ∧ target ≤ stop

/-- Code that leaves exactly the given kinds on any operand stack. Along every
path from its start, with any stack there, each instruction finds its operands
above that stack, no path leaves the code but at its end, and there the stack
is the one at the start with the given kinds on top. -/
def LeavesExactly
    (read : DescriptorReader)
    (kinds : KindStack)
    (before after : CodeStream) :
    Prop :=
  ∀ (below : KindStack) (state : KindState),
    KindPath read after before.position after.position ⟨before.position, below⟩ state →
    before.position ≤ state.offset ∧ state.offset ≤ after.position ∧
      ∃ top, state.stack = top ++ below ∧
        (state.offset = after.position → top = kinds) ∧
        (state.offset < after.position →
          Executes read after before.position after.position state.offset top)

/-- Along a path through code with a right stack map, the stack is what the map
says, with the stack at the start underneath. -/
theorem Verified.stack_eq
    {read : DescriptorReader}
    {base : Nat}
    {labelStack : LabelStacks}
    {stackAt : Nat → KindStack}
    {before after : CodeStream}
    (verified : Verified read base labelStack stackAt before after)
    (inside : ∀ label, base ≤ label → label < after.labels.size →
      ∃ offset, after.offset? label = some offset ∧ before.position ≤ offset)
    (position : before.position ≤ after.position)
    (atStart : stackAt before.position = [])
    {below : KindStack}
    {state : KindState}
    (path : KindPath read after before.position after.position ⟨before.position, below⟩ state) :
    before.position ≤ state.offset ∧ state.offset ≤ after.position ∧
      state.stack = stackAt state.offset ++ below := by
  induction path with
  | refl =>
      exact ⟨Nat.le_refl _, position, by simp [atStart]⟩
  | @next state instruction stack _ low high fetched effect goesOn inductionHypothesis =>
      obtain ⟨found, next, isFound, finds, falls, -⟩ := verified.step state.offset low high
      rw [fetched, Option.some.injEq] at isFound
      subst isFound
      rw [inductionHypothesis.2.2, Instruction.effect_frame finds] at effect
      cases effect
      exact ⟨by simp only; omega, by simp only; omega, by simp [falls goesOn]⟩
  | @jump state instruction stack label offset _ low high fetched effect isTarget placed
      inductionHypothesis =>
      obtain ⟨found, next, isFound, finds, -, targets⟩ := verified.step state.offset low high
      rw [fetched, Option.some.injEq] at isFound
      subst isFound
      obtain ⟨inBase, made, expects⟩ := targets label isTarget
      obtain ⟨target, isPlaced, inCode⟩ := inside label inBase made
      rw [placed, Option.some.injEq] at isPlaced
      subst isPlaced
      obtain ⟨atMost, stackAtTarget⟩ := verified.placed label offset inBase placed inCode
      rw [inductionHypothesis.2.2, Instruction.effect_frame finds] at effect
      cases effect
      exact ⟨inCode, atMost, by simp [stackAtTarget, expects]⟩

/-- Code that leads from the empty stack to the given kinds, and places the
branch targets it makes, leaves exactly these kinds on any stack. -/
theorem leavesExactly_of_flows
    {read : DescriptorReader}
    {labelStack : LabelStacks}
    {kinds : KindStack}
    {before after : CodeStream}
    (appends : Appends [] before after)
    (flows : Flows read before.labels.size labelStack [] kinds before after) :
    LeavesExactly read kinds before after := by
  obtain ⟨position, stackAt, atStart, atEnd, verified⟩ := flows
  have inside : ∀ label, before.labels.size ≤ label → label < after.labels.size →
      ∃ offset, after.offset? label = some offset ∧ before.position ≤ offset ∧
        offset ≤ after.position := by
    intro label made inAfter
    rcases appends.isPlaced label made inAfter with open_ | ⟨offset, placed, low, high⟩
    · simp at open_
    · exact ⟨offset, by simp [offset?, placed], low, high⟩
  intro below state path
  obtain ⟨low, high, stack⟩ := verified.stack_eq
    (fun label made inAfter => by
      obtain ⟨offset, placed, inCode, -⟩ := inside label made inAfter
      exact ⟨offset, placed, inCode⟩) position atStart path
  refine ⟨low, high, stackAt state.offset, stack, ?_, ?_⟩
  · intro isEnd
    rw [isEnd, atEnd]
  · intro isInside
    obtain ⟨found, next, isFound, finds, -, targets⟩ := verified.step state.offset low isInside
    refine ⟨found, next, isFound, finds, fun label isTarget => ?_⟩
    obtain ⟨inBase, made, -⟩ := targets label isTarget
    exact inside label inBase made

end CodeStream

end LoopLowering
