import LoopLowering.Proofs.Machine.Deliveries

namespace LoopLowering

/-!
# Balanced code

A piece of code is balanced if it leaves given kinds on whatever stack it starts
with, and that stack as it was where it branches to a target of others. Pieces
that branch into one another are put together by an invariant: it says which
stacks may stand at each of their offsets, and which ones a branch target
expects.
-/

namespace CodeStream

/-- A target that is open after a piece of code was open before it, unless it is
among those that the piece leaves open. -/
theorem Appends.isOpen_or
    {opened : List Nat}
    {before after : CodeStream}
    (appends : Appends opened before after)
    {label : Nat}
    (isOpen : after.IsOpen label) :
    label ∈ opened ∨ before.IsOpen label := by
  by_cases isOld : label < before.labels.size
  · exact .inr (by rwa [IsOpen, ← appends.keeps label isOld])
  · rcases appends.isPlaced label (Nat.le_of_not_lt isOld) (Array.getElem?_eq_some_iff.mp isOpen).1
      with leftOpen | ⟨offset, isPlaced, -⟩
    · exact .inl leftOpen
    · rw [IsOpen, isPlaced] at isOpen
      cases isOpen

/-- An instruction finds its operands on a stack. Its branch target is placed
within a piece of code, or is still to be placed and gets an empty stack. -/
def LeadsOn
    (read : DescriptorReader)
    (before after : CodeStream)
    (offset : Nat)
    (stack : KindStack) :
    Prop :=
  ∃ instruction next, after.instructions[offset]? = some instruction ∧
    instruction.effect read stack = some next ∧
    ∀ label : Nat, instruction.target? = some label →
      (∃ target, after.offset? label = some target ∧ before.position ≤ target ∧
        target ≤ after.position) ∨
      (after.IsOpen label ∧ next = [])

/-- Code that leaves given kinds on the operand stack. Along every path from its
start, with any stack there, each instruction finds its operands above that
stack. Wherever a path is at the start of the code, the stack is that one, and at
the end of the code it is that one with the given kinds on top. A branch to a
target of others leaves it as it was. -/
def Balanced
    (read : DescriptorReader)
    (kinds : KindStack)
    (before after : CodeStream) :
    Prop :=
  ∀ (below : KindStack) (state : KindState),
    KindPath read after before.position after.position ⟨before.position, below⟩ state →
    before.position ≤ state.offset ∧ state.offset ≤ after.position ∧
      ∃ top, state.stack = top ++ below ∧
        (state.offset = before.position → top = []) ∧
        (state.offset = after.position → top = kinds) ∧
        (state.offset < after.position → LeadsOn read before after state.offset top)

/-- Code is not balanced if some path leads to an instruction that does not find its
operands. -/
theorem not_balanced_of_follow?
    {read : DescriptorReader}
    {kinds : KindStack}
    {after : CodeStream}
    {branches : List Bool}
    {last : KindState}
    (followed : KindState.follow? read after branches ⟨0, []⟩ = some last)
    {instruction : Instruction}
    (fetched : after.instructions[last.offset]? = some instruction)
    (fails : instruction.effect read last.stack = none) :
    ¬Balanced read kinds .empty after := by
  intro balanced
  have path : KindPath read after 0 after.position ⟨0, []⟩ last := .of_follow? .refl followed
  obtain ⟨-, -, top, isTop, -, -, leads⟩ := balanced [] last path
  obtain ⟨found, next, isFound, effect, -⟩ := leads (Array.getElem?_eq_some_iff.mp fetched).1
  obtain rfl := Option.some.inj (fetched.symm.trans isFound)
  rw [List.append_nil] at isTop
  rw [isTop, effect] at fails
  cases fails

/-- The stacks that may stand at the offsets of a piece of code, or that branch
targets may expect. -/
abbrev StackRelation := Nat → KindStack → Prop

/-- An invariant of the stacks in a piece of code. Where a stack may stand, the
instruction finds its operands and leads to stacks that may stand where it
leads, unless it branches to a target that expects what it leaves. -/
structure StackInvariant
    (read : DescriptorReader)
    (expects : StackRelation)
    (entry exit : KindStack)
    (before after : CodeStream)
    (holds : StackRelation) :
    Prop where
  extends_ : before.Extends after
  within : ∀ {offset : Nat} {stack : KindStack},
    holds offset stack → before.position ≤ offset ∧ offset ≤ after.position
  atStart : ∀ stack, holds before.position stack ↔ stack = entry
  atEnd : ∀ stack, holds after.position stack ↔ stack = exit
  step : ∀ {offset : Nat} {stack : KindStack},
    holds offset stack → offset < after.position →
    ∃ instruction next, after.instructions[offset]? = some instruction ∧
      instruction.effect read stack = some next ∧
      (instruction.endsFlow = false → holds (offset + 1) next) ∧
      ∀ label : Nat, instruction.target? = some label →
        (∃ target, after.offset? label = some target ∧ holds target next) ∨
        (label < after.labels.size ∧ expects label next)
  /-- A target that the piece places stands where only the expected stack may. -/
  placed : ∀ {label offset : Nat} {stack : KindStack},
    expects label stack → after.offset? label = some offset →
    before.offset? label = some offset ∨ ∀ other, holds offset other ↔ other = stack

/-- Some invariant leads a piece of code from one stack to another. -/
def Guided
    (read : DescriptorReader)
    (expects : StackRelation)
    (entry exit : KindStack)
    (before after : CodeStream) :
    Prop :=
  ∃ holds, StackInvariant read expects entry exit before after holds

namespace Guided

variable
  {read : DescriptorReader}
  {expects : StackRelation}
  {entry middle exit : KindStack}
  {before code after : CodeStream}

/-- Whatever adds no instruction leaves the stack as it is. A target that is
placed meanwhile has to expect it. -/
theorem stay
    (extends_ : code.Extends after)
    (samePosition : after.position = code.position)
    (expected : ∀ {label offset : Nat} {stack : KindStack},
      expects label stack → after.offset? label = some offset →
      code.offset? label = some offset ∨ (offset = code.position ∧ stack = entry)) :
    Guided read expects entry entry code after := by
  refine ⟨fun offset stack => offset = code.position ∧ stack = entry, extends_, ?_, ?_, ?_, ?_, ?_⟩
  · rintro offset stack ⟨rfl, -⟩
    exact ⟨Nat.le_refl _, Nat.le_of_eq samePosition.symm⟩
  · simp
  · simp [samePosition]
  · rintro offset stack ⟨rfl, -⟩ inCode
    exact absurd samePosition (Nat.ne_of_gt inCode)
  · intro label offset stack expected_ isPlaced
    rcases expected expected_ isPlaced with before | ⟨rfl, rfl⟩
    · exact .inl before
    · exact .inr (by simp)

theorem refl
    (read : DescriptorReader)
    (expects : StackRelation)
    (stack : KindStack)
    (code : CodeStream) :
    Guided read expects stack stack code code :=
  .stay (.refl code) rfl fun _ isPlaced => .inl isPlaced

theorem append
    (earlier : Guided read expects entry middle before code)
    (later : Guided read expects middle exit code after) :
    Guided read expects entry exit before after := by
  obtain ⟨first, isFirst⟩ := earlier
  obtain ⟨second, isSecond⟩ := later
  have low := isFirst.extends_.position
  have high := isSecond.extends_.position
  -- both say the same where the pieces meet
  have meets : ∀ stack, first code.position stack ↔ second code.position stack := fun stack =>
    (isFirst.atEnd stack).trans (isSecond.atStart stack).symm
  have ofFirst : ∀ {offset : Nat} {stack : KindStack}, first offset stack →
      if offset < code.position then first offset stack else second offset stack := by
    intro offset stack holds
    have within := (isFirst.within holds).2
    split
    · exact holds
    · next notBefore =>
        obtain rfl : offset = code.position := Nat.le_antisymm within (Nat.le_of_not_lt notBefore)
        exact (meets stack).mp holds
  have ofSecond : ∀ {offset : Nat} {stack : KindStack}, second offset stack →
      if offset < code.position then first offset stack else second offset stack := by
    intro offset stack holds
    rw [if_neg (Nat.not_lt.mpr (isSecond.within holds).1)]
    exact holds
  refine ⟨fun offset stack =>
    if offset < code.position then first offset stack else second offset stack,
    isFirst.extends_.trans isSecond.extends_, ?_, ?_, ?_, ?_, ?_⟩
  · intro offset stack holds
    split at holds
    · exact ⟨(isFirst.within holds).1, by omega⟩
    · exact ⟨by omega, (isSecond.within holds).2⟩
  · intro stack
    split
    · exact isFirst.atStart stack
    · next notBefore =>
        have sameStart : before.position = code.position := by omega
        rw [sameStart, ← meets, ← sameStart]
        exact isFirst.atStart stack
  · intro stack
    rw [if_neg (Nat.not_lt.mpr high)]
    exact isSecond.atEnd stack
  · intro offset stack holds inCode
    split at holds
    · next inFirst =>
        obtain ⟨instruction, next, fetched, effect, falls, targets⟩ := isFirst.step holds inFirst
        refine ⟨instruction, next, (isSecond.extends_.instruction offset inFirst).trans fetched,
          effect, fun goesOn => ofFirst (falls goesOn), fun label isTarget => ?_⟩
        rcases targets label isTarget with ⟨target, isPlaced, holdsThere⟩ | ⟨made, expected⟩
        · exact .inl ⟨target, isSecond.extends_.stays isPlaced, ofFirst holdsThere⟩
        · exact .inr ⟨Nat.lt_of_lt_of_le made isSecond.extends_.labelCount, expected⟩
    · obtain ⟨instruction, next, fetched, effect, falls, targets⟩ := isSecond.step holds inCode
      refine ⟨instruction, next, fetched, effect, fun goesOn => ofSecond (falls goesOn),
        fun label isTarget => ?_⟩
      rcases targets label isTarget with ⟨target, isPlaced, holdsThere⟩ | open_
      · exact .inl ⟨target, isPlaced, ofSecond holdsThere⟩
      · exact .inr open_
  · intro label offset stack expected isPlaced
    rcases isSecond.placed expected isPlaced with inCode | exactly
    · rcases isFirst.placed expected inCode with inBefore | exactly
      · exact .inl inBefore
      · refine .inr fun other => ?_
        split
        · exact exactly other
        · have within := (isFirst.within ((exactly stack).mpr rfl)).2
          have isMiddle : offset = code.position := by omega
          subst isMiddle
          exact (meets other).symm.trans (exactly other)
    · refine .inr fun other => ?_
      rw [if_neg (Nat.not_lt.mpr (isSecond.within ((exactly stack).mpr rfl)).1)]
      exact exactly other

/-- An instruction that finds its operands leads on. After one that never goes
on to the next instruction, the stack is whatever a branch brings. -/
theorem instruction
    {instruction : Instruction}
    {next : KindStack}
    (effect : instruction.effect read entry = some next)
    (falls : instruction.endsFlow = false → exit = next)
    (jumps : ∀ label : Nat, instruction.target? = some label →
      label < code.labels.size ∧ expects label next) :
    Guided read expects entry exit code (code.emit instruction) := by
  refine ⟨fun offset stack => (offset = code.position ∧ stack = entry) ∨
    (offset = code.position + 1 ∧ stack = exit), extends_emit _ _, ?_, ?_, ?_, ?_, ?_⟩
  · rintro offset stack (⟨rfl, -⟩ | ⟨rfl, -⟩) <;> simp
  · simp
  · simp
  · rintro offset stack (⟨rfl, rfl⟩ | ⟨rfl, -⟩) inCode
    · refine ⟨instruction, next, instruction_emit _ _, effect, fun goesOn => ?_,
        fun label isTarget => .inr (jumps label isTarget)⟩
      exact .inr ⟨rfl, (falls goesOn).symm⟩
    · simp at inCode
  · intro label offset stack expected isPlaced
    exact .inl isPlaced

/-- An instruction may follow. -/
theorem emit
    (guided : Guided read expects entry middle before code)
    {instruction : Instruction}
    {next : KindStack}
    (effect : instruction.effect read middle = some next)
    (falls : instruction.endsFlow = false → exit = next)
    (jumps : ∀ label : Nat, instruction.target? = some label →
      label < code.labels.size ∧ expects label next) :
    Guided read expects entry exit before (code.emit instruction) :=
  guided.append (.instruction effect falls jumps)

/-- An instruction that goes on to the next one and nowhere else may follow. -/
theorem emitPlain
    (guided : Guided read expects entry middle before code)
    {instruction : Instruction}
    (effect : instruction.effect read middle = some exit)
    (noTarget : instruction.target? = none) :
    Guided read expects entry exit before (code.emit instruction) :=
  guided.emit effect (fun _ => rfl) (by simp [noTarget])

/-- Whatever does not touch instructions and branch targets may follow. -/
theorem same
    (guided : Guided read expects entry exit before code)
    (sameInstructions : after.instructions = code.instructions)
    (sameLabels : after.labels = code.labels) :
    Guided read expects entry exit before after := by
  refine guided.append (.stay ((Appends.refl code).same sameInstructions sameLabels).extends_ ?_ ?_)
  · simp [CodeStream.position, sameInstructions]
  · intro label offset stack expected isPlaced
    rw [offset?, sameLabels] at isPlaced
    exact .inl isPlaced

/-- A branch target may be made. -/
theorem addLabel
    (guided : Guided read expects entry exit before code) :
    Guided read expects entry exit before code.addLabel := by
  refine guided.append (.stay (extends_addLabel code) rfl ?_)
  intro label offset stack expected isPlaced
  rw [offset?_addLabel] at isPlaced
  exact .inl isPlaced

/-- An open branch target that expects the stack may be placed. -/
theorem place
    (guided : Guided read expects entry exit before code)
    {label : Nat}
    (isOpen : code.IsOpen label)
    (expected : ∀ {stack : KindStack}, expects label stack → stack = exit) :
    Guided read expects entry exit before (code.place label) := by
  have notPlaced : code.offset? label = none := by
    rw [offset?, isOpen]
    rfl
  refine guided.append (.stay (extends_place notPlaced) rfl ?_)
  intro other offset stack expectsOther isPlaced
  by_cases same : label = other
  · subst same
    rw [offset?_place (Array.getElem?_eq_some_iff.mp isOpen).1, Option.some.injEq] at isPlaced
    exact .inr ⟨isPlaced.symm, expected expectsOther⟩
  · rw [offset?, labels_place same] at isPlaced
    exact .inl isPlaced

/-- A local that can be stored to may take the value on top. -/
theorem store
    {scope : MethodScope}
    {id : LocalId}
    (guided : Guided read expects entry (kindOf scope id :: exit) before code)
    (stored : code.store scope id false = .ok after) :
    Guided read expects entry exit before after := by
  obtain ⟨slot, -, rfl⟩ := store_eq_ok.mp stored
  refine same (guided.emitPlain ?_ rfl) (openLocal_same _ _ _).1 (openLocal_same _ _ _).2
  simp [Instruction.effect, popKinds]

/-- A local may take a copy of the value on top. -/
theorem storeKept
    {scope : MethodScope}
    {id : LocalId}
    (guided : Guided read expects entry (kindOf scope id :: exit) before code)
    (stored : code.store scope id true = .ok after) :
    Guided read expects entry (kindOf scope id :: exit) before after := by
  obtain ⟨slot, -, rfl⟩ := store_eq_ok.mp stored
  have copies : Guided read expects entry (kindOf scope id :: kindOf scope id :: exit) before
      (code.copied (kindOf scope id) true) := by
    refine guided.emitPlain ?_ ?_
    · cases wide : (kindOf scope id).isWide <;> simp [Instruction.effect, wide]
    · cases wide : (kindOf scope id).isWide <;> rfl
  refine same (copies.emitPlain ?_ rfl) (openLocal_same _ _ _).1 (openLocal_same _ _ _).2
  simp [Instruction.effect, popKinds]

/-- A local may be loaded. -/
theorem load
    {scope : MethodScope}
    {id : LocalId}
    (guided : Guided read expects entry exit before code)
    (loaded : code.load scope id = .ok after) :
    Guided read expects entry (kindOf scope id :: exit) before after := by
  obtain ⟨slot, -, rfl⟩ := load_eq_ok.mp loaded
  exact guided.emitPlain rfl rfl

/-- Balanced code may follow, if the targets that are open after it expect the
stack at its start and it places none that expects something. -/
theorem appendBalanced
    (guided : Guided read expects entry middle before code)
    {kinds : KindStack}
    (extends_ : code.Extends after)
    (balanced : Balanced read kinds code after)
    (expectsOpen : ∀ label, after.IsOpen label → expects label middle)
    (placesNone : ∀ {label offset : Nat} {stack : KindStack},
      expects label stack → after.offset? label = some offset →
      code.offset? label = some offset) :
    Guided read expects entry (kinds ++ middle) before after := by
  let reached : StackRelation := fun offset stack =>
    KindPath read after code.position after.position ⟨code.position, middle⟩ ⟨offset, stack⟩
  have reaches := fun offset stack (path : reached offset stack) => balanced middle _ path
  refine guided.append ⟨fun offset stack => reached offset stack ∨
    (offset = after.position ∧ stack = kinds ++ middle), extends_, ?_, ?_, ?_, ?_, ?_⟩
  · rintro offset stack (path | ⟨rfl, -⟩)
    · obtain ⟨low, high, -⟩ := reaches _ _ path
      exact ⟨low, high⟩
    · exact ⟨extends_.position, Nat.le_refl _⟩
  · intro stack
    constructor
    · rintro (path | ⟨isEnd, rfl⟩)
      · obtain ⟨-, -, top, isStack, atStart, -⟩ := reaches _ _ path
        simpa [atStart rfl] using isStack
      · obtain ⟨-, -, top, isStack, atStart, atEnd, -⟩ := reaches _ _ .refl
        rw [← atEnd isEnd, atStart rfl]
        rfl
    · rintro rfl
      exact .inl .refl
  · intro stack
    constructor
    · rintro (path | ⟨-, rfl⟩)
      · obtain ⟨-, -, top, isStack, -, atEnd, -⟩ := reaches _ _ path
        simpa [atEnd rfl] using isStack
      · rfl
    · rintro rfl
      exact .inr ⟨rfl, rfl⟩
  · rintro offset stack (path | ⟨rfl, -⟩) inCode
    · obtain ⟨low, -, top, rfl, -, -, leads⟩ := reaches _ _ path
      obtain ⟨instruction, next, fetched, effect, targets⟩ := leads inCode
      have onStack := Instruction.effect_frame effect middle
      refine ⟨instruction, next ++ middle, fetched, onStack,
        fun goesOn => .inl (path.next low inCode fetched onStack goesOn),
        fun label isTarget => ?_⟩
      rcases targets label isTarget with ⟨target, isPlaced, -⟩ | ⟨isOpen, rfl⟩
      · exact .inl ⟨target, isPlaced, .inl (path.jump low inCode fetched onStack isTarget isPlaced)⟩
      · exact .inr ⟨(Array.getElem?_eq_some_iff.mp isOpen).1, expectsOpen label isOpen⟩
    · exact absurd inCode (Nat.lt_irrefl _)
  · intro label offset stack expected isPlaced
    exact .inl (placesNone expected isPlaced)

end Guided

namespace StackInvariant

variable
  {read : DescriptorReader}
  {expects holds : StackRelation}
  {exit : KindStack}
  {before after : CodeStream}

/-- Along a path through code with an invariant, the stack is one that may stand
there, with the stack at the start underneath. -/
theorem holds_of_path
    (invariant : StackInvariant read expects [] exit before after holds)
    (notPlaced : ∀ {label : Nat} {stack : KindStack},
      expects label stack → before.offset? label = none)
    {below : KindStack}
    {state : KindState}
    (path : KindPath read after before.position after.position ⟨before.position, below⟩ state) :
    ∃ top, state.stack = top ++ below ∧ holds state.offset top := by
  induction path with
  | refl =>
      exact ⟨[], rfl, (invariant.atStart []).mpr rfl⟩
  | next _ low high fetched effect goesOn inductionHypothesis =>
      obtain ⟨top, isTop, holdsThere⟩ := inductionHypothesis
      obtain ⟨found, next, isFound, finds, falls, -⟩ := invariant.step holdsThere high
      rw [fetched, Option.some.injEq] at isFound
      subst isFound
      rw [isTop, Instruction.effect_frame finds, Option.some.injEq] at effect
      exact ⟨next, effect.symm, falls goesOn⟩
  | jump _ low high fetched effect isTarget placed inductionHypothesis =>
      obtain ⟨top, isTop, holdsThere⟩ := inductionHypothesis
      obtain ⟨found, next, isFound, finds, -, targets⟩ := invariant.step holdsThere high
      rw [fetched, Option.some.injEq] at isFound
      subst isFound
      rw [isTop, Instruction.effect_frame finds, Option.some.injEq] at effect
      refine ⟨next, effect.symm, ?_⟩
      rcases targets _ isTarget with ⟨target, isPlaced, holdsTarget⟩ | ⟨-, expected⟩
      · rw [placed, Option.some.injEq] at isPlaced
        exact isPlaced ▸ holdsTarget
      · rcases invariant.placed expected placed with isOld | exactly
        · rw [notPlaced expected] at isOld
          cases isOld
        · exact (exactly next).mpr rfl

/-- At a branch target that is placed in code with an invariant, the stack is the
one that is expected there, with the stack at the start underneath. -/
theorem stack_eq
    (invariant : StackInvariant read expects [] exit before after holds)
    (notPlaced : ∀ {label : Nat} {stack : KindStack},
      expects label stack → before.offset? label = none)
    {below : KindStack}
    {state : KindState}
    (path : KindPath read after before.position after.position ⟨before.position, below⟩ state)
    {label : Nat}
    {stack : KindStack}
    (expected : expects label stack)
    (isThere : after.offset? label = some state.offset) :
    state.stack = stack ++ below := by
  obtain ⟨top, isTop, holdsThere⟩ := invariant.holds_of_path notPlaced path
  rcases invariant.placed expected isThere with isOld | exactly
  · rw [notPlaced expected] at isOld
    cases isOld
  · rw [isTop, (exactly top).mp holdsThere]

/-- Code with an invariant is balanced if no target but an open one, which gets
the stack as it was, is left unplaced. -/
theorem balanced
    (invariant : StackInvariant read expects [] exit before after holds)
    (notPlaced : ∀ {label : Nat} {stack : KindStack},
      expects label stack → before.offset? label = none)
    (leavesOpen : ∀ {label : Nat} {stack : KindStack},
      expects label stack → after.IsOpen label → stack = []) :
    Balanced read exit before after := by
  intro below state path
  obtain ⟨top, isTop, holdsThere⟩ := invariant.holds_of_path notPlaced path
  obtain ⟨low, high⟩ := invariant.within holdsThere
  refine ⟨low, high, top, isTop, fun isStart => ?_, fun isEnd => ?_, fun inCode => ?_⟩
  · exact (invariant.atStart top).mp (isStart ▸ holdsThere)
  · exact (invariant.atEnd top).mp (isEnd ▸ holdsThere)
  · obtain ⟨instruction, next, fetched, effect, -, targets⟩ := invariant.step holdsThere inCode
    refine ⟨instruction, next, fetched, effect, fun label isTarget => ?_⟩
    rcases targets label isTarget with ⟨target, isPlaced, holdsTarget⟩ | ⟨made, expected⟩
    · exact .inl ⟨target, isPlaced, invariant.within holdsTarget⟩
    · cases found : after.labels[label]? with
      | none =>
          exact absurd (Array.getElem?_eq_none_iff.mp found) (Nat.not_le.mpr made)
      | some place =>
          cases place with
          | none =>
              exact .inr ⟨found, leavesOpen expected found⟩
          | some target =>
              have isPlaced : after.offset? label = some target := by
                rw [offset?, found]
                rfl
              rcases invariant.placed expected isPlaced with isOld | exactly
              · rw [notPlaced expected] at isOld
                cases isOld
              · exact .inl ⟨target, isPlaced, invariant.within ((exactly next).mpr rfl)⟩

end StackInvariant

/-- Code that delivers values is balanced. -/
theorem Delivers.balanced
    {read : DescriptorReader}
    {kinds : KindStack}
    {before after : CodeStream}
    (delivers : Delivers read kinds before after) :
    Balanced read kinds before after := by
  have enters : Enters before.labels.size (fun _ => []) before [] := by
    intro label offset inBase placed
    exact absurd (lt_size_of_offset? placed) (Nat.not_lt.mpr inBase)
  obtain ⟨others, -, flows⟩ := delivers.flows (Nat.le_refl _) enters
  rw [List.append_nil] at flows
  obtain ⟨position, stackAt, atStart, atEnd, verified⟩ := flows
  have inside : ∀ label, before.labels.size ≤ label → label < after.labels.size →
      ∃ offset, after.offset? label = some offset ∧ before.position ≤ offset ∧
        offset ≤ after.position := by
    intro label made inAfter
    rcases delivers.appends.isPlaced label made inAfter with isOpen | ⟨offset, placed, within⟩
    · cases isOpen
    · exact ⟨offset, by simp [offset?, placed], within⟩
  intro below state path
  obtain ⟨low, high, stack⟩ := verified.stack_eq
    (fun label made inAfter => by
      obtain ⟨offset, placed, inCode, -⟩ := inside label made inAfter
      exact ⟨offset, placed, inCode⟩) position atStart path
  refine ⟨low, high, stackAt state.offset, stack, fun isStart => ?_, fun isEnd => ?_,
    fun inCode => ?_⟩
  · rw [isStart, atStart]
  · rw [isEnd, atEnd]
  · obtain ⟨found, next, isFound, finds, -, targets⟩ := verified.step state.offset low inCode
    refine ⟨found, next, isFound, finds, fun label isTarget => ?_⟩
    obtain ⟨inBase, made, -⟩ := targets label isTarget
    exact .inl (inside label inBase made)

end CodeStream

end LoopLowering
