import LoopLowering.Proofs.Code.Steps
import LoopLowering.Proofs.Execution.Machine

namespace LoopLowering

/-!
# Crossing code

A machine crosses a piece of code if it gets from where the piece starts to where
it ends, in every method code that has the piece as a part. Pieces are crossed one
after the other, and a piece that ends in a branch is crossed or left.
-/

/-- What does not branch does not jump. -/
theorem Instruction.jumps_of_target?
    {instruction : Instruction}
    (noTarget : instruction.target? = none)
    (stack : List Word) :
    instruction.jumps stack = false := by
  cases instruction <;> first | rfl | cases noTarget

namespace MethodCode

/-- A machine gets from where one stream ends to where another that extends it
ends. -/
structure Crosses
    (code : MethodCode)
    (outside : Outside)
    (stream : CodeStream)
    (machine : Machine)
    (next : CodeStream)
    (after : Machine) :
    Prop where
  extends_ : stream.Extends next
  goesOn : stream.isTerminated = false → next.isTerminated = false
  goes : code.Completes next →
    code.Goes outside (stream.position, machine) (next.position, after)

/-- A machine gets from where one stream ends to where another that extends it
ends, or to a branch target if a test says so. -/
structure Tests
    (code : MethodCode)
    (outside : Outside)
    (stream : CodeStream)
    (machine : Machine)
    (next : CodeStream)
    (label : Label)
    (jumps : Bool)
    (after : Machine) :
    Prop where
  extends_ : stream.Extends next
  goesOn : jumps = false → stream.isTerminated = false → next.isTerminated = false
  falls : jumps = false → code.Completes next →
    code.Goes outside (stream.position, machine) (next.position, after)
  goes : jumps = true → code.Completes next →
    ∀ offset, code.labelPosition? label = some offset →
      code.Goes outside (stream.position, machine) (offset, after)

variable
  {code : MethodCode}
  {outside : Outside}
  {stream middle next : CodeStream}
  {machine at_ after : Machine}

/-- An instruction that completes a piece of code is fetched after the piece. -/
theorem Completes.fetched
    {instruction : Instruction}
    (completes : code.Completes (stream.emit instruction)) :
    code.instructions[stream.position]? = some instruction := by
  rw [completes.instruction stream.position (by simp), CodeStream.instruction_emit]

namespace Crosses

theorem refl
    (code : MethodCode)
    (outside : Outside)
    (stream : CodeStream)
    (machine : Machine) :
    code.Crosses outside stream machine stream machine :=
  ⟨.refl stream, id, fun _ => .refl _⟩

theorem trans
    (earlier : code.Crosses outside stream machine middle at_)
    (later : code.Crosses outside middle at_ next after) :
    code.Crosses outside stream machine next after where
  extends_ := earlier.extends_.trans later.extends_
  goesOn := later.goesOn ∘ earlier.goesOn
  goes := fun completes =>
    (earlier.goes (completes.earlier later.extends_)).trans (later.goes completes)

/-- An instruction that does not branch is crossed. -/
theorem emit
    (crosses : code.Crosses outside stream machine middle at_)
    {instruction : Instruction}
    (noTarget : instruction.target? = none)
    (performed : instruction.perform? outside at_ = some after) :
    code.Crosses outside stream machine (middle.emit instruction) after := by
  refine crosses.trans ⟨CodeStream.extends_emit _ _, fun _ => ?_, fun completes => .single ?_⟩
  · refine CodeStream.isTerminated_emit ?_ middle
    cases instruction with
    | goto label =>
        cases noTarget
    | returnWith kind =>
        cases performed
    | _ =>
        rfl
  · simp [next?, completes.fetched, performed, Instruction.jumps_of_target? noTarget]

/-- The same code is crossed in place. -/
theorem sameCode
    (crosses : code.Crosses outside stream machine middle at_)
    (same : middle.SameCode next) :
    code.Crosses outside stream machine next at_ := by
  refine crosses.trans ⟨((CodeStream.Appends.refl middle).sameCode same).extends_, ?_, ?_⟩
  · rw [same.isTerminated]
    exact id
  · intro _
    rw [show next.position = middle.position by simp [CodeStream.position, same.1]]
    exact .refl _

/-- A new branch target is crossed in place. -/
theorem addLabel
    (crosses : code.Crosses outside stream machine middle at_) :
    code.Crosses outside stream machine middle.addLabel at_ := by
  refine crosses.trans ⟨CodeStream.extends_addLabel middle, ?_, fun _ => .refl _⟩
  rw [CodeStream.isTerminated_addLabel]
  exact id

/-- A branch target that is placed is crossed in place. -/
theorem place
    (crosses : code.Crosses outside stream machine middle at_)
    {label : Label}
    (isOpen : label < middle.labels.size ∧ middle.offset? label = none) :
    code.Crosses outside stream machine (middle.place label) at_ :=
  crosses.trans ⟨CodeStream.extends_place isOpen.2,
    fun _ => CodeStream.isTerminated_place isOpen.1, fun _ => .refl _⟩

/-- A constant is pushed. -/
theorem intConst
    (crosses : code.Crosses outside stream machine middle at_)
    (value : Int32) :
    code.Crosses outside stream machine (middle.emit (.intConst value)) (at_.push (.int value)) :=
  crosses.emit rfl rfl

/-- A local is loaded from its slot. -/
theorem load
    (crosses : code.Crosses outside stream machine middle at_)
    {scope : MethodScope}
    {id : LocalId}
    (loaded : middle.load scope id = .ok next)
    {word : Word}
    (held : ∀ slot, (scope.localAt id).slot = some slot → at_.slots slot = some word)
    (isKind : word.kind = CodeStream.kindOf scope id) :
    code.Crosses outside stream machine next (at_.push word) := by
  obtain ⟨slot, isSlot, rfl⟩ := CodeStream.load_eq_ok.mp loaded
  exact crosses.emit rfl (by simp [Instruction.perform?, held slot isSlot, isKind])

/-- The operands after the top one is stored, or also kept. -/
theorem store
    {slots : UInt16 → Option Word}
    {word : Word}
    {stack : List Word}
    {memory : Memory}
    (crosses : code.Crosses outside stream machine middle ⟨slots, word :: stack, memory⟩)
    {scope : MethodScope}
    {id : LocalId}
    {keep : Bool}
    (stored : middle.store scope id keep = .ok next)
    (isKind : word.kind = CodeStream.kindOf scope id) :
    ∃ slot, (scope.localAt id).slot = some slot ∧
      code.Crosses outside stream machine next (Machine.putSlot
        ⟨slots, if keep then word :: stack else stack, memory⟩ slot word) := by
  obtain ⟨slot, isSlot, rfl⟩ := CodeStream.store_eq_ok.mp stored
  refine ⟨slot, isSlot, Crosses.sameCode ?_ (CodeStream.openLocal_same scope id _)⟩
  have narrow : (CodeStream.kindOf scope id).isWide = false := by
    rw [← isKind]
    cases word <;> rfl
  cases keep with
  | false =>
      exact crosses.emit rfl (by simp [Instruction.perform?, isKind]; rfl)
  | true =>
      have copied : code.Crosses outside stream machine
          (middle.copied (CodeStream.kindOf scope id) true)
          ⟨slots, word :: word :: stack, memory⟩ := by
        simp only [CodeStream.copied, if_true, narrow, Bool.false_eq_true, if_false]
        exact crosses.emit rfl rfl
      exact copied.emit rfl (by simp [Instruction.perform?, isKind]; rfl)

/-- A branch is crossed or left. -/
theorem branch
    (crosses : code.Crosses outside stream machine middle at_)
    {instruction : Instruction}
    {label : Label}
    (isTarget : instruction.target? = some label)
    (performed : instruction.perform? outside at_ = some after) :
    code.Tests outside stream machine (middle.emit instruction) label
      (instruction.jumps at_.stack) after where
  extends_ := crosses.extends_.trans (CodeStream.extends_emit _ _)
  goesOn := by
    intro stays _
    refine CodeStream.isTerminated_emit ?_ middle
    cases instruction with
    | goto label =>
        cases stays
    | returnWith kind =>
        cases performed
    | _ =>
        rfl
  falls := by
    intro stays completes
    refine (crosses.goes (completes.earlier (CodeStream.extends_emit _ _))).trans (.single ?_)
    simp [next?, completes.fetched, performed, stays]
  goes := by
    intro leaves completes offset placed
    refine (crosses.goes (completes.earlier (CodeStream.extends_emit _ _))).trans (.single ?_)
    simp [next?, completes.fetched, performed, leaves, isTarget, placed]

/-- A jump leaves. -/
theorem goto
    (crosses : code.Crosses outside stream machine middle at_)
    (label : Label) :
    code.Tests outside stream machine (middle.emit (.goto label)) label true at_ :=
  crosses.branch rfl rfl

/-- What is crossed before a test is part of it. -/
theorem tests
    (crosses : code.Crosses outside stream machine middle at_)
    {label : Label}
    {jumps : Bool}
    (tests : code.Tests outside middle at_ next label jumps after) :
    code.Tests outside stream machine next label jumps after where
  extends_ := crosses.extends_.trans tests.extends_
  goesOn := fun stays goesOn => tests.goesOn stays (crosses.goesOn goesOn)
  falls := fun stays completes =>
    (crosses.goes (completes.earlier tests.extends_)).trans (tests.falls stays completes)
  goes := fun leaves completes offset placed =>
    (crosses.goes (completes.earlier tests.extends_)).trans
      (tests.goes leaves completes offset placed)

end Crosses

namespace Tests

variable
  {later : CodeStream}
  {label : Label}

/-- The same code tests the same. -/
theorem sameCode
    {jumps : Bool}
    (tests : code.Tests outside stream machine next label jumps after)
    (same : next.SameCode later) :
    code.Tests outside stream machine later label jumps after := by
  have extends_ := ((CodeStream.Appends.refl next).sameCode same).extends_
  have samePosition : later.position = next.position := by simp [CodeStream.position, same.1]
  refine ⟨tests.extends_.trans extends_, fun stays goesOn => ?_, fun stays completes => ?_,
    fun leaves completes => tests.goes leaves (completes.earlier extends_)⟩
  · rw [same.isTerminated]
    exact tests.goesOn stays goesOn
  · rw [samePosition]
    exact tests.falls stays (completes.earlier extends_)

/-- Where a test does not jump, the code goes on after it. -/
theorem crosses
    {jumps : Bool}
    (tests : code.Tests outside stream machine next label jumps after)
    (stays : jumps = false) :
    code.Crosses outside stream machine next after :=
  ⟨tests.extends_, tests.goesOn stays, tests.falls stays⟩

/-- Where a test jumps, the code goes on where the branch target is placed. -/
theorem arrives
    {jumps : Bool}
    (tests : code.Tests outside stream machine middle label jumps after)
    (leaves : jumps = true)
    (extends_ : middle.Extends later)
    (isOpen : label < later.labels.size ∧ later.offset? label = none) :
    code.Crosses outside stream machine (later.place label) after where
  extends_ := (tests.extends_.trans extends_).trans (CodeStream.extends_place isOpen.2)
  goesOn := fun _ => CodeStream.isTerminated_place isOpen.1
  goes := fun completes =>
    tests.goes leaves (completes.earlier (extends_.trans (CodeStream.extends_place isOpen.2)))
      later.position (completes.placed (CodeStream.offset?_place isOpen.1))

end Tests

end MethodCode

end LoopLowering
