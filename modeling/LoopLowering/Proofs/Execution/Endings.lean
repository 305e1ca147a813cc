import LoopLowering.Proofs.Code.Targets
import LoopLowering.Proofs.Execution.Standing
import LoopLowering.Proofs.Machine.LedgerStatements

namespace LoopLowering

/-!
# Endings of statements

Where a machine is when the execution of a statement has ended: at the end of its
code, at the branch target of a jump, or where it returns. The values of the locals
that were there before are told apart from those of loops inside.
-/

namespace JumpTarget

/-- The label that stands directly before a loop, if there is one. -/
def loopLabel? :
    List JumpTarget → Option String
  | .label name _ true :: _ => some name
  | _ => none

/-- The statement directly inside a label can only be continued if it is a loop. -/
theorem ofContinue_label
    (name other : String)
    (onBreak : Label)
    (labelsLoop : Bool)
    (targets : List JumpTarget)
    (different : other ≠ name) :
    ofContinue (.label other onBreak labelsLoop :: targets) (some name) =
      ofContinue targets (some name) := by
  have inside : ((insideOf? (labelsLoopAs name) (some (.label other onBreak labelsLoop))
      targets).bind continueLabel?) =
        (insideOf? (labelsLoopAs name) none targets).bind continueLabel? := by
    cases targets with
    | nil =>
        rfl
    | cons target rest =>
        simp only [insideOf?]
        split <;> rfl
  simp only [ofContinue, continued?]
  rw [← inside]
  simp [insideOf?, labelsLoopAs, different]

/-- A labeled continue goes on outside a loop that does not have the label. -/
theorem ofContinue_loop
    {name : String}
    {onBreak : Label}
    {onContinue : Option Label}
    {targets : List JumpTarget}
    (different : loopLabel? targets ≠ some name)
    (inside : targets ≠ []) :
    ofContinue (.loop onBreak onContinue :: targets) (some name) =
      ofContinue targets (some name) := by
  cases targets with
  | nil =>
      exact absurd rfl inside
  | cons target rest =>
      have fails : labelsLoopAs name target = false := by
        cases target with
        | loop =>
            rfl
        | label other onBreak labelsLoop =>
            cases labelsLoop with
            | false =>
                rfl
            | true =>
                simpa [loopLabel?, labelsLoopAs] using different
      simp only [ofContinue, continued?, insideOf?, fails]
      simp [labelsLoopAs]

/-- A plain continue goes on with the loop directly around it. -/
theorem ofContinue_innermost
    {onBreak label : Label}
    {onContinue : Option Label}
    {targets : List JumpTarget} :
    ofContinue (.loop onBreak onContinue :: targets) none = .ok label ↔
      onContinue = some label := by
  cases onContinue <;> simp [ofContinue, continued?, List.find?_cons, isLoop, continueLabel?]

/-- A labeled continue goes on with the loop that has the label. -/
theorem ofContinue_labeled
    {name : String}
    {onBreak outer label : Label}
    {onContinue : Option Label}
    {targets : List JumpTarget} :
    ofContinue (.loop onBreak onContinue :: .label name outer true :: targets) (some name) =
        .ok label ↔ onContinue = some label := by
  cases onContinue <;>
    simp [ofContinue, continued?, insideOf?, labelsLoopAs, continueLabel?]

end JumpTarget

/-- The exit and the branch target that a jump takes among the statements around it. -/
def Ending.Takes
    (frames : List JumpFrame)
    (targets : List JumpTarget) :
    Ending → FlowExit → Label → Prop
  | .breaks wanted, exit, label =>
      JumpFrame.breakExit wanted frames = exit ∧ JumpTarget.ofBreak targets wanted = .ok label
  | .continues wanted, exit, label =>
      JumpFrame.continueExit wanted frames = exit ∧ JumpTarget.ofContinue targets wanted = .ok label
  | .completes, _, _ | .returns _, _, _ | .cut, _, _ => False

namespace Ending

variable
  {leads : FlowExit → Label → Prop}
  {frames : List JumpFrame}
  {targets : List JumpTarget}
  {ending : Ending}
  {label breakLabel : Label}
  {needed : VarSet}

/-- What a jump inside a loop takes if the loop goes on after it. -/
theorem Takes.resumes
    {onBreak onContinue : FlowExit}
    {continueLabel : Option Label}
    (matches_ : JumpFrame.Matches leads frames targets)
    (takes : ending.Takes (.loop onBreak onContinue :: frames)
      (.loop breakLabel continueLabel :: targets) (some needed) label)
    (resumes : ending.resumes (JumpTarget.loopLabel? targets) = true) :
    onContinue = some needed ∧ continueLabel = some label := by
  cases ending with
  | completes | returns | cut =>
      exact takes.elim
  | breaks =>
      cases resumes
  | continues wanted =>
      obtain ⟨isExit, found⟩ := takes
      cases wanted with
      | none =>
          exact ⟨isExit, JumpTarget.ofContinue_innermost.mp found⟩
      | some name =>
          simp only [Ending.resumes, beq_iff_eq] at resumes
          rcases matches_.heads with ⟨-, rfl⟩ | ⟨onBreak, onContinue, inner, breakLabel, next, outer,
            -, rfl⟩ | ⟨other, labelsLoop, onBreak, inner, breakLabel, outer, rfl, rfl⟩
          · cases resumes
          · cases resumes
          · cases labelsLoop with
            | false =>
                cases resumes
            | true =>
                obtain rfl := Option.some.inj resumes
                simp only [JumpFrame.continueExit, JumpFrame.continueExitTo, if_true] at isExit
                exact ⟨isExit, JumpTarget.ofContinue_labeled.mp found⟩

/-- A jump that leaves a loop is a break out of it, or it goes on outside. -/
theorem Takes.leavesLoop
    {onBreak onContinue : FlowExit}
    {continueLabel : Option Label}
    (matches_ : JumpFrame.Matches leads frames targets)
    (takes : ending.Takes (.loop onBreak onContinue :: frames)
      (.loop breakLabel continueLabel :: targets) (some needed) label)
    (leaves : ending.resumes (JumpTarget.loopLabel? targets) = false) :
    (ending = .breaks none ∧ onBreak = some needed ∧ breakLabel = label) ∨
      (ending.ofLoop = ending ∧ ending.Takes frames targets (some needed) label) := by
  cases ending with
  | completes | returns | cut =>
      exact takes.elim
  | breaks wanted =>
      obtain ⟨isExit, found⟩ := takes
      cases wanted with
      | none =>
          refine .inl ⟨rfl, isExit, ?_⟩
          simpa [JumpTarget.ofBreak, JumpTarget.breakLabel?] using found
      | some name =>
          exact .inr ⟨rfl, isExit, by
            simpa [JumpTarget.ofBreak, JumpTarget.breakLabel?] using found⟩
  | continues wanted =>
      obtain ⟨isExit, found⟩ := takes
      cases wanted with
      | none =>
          cases leaves
      | some name =>
          simp only [Ending.resumes, beq_eq_false_iff_ne] at leaves
          simp only [JumpFrame.continueExit] at isExit
          refine .inr ⟨rfl, ?_⟩
          rcases matches_.heads with ⟨rfl, rfl⟩ | ⟨outerBreak, outerContinue, inner, outerLabel,
            next, outer, rfl, rfl⟩ | ⟨other, labelsLoop, outerBreak, inner, outerLabel, outer, rfl,
            rfl⟩
          · cases isExit
          · exact ⟨isExit, JumpTarget.ofContinue_loop leaves (by simp) ▸ found⟩
          · have different : other ≠ name := by
              rintro rfl
              cases labelsLoop with
              | false =>
                  simp [JumpFrame.continueExitTo] at isExit
              | true =>
                  exact leaves rfl
            simp only [JumpFrame.continueExitTo, different, if_false] at isExit
            exact ⟨by simpa [JumpFrame.continueExit, JumpFrame.continueExitTo, different]
              using isExit, JumpTarget.ofContinue_loop leaves (by simp) ▸ found⟩

/-- A jump inside a labeled statement is a break out of it, or it goes on outside. -/
theorem Takes.leavesLabel
    {name : String}
    {labelsLoop : Bool}
    {onBreak : FlowExit}
    (takes : ending.Takes (.label name labelsLoop onBreak :: frames)
      (.label name breakLabel labelsLoop :: targets) (some needed) label) :
    (ending.ofLabeled name = .completes ∧ onBreak = some needed ∧ breakLabel = label) ∨
      (ending.ofLabeled name = ending ∧ ending.Takes frames targets (some needed) label) := by
  cases ending with
  | completes | returns | cut =>
      exact takes.elim
  | breaks wanted =>
      obtain ⟨isExit, found⟩ := takes
      by_cases named : wanted = some name
      · subst named
        refine .inl ⟨by simp [Ending.ofLabeled], ?_, ?_⟩
        · simpa [JumpFrame.breakExit] using isExit
        · simpa [JumpTarget.ofBreak, JumpTarget.breakLabel?] using found
      · refine .inr ⟨?_, ?_, ?_⟩
        · cases wanted with
          | none =>
              rfl
          | some other =>
              simpa [Ending.ofLabeled] using named
        · simpa [JumpFrame.breakExit, named] using isExit
        · simpa [JumpTarget.ofBreak, JumpTarget.breakLabel?, named] using found
  | continues wanted =>
      obtain ⟨isExit, found⟩ := takes
      refine .inr ⟨rfl, ?_⟩
      cases wanted with
      | none =>
          exact ⟨isExit, by
            simpa [JumpTarget.ofContinue, JumpTarget.continued?, JumpTarget.isLoop,
              List.find?_cons] using found⟩
      | some other =>
          simp only [JumpFrame.continueExit, JumpFrame.continueExitTo] at isExit
          split at isExit
          · cases isExit
          · next different =>
              exact ⟨isExit, JumpTarget.ofContinue_label other name breakLabel labelsLoop targets
                different ▸ found⟩

end Ending

namespace CodeContext

/-- A machine stands at a place where an exit can be taken. What is kept of the
locals of loops is what was kept of those declared before. -/
def StandsAt
    (context : CodeContext)
    (place : Place)
    (exit : FlowExit)
    (first : Nat)
    (kept : Nat → Option Word)
    (stack : List Word)
    (state : TreeState)
    (machine : Machine) :
    Prop :=
  ∃ needed others, exit = some needed ∧ (∀ id < first, others id = kept id) ∧
    context.Stands place needed others stack state machine

/-- Where an execution of the code of a statement has come from a configuration when
the execution of the tree has ended. -/
inductive Arrives
    (context : CodeContext)
    (code : MethodCode)
    (outside : Outside)
    (rounds : Nat)
    (start : Configuration)
    (place : Place)
    (first : Nat)
    (kept : Nat → Option Word)
    (stack : List Word)
    (frames : List JumpFrame)
    (targets : List JumpTarget)
    (next : CodeStream)
    (after : FlowExit) :
    Ending → TreeState → Prop where
  | completes {state : TreeState} {machine : Machine} :
      next.isTerminated = false →
      context.StandsAt place after first kept stack state machine →
      code.Goes outside start (next.position, machine) →
      Arrives context code outside rounds start place first kept stack frames targets next after
        .completes state
  | jumps {ending : Ending} {exit : FlowExit} {label : Label} {offset : Nat} {state : TreeState}
      {machine : Machine} :
      ending.Takes frames targets exit label →
      code.labelPosition? label = some offset →
      context.StandsAt place exit first kept stack state machine →
      code.Goes outside start (offset, machine) →
      Arrives context code outside rounds start place first kept stack frames targets next after
        ending state
  | returns {value : Option Word} {state : TreeState} {last : Configuration} :
      code.Goes outside start last →
      code.returned? last = some value →
      last.2.memory = state.memory →
      Arrives context code outside rounds start place first kept stack frames targets next after
        (.returns value) state
  /-- As many calls have been made as the loop has asked its iterator. -/
  | cut {state : TreeState} {last : Configuration} :
      code.Goes outside start last →
      last.2.memory = state.memory →
      rounds ≤ state.memory.calls.length →
      Arrives context code outside rounds start place first kept stack frames targets next after
        .cut state

variable
  {context : CodeContext}
  {code : MethodCode}
  {outside : Outside}
  {rounds : Nat}
  {start : Configuration}
  {place outer : Place}
  {first : Nat}
  {kept : Nat → Option Word}
  {stack : List Word}
  {frames : List JumpFrame}
  {targets : List JumpTarget}
  {next : CodeStream}
  {exit after : FlowExit}
  {ending : Ending}
  {state : TreeState}
  {machine : Machine}

namespace StandsAt

/-- Where more is assigned than an exit asks for, the exit can be taken. -/
theorem ofAdmits
    {set : VarSet}
    (admits : exit.Admits set)
    (stands : context.Stands place set kept stack state machine) :
    context.StandsAt place exit first kept stack state machine := by
  obtain ⟨needed, isExit, within⟩ := admits
  exact ⟨needed, kept, isExit, fun _ _ => rfl, stands.within within⟩

/-- An exit may be taken to a place around and after. -/
theorem weaken
    (stands : context.StandsAt place exit first kept stack state machine)
    (wellFormed : context.scope.WellFormed)
    (around : outer.block ∈ context.scope.enclosing place.block)
    (counted : place.count ≤ outer.count) :
    context.StandsAt outer exit first kept stack state machine := by
  obtain ⟨needed, others, isExit, agree, isThere⟩ := stands
  exact ⟨needed, others, isExit, agree,
    isThere.holds.weaken wellFormed around counted fun _ => .inl, isThere.operands,
    isThere.memory⟩

/-- What is kept of more locals is kept of fewer. -/
theorem keep
    {later : Nat}
    {others : Nat → Option Word}
    (stands : context.StandsAt place exit later others stack state machine)
    (isLater : first ≤ later)
    (agree : ∀ id < first, others id = kept id) :
    context.StandsAt place exit first kept stack state machine := by
  obtain ⟨needed, more, isExit, same, isThere⟩ := stands
  exact ⟨needed, more, isExit, fun id before =>
    (same id (Nat.lt_of_lt_of_le before isLater)).trans (agree id before), isThere⟩

end StandsAt

namespace Arrives

/-- What comes before belongs to the way. -/
theorem ofGoes
    {begin : Configuration}
    (goes : code.Goes outside begin start)
    (arrives : context.Arrives code outside rounds start place first kept stack frames targets next
      after ending state) :
    context.Arrives code outside rounds begin place first kept stack frames targets next after
      ending state := by
  cases arrives with
  | completes goesOn stands rest =>
      exact .completes goesOn stands (goes.trans rest)
  | jumps takes isLabel stands rest =>
      exact .jumps takes isLabel stands (goes.trans rest)
  | returns rest returned sameMemory =>
      exact .returns (goes.trans rest) returned sameMemory
  | cut rest sameMemory asked =>
      exact .cut (goes.trans rest) sameMemory asked

/-- A place around and after is arrived at, too. -/
theorem weaken
    (arrives : context.Arrives code outside rounds start place first kept stack frames targets next
      after ending state)
    (wellFormed : context.scope.WellFormed)
    (around : outer.block ∈ context.scope.enclosing place.block)
    (counted : place.count ≤ outer.count) :
    context.Arrives code outside rounds start outer first kept stack frames targets next after
      ending state := by
  cases arrives with
  | completes goesOn stands rest =>
      exact .completes goesOn (stands.weaken wellFormed around counted) rest
  | jumps takes isLabel stands rest =>
      exact .jumps takes isLabel (stands.weaken wellFormed around counted) rest
  | returns rest returned sameMemory =>
      exact .returns rest returned sameMemory
  | cut rest sameMemory asked =>
      exact .cut rest sameMemory asked

/-- What is kept of more locals is kept of fewer. -/
theorem keep
    {later : Nat}
    {others : Nat → Option Word}
    (arrives : context.Arrives code outside rounds start place later others stack frames targets
      next after ending state)
    (isLater : first ≤ later)
    (agree : ∀ id < first, others id = kept id) :
    context.Arrives code outside rounds start place first kept stack frames targets next after
      ending state := by
  cases arrives with
  | completes goesOn stands rest =>
      exact .completes goesOn (stands.keep isLater agree) rest
  | jumps takes isLabel stands rest =>
      exact .jumps takes isLabel (stands.keep isLater agree) rest
  | returns rest returned sameMemory =>
      exact .returns rest returned sameMemory
  | cut rest sameMemory asked =>
      exact .cut rest sameMemory asked

/-- Where a statement does not complete, what follows it does not matter. -/
theorem abrupt
    {other : CodeStream}
    {otherAfter : FlowExit}
    (arrives : context.Arrives code outside rounds start place first kept stack frames targets next
      after ending state)
    (isAbrupt : ending ≠ .completes) :
    context.Arrives code outside rounds start place first kept stack frames targets other otherAfter
      ending state := by
  cases arrives with
  | completes =>
      exact absurd rfl isAbrupt
  | jumps takes isLabel stands rest =>
      exact .jumps takes isLabel stands rest
  | returns rest returned sameMemory =>
      exact .returns rest returned sameMemory
  | cut rest sameMemory asked =>
      exact .cut rest sameMemory asked

/-- Where a statement completes, the code goes on, perhaps elsewhere. -/
theorem goesOn
    {other : CodeStream}
    (arrives : context.Arrives code outside rounds start place first kept stack frames targets next
      after ending state)
    (continues : next.isTerminated = false → other.isTerminated = false ∧
      ∀ machine, code.Goes outside (next.position, machine) (other.position, machine)) :
    context.Arrives code outside rounds start place first kept stack frames targets other after
      ending state := by
  cases arrives with
  | completes goesOn stands rest =>
      obtain ⟨otherGoesOn, further⟩ := continues goesOn
      exact .completes otherGoesOn stands (rest.trans (further _))
  | jumps takes isLabel stands rest =>
      exact .jumps takes isLabel stands rest
  | returns rest returned sameMemory =>
      exact .returns rest returned sameMemory
  | cut rest sameMemory asked =>
      exact .cut rest sameMemory asked

/-- The same code may follow. -/
theorem sameCode
    {other : CodeStream}
    (arrives : context.Arrives code outside rounds start place first kept stack frames targets next
      after ending state)
    (same : next.SameCode other) :
    context.Arrives code outside rounds start place first kept stack frames targets other after
      ending state := by
  refine arrives.goesOn fun goesOn => ⟨same.isTerminated.trans goesOn, fun machine => ?_⟩
  rw [show other.position = next.position by simp [CodeStream.position, same.1]]
  exact .refl _

/-- A branch target may be placed after the code. -/
theorem placed
    (arrives : context.Arrives code outside rounds start place first kept stack frames targets next
      after ending state)
    {label : Label}
    (isOpen : label < next.labels.size ∧ next.offset? label = none) :
    context.Arrives code outside rounds start place first kept stack frames targets
      (next.place label) after ending state :=
  arrives.goesOn fun _ => ⟨CodeStream.isTerminated_place isOpen.1, fun _ => .refl _⟩

/-- A labeled statement is left by a break, too. -/
theorem labeled
    {name : String}
    {labelsLoop : Bool}
    {label : Label}
    (arrives : context.Arrives code outside rounds start place first kept stack
      (.label name labelsLoop after :: frames) (.label name label labelsLoop :: targets) next after
      ending state)
    (isOpen : label < next.labels.size ∧ next.offset? label = none)
    (completes : code.Completes (next.place label)) :
    context.Arrives code outside rounds start place first kept stack frames targets
      (next.place label) after (ending.ofLabeled name) state := by
  cases arrives with
  | completes goesOn stands rest =>
      exact .completes (CodeStream.isTerminated_place isOpen.1) stands rest
  | @jumps ending exit target offset _ machine takes isLabel stands rest =>
      obtain ⟨needed, others, rfl, agree, isThere⟩ := stands
      rcases takes.leavesLabel with ⟨completed, rfl, rfl⟩ | ⟨same, takes⟩
      · rw [completes.placed (CodeStream.offset?_place isOpen.1), Option.some.injEq] at isLabel
        subst isLabel
        rw [completed]
        exact .completes (CodeStream.isTerminated_place isOpen.1)
          ⟨needed, others, rfl, agree, isThere⟩ rest
      · rw [same]
        exact .jumps takes isLabel ⟨needed, others, rfl, agree, isThere⟩ rest
  | returns rest returned sameMemory =>
      exact .returns rest returned sameMemory
  | cut rest sameMemory asked =>
      exact .cut rest sameMemory asked

end Arrives

end CodeContext

end LoopLowering
