import LoopLowering.Proofs.Execution.Endings
import LoopLowering.Proofs.Execution.LoopSteps

namespace LoopLowering

/-!
# Loops in execution

The rounds of the code of a loop, and the whole loop put together from them.

## Rounds of loops

A loop goes round while there is another element and its body lets it go on. Each round
of the code does what the tree does in that round, and so do all rounds together, by
induction on the elements that are left. A loop over an iterator is followed for as many
rounds as are wanted.
-/

/-- The number of rounds for which a loop is followed. -/
def LoopSource.limit
    (rounds : Nat) :
    LoopSource → Nat
  | .array _ _ length => length
  | .iterator _ => rounds

namespace CodeContext

variable
  {context : CodeContext}
  {code : MethodCode}
  {outside : Outside}
  {rounds : Nat}
  {start : Configuration}
  {place inner : Place}
  {first later : Nat}
  {kept : Nat → Option Word}
  {stack : List Word}
  {frames : List JumpFrame}
  {targets : List JumpTarget}
  {next after : CodeStream}
  {exit again : FlowExit}
  {ending : Ending}
  {state : TreeState}
  {machine : Machine}

/-- Where the body of a loop has ended, the loop goes on at the end of the body or where it
is continued, or it is left: at its exit, at a branch target further outside, or where the
execution returns. -/
theorem Arrives.ofBody
    {leads : FlowExit → Label → Prop}
    {exitLabel : Label}
    {nextLabel : Option Label}
    {ran : CodeStream}
    (arrives : context.Arrives code outside rounds start inner later kept stack
      (.loop exit again :: frames) (.loop exitLabel nextLabel :: targets) ran again ending state)
    (matches_ : JumpFrame.Matches leads frames targets)
    (isExit : code.labelPosition? exitLabel = some after.position)
    (goesOn : after.isTerminated = false) :
    (ending.resumes (JumpTarget.loopLabel? targets) = true ∧
        ∃ offset machine, code.Goes outside start (offset, machine) ∧
          context.StandsAt inner again later kept stack state machine ∧
          (ran.isTerminated = false ∧ offset = ran.position ∨
            ∃ label, nextLabel = some label ∧ code.labelPosition? label = some offset)) ∨
      (ending.resumes (JumpTarget.loopLabel? targets) = false ∧
        context.Arrives code outside rounds start inner later kept stack frames targets after exit
          ending.ofLoop state) := by
  cases arrives with
  | @completes _ machine continues stands goes =>
      exact .inl ⟨rfl, ran.position, machine, goes, stands, .inl ⟨continues, rfl⟩⟩
  | @jumps ending taken label offset _ machine takes isLabel stands goes =>
      obtain ⟨needed, others, rfl, agree, isThere⟩ := stands
      cases resumes : ending.resumes (JumpTarget.loopLabel? targets) with
      | true =>
          obtain ⟨isAgain, isNext⟩ := takes.resumes matches_ resumes
          exact .inl ⟨rfl, offset, machine, goes, ⟨needed, others, isAgain, agree, isThere⟩,
            .inr ⟨label, isNext, isLabel⟩⟩
      | false =>
          refine .inr ⟨rfl, ?_⟩
          rcases takes.leavesLoop matches_ resumes with ⟨rfl, isNeeded, rfl⟩ | ⟨same, outwards⟩
          · obtain rfl := Option.some.inj (isLabel.symm.trans isExit)
            exact .completes goesOn ⟨needed, others, isNeeded, agree, isThere⟩ goes
          · rw [same]
            exact .jumps outwards isLabel ⟨needed, others, rfl, agree, isThere⟩ goes
  | returns goes returned sameMemory =>
      exact .inr ⟨rfl, .returns goes returned sameMemory⟩
  | cut goes sameMemory asked =>
      exact .inr ⟨rfl, .cut goes sameMemory asked⟩

/-- A loop goes round from its test on, if every test and every round of its code do what
those of its tree do. -/
theorem arrives_rounds
    {plan : LoopPlan}
    {source : LoopSource}
    {label : Option String}
    {action : Option Stmt}
    {set : VarSet}
    {testAt actionAt : Nat}
    (isLength : source.isIterator = false → source.limit rounds < 0x80000000)
    (tests : ∀ {taken : Nat} {kept : Nat → Option Word} {state : TreeState} {machine : Machine},
      plan.Keeps kept taken source →
      (source.isIterator = false → taken < 0x80000000) →
      context.Stands inner set kept stack state machine →
      ∃ at_, context.Stands inner set kept stack
          (source.test context.table outside state taken).2 at_ ∧
        code.Goes outside (testAt, machine)
          (if (source.test context.table outside state taken).1 then actionAt else after.position,
            at_))
    (acts : ∀ {taken : Nat} {kept : Nat → Option Word} {state : TreeState} {machine : Machine},
      plan.Keeps kept taken source →
      (source.isIterator = false → taken < 0x80000000) →
      context.Stands inner set kept stack state machine →
      ∃ value begun ending final,
        source.take? context.table outside state taken = some (value, begun) ∧
        context.ExecutesIfAny outside rounds (begun.put plan.element value) action ending final ∧
        ((ending.resumes label = true ∧ ∃ others at_, (∀ id < first, others id = kept id) ∧
            plan.Keeps others (taken + 1) source ∧
            context.Stands inner set others stack final at_ ∧
            code.Goes outside (actionAt, machine) (testAt, at_)) ∨
          (ending.resumes label = false ∧
            context.Arrives code outside rounds (actionAt, machine) place first kept stack frames
              targets after exit ending.ofLoop final)))
    (goesOn : after.isTerminated = false)
    (leaves : ∀ {kept : Nat → Option Word} {state : TreeState} {machine : Machine},
      context.Stands inner set kept stack state machine →
      context.StandsAt place exit first kept stack state machine) :
    ∀ (left : Nat) {taken : Nat} {kept : Nat → Option Word} {state : TreeState} {machine : Machine},
      taken + left = source.limit rounds →
      plan.Keeps kept taken source →
      context.Stands inner set kept stack state machine →
      (source.isIterator = true → taken ≤ state.memory.calls.length) →
      ∃ ending final,
        context.Loops outside rounds state label plan.element source action taken ending final ∧
        context.Arrives code outside rounds (testAt, machine) place first kept stack frames targets
          after exit ending final := by
  intro left
  induction left with
  | zero =>
      intro taken kept state machine isLast keeps stands asked
      have few : source.isIterator = false → taken < 0x80000000 := fun isArray => by
        rw [← Nat.add_zero taken, isLast]
        exact isLength isArray
      cases source with
      | array collection kind length =>
          obtain ⟨at_, stands, goes⟩ := tests keeps few stands
          have isLast : taken = length := isLast
          have noMore : (LoopSource.array collection kind length).test context.table outside state
              taken = (false, state) := by simp [LoopSource.test, isLast]
          rw [noMore] at stands goes
          exact ⟨.completes, state, .exhausted (fun isIterator => by cases isIterator) noMore,
            .completes goesOn (leaves stands) goes⟩
      | iterator reference =>
          have isLast : taken = rounds := isLast
          subst isLast
          exact ⟨.cut, state, .cut rfl, .cut (.refl _) stands.memory (asked rfl)⟩
  | succ left inductionHypothesis =>
      intro taken kept state machine isLater keeps stands asked
      have before : taken < source.limit rounds := by omega
      have few : source.isIterator = false → taken < 0x80000000 := fun isArray =>
        Nat.lt_trans before (isLength isArray)
      have followed : source.isIterator = true → taken < rounds := by
        intro isIterator
        cases source with
        | array => cases isIterator
        | iterator => exact before
      obtain ⟨at_, standsTested, goesTested⟩ := tests keeps few stands
      generalize tested : source.test context.table outside state taken = outcome at *
      obtain ⟨more, between⟩ := outcome
      cases more with
      | false =>
          exact ⟨.completes, between, .exhausted followed tested,
            .completes goesOn (leaves standsTested) goesTested⟩
      | true =>
          obtain ⟨value, begun, ending, final, took, executes, ends⟩ := acts keeps few standsTested
          rcases ends with ⟨resumes, others, backAt, agree, keepsOn, standsBack, goesBack⟩ |
            ⟨stops, arrives⟩
          · have askedAgain : source.isIterator = true →
                taken + 1 ≤ final.memory.calls.length := by
              intro isIterator
              have once : between.memory.calls.length = state.memory.calls.length + 1 := by
                cases source with
                | array => cases isIterator
                | iterator reference =>
                    have sameState := congrArg Prod.snd tested
                    simp only [LoopSource.test] at sameState
                    rw [← sameState]
                    simp [TreeState.withMemory]
              have further := goesBack.calls.length_le
              rw [standsTested.memory, standsBack.memory, once] at further
              exact Nat.le_trans (Nat.succ_le_succ (asked isIterator)) further
            obtain ⟨last, ended, loops, arrives⟩ := inductionHypothesis (by omega) keepsOn
              standsBack askedAgain
            exact ⟨last, ended, .resumes followed tested took executes resumes loops,
              (arrives.keep (Nat.le_refl first) agree).ofGoes (goesTested.trans goesBack)⟩
          · exact ⟨ending.ofLoop, final, .leaves followed tested took executes stops,
              arrives.ofGoes goesTested⟩

end CodeContext

/-!
## Iterations of loops

The pieces of the code of a loop put together do what the tree of the loop does, if its body
does what its action does: a loop that comes back is entered at its test and goes round from
there, and one that never comes back tests at its top and runs once.
-/

theorem LoopPlan.Keeps.congr
    {plan : LoopPlan}
    {kept others : Nat → Option Word}
    {taken : Nat}
    {source : LoopSource}
    (keeps : plan.Keeps kept taken source)
    (same : ∀ id ∈ plan.resolution.strategy.synthetics, others id = kept id) :
    plan.Keeps others taken source := by
  cases keeps with
  | array strategy short isSource measured stays =>
      simp only [strategy, LoopStrategy.synthetics, List.forall_mem_cons, List.not_mem_nil,
        false_imp_iff, implies_true, and_true] at same
      refine .array strategy short (same.2.2.trans isSource) (fun back => ?_) stays
      exact ⟨same.2.1.trans (measured back).1, same.1.trans (measured back).2⟩
  | @iterator iterator reference isIterator isKept =>
      exact .iterator isIterator ((same iterator (by simp [isIterator])).trans isKept)

/-- A loop over an array is followed for its length, which fits in an integer. -/
theorem LoopPlan.Keeps.limit_lt
    {plan : LoopPlan}
    {kept : Nat → Option Word}
    {taken : Nat}
    {source : LoopSource}
    (keeps : plan.Keeps kept taken source)
    (rounds : Nat)
    (isArray : source.isIterator = false) :
    source.limit rounds < 0x80000000 := by
  cases keeps with
  | array strategy short =>
      exact short
  | iterator =>
      cases isArray

/-- A loop that comes back leaves nothing on the stack where it has started. -/
theorem LoopPlan.operands_of_continues
    {plan : LoopPlan}
    (comesBack : plan.continues = true)
    (source : LoopSource) :
    plan.operands source = [] := by
  unfold operands
  split
  · rw [if_pos comesBack]
  · rfl

/-- What has to be assigned where a loop comes back, if it does. -/
def LoopPlan.again
    (plan : LoopPlan)
    (set : VarSet) :
    FlowExit :=
  if plan.continues then some ((plan.startedWith set).insert plan.element) else none

/-- Branch targets are made in place. -/
theorem LoopLabels.position_made
    {continues : Bool}
    {labels : LoopLabels}
    {stream labeled : CodeStream}
    (isLabeled : made continues stream = (labels, labeled)) :
    labeled.position = stream.position := by
  unfold made at isLabeled
  split at isLabeled <;> cases isLabeled <;> simp

namespace CodeContext

variable
  {strict : Bool}
  {context : CodeContext}
  {code : MethodCode}
  {outside : Outside}
  {rounds : Nat}
  {plan : LoopPlan}
  {source : LoopSource}
  {collection : Expr}
  {body : JumpTarget → CodeStep}
  {stream after : CodeStream}
  {outer : Place}
  {block first later total taken : Nat}
  {set : VarSet}
  {kept : Nat → Option Word}
  {stack : List Word}
  {frames : List JumpFrame}
  {targets : List JumpTarget}
  {exit : FlowExit}
  {action : Option Stmt}
  {state : TreeState}
  {machine : Machine}

namespace Iteration

/-- The action of a loop is where the loop is entered. -/
theorem labelPosition_action
    (iteration : context.Iteration plan collection body stream after)
    (complete : ∀ target, (body target).Appends)
    (completes : code.Completes after) :
    code.labelPosition? iteration.labels.action = some iteration.entered.position :=
  (completes.earlier (iteration.extends_ran complete)).placed
    (iteration.offset?_action complete).1

/-- The code of a loop extends what is there where it is entered. -/
theorem extends_entered
    (iteration : context.Iteration plan collection body stream after)
    (complete : ∀ target, (body target).Appends) :
    iteration.entered.Extends after := by
  have isOpen := iteration.appends_entered.isOpen_label iteration.labels.action (by simp)
  exact (CodeStream.extends_place isOpen.2).trans
    (((appends_fetchElement iteration.isFetched).trans
      (complete _ iteration.isRan)).extends_.trans (iteration.extends_ran complete))

/-- The exit of a loop is where its code ends. -/
theorem labelPosition_exit
    (iteration : context.Iteration plan collection body stream after)
    (complete : ∀ target, (body target).Appends)
    (completes : code.Completes after) :
    code.labelPosition? iteration.labels.exit = some iteration.repeated.position ∧
      after.position = iteration.repeated.position ∧ after.isTerminated = false := by
  have same := sameCode_leaveLoop context plan iteration.repeated
  have isOpen := ((iteration.appends_repeated complete).sameCode same).isOpen_label
    iteration.labels.exit (by simp)
  have isPlaced := CodeStream.offset?_place isOpen.1
  have goesOn := CodeStream.isTerminated_place isOpen.1
  have samePosition := CodeStream.position_place iteration.labels.exit
    (context.settleRanges plan ((iteration.repeated.closeWhere
      plan.resolution.strategy.synthetics.contains).exitScope context.scope plan.scope))
  rw [iteration.isAfter] at isPlaced goesOn samePosition
  rw [same.position] at isPlaced samePosition
  exact ⟨completes.placed isPlaced, samePosition, goesOn⟩

/-- The code of a loop extends what is repeated. -/
theorem extends_repeated
    (iteration : context.Iteration plan collection body stream after)
    (complete : ∀ target, (body target).Appends) :
    iteration.repeated.Extends after := by
  have same := sameCode_leaveLoop context plan iteration.repeated
  have isOpen := ((iteration.appends_repeated complete).sameCode same).isOpen_label
    iteration.labels.exit (by simp)
  have placed := CodeStream.extends_place isOpen.2
  rw [iteration.isAfter] at placed
  exact ((CodeStream.Appends.refl iteration.repeated).sameCode same).extends_.trans placed

/-- The test at the bottom of a loop stands where the loop is continued and after that. -/
theorem repeats_testAtBottom
    (iteration : context.Iteration plan collection body stream after)
    {next : Label}
    (isNext : iteration.labels.next = some next) :
    context.testAtBottom plan iteration.labels next (context.closeBody plan iteration.ran) =
      .ok iteration.repeated := by
  have isRepeated := iteration.isRepeated
  simp only [isNext] at isRepeated
  exact isRepeated

/-- A loop is continued where its body ends. -/
theorem labelPosition_next
    (iteration : context.Iteration plan collection body stream after)
    (complete : ∀ target, (body target).Appends)
    (completes : code.Completes after)
    {next : Label}
    (isNext : iteration.labels.next = some next) :
    code.labelPosition? next = some iteration.ran.position := by
  have same := sameCode_closeBody context plan iteration.ran
  have closed := (iteration.appends_ran complete).sameCode same
  have isMember : next ∈ iteration.labels.outward := by simp [LoopLabels.outward, isNext]
  have differs := (LoopLabels.ne_test iteration.isLabeled).2.2
  have extends_ := (extends_place_testAtBottom closed isMember
    (by simp [LoopLabels.outward, isNext]) (fun same => differs (same ▸ isNext))
    (iteration.repeats_testAtBottom isNext)).trans (iteration.extends_repeated complete)
  have isPlaced := (completes.earlier extends_).placed
    (CodeStream.offset?_place (closed.isOpen_label next isMember).1)
  rwa [same.position] at isPlaced

/-- The body of a loop does what its action does: it ends where the loop comes back, or
where what is around the loop leads. -/
def Acts
    (iteration : context.Iteration plan collection body stream after)
    (code : MethodCode)
    (outside : Outside)
    (rounds block later total : Nat)
    (set : VarSet)
    (stack : List Word)
    (frames : List JumpFrame)
    (targets : List JumpTarget)
    (exit : FlowExit)
    (action : Option Stmt) :
    Prop :=
  iteration.fetched.isTerminated = false →
    ∀ {kept : Nat → Option Word} {state : TreeState} {machine : Machine},
      context.Stands ⟨block, later⟩ ((plan.startedWith set).insert plan.element) kept stack state
        machine →
      ∃ ending final,
        context.ExecutesIfAny outside rounds state action ending final ∧
        context.Arrives code outside rounds (iteration.fetched.position, machine) ⟨block, total⟩
          later kept stack (.loop exit (plan.again set) :: frames)
          (.loop iteration.labels.exit iteration.labels.next :: targets) iteration.ran
          (plan.again set) ending final

/-- Without code, a body does what an action does that does nothing, if the loop comes back. -/
theorem Acts.ofEmpty
    {iteration : context.Iteration plan collection body stream after}
    (isRan : iteration.ran = iteration.fetched)
    (comesBack : plan.continues = true)
    (idles : ∀ state, context.ExecutesIfAny outside rounds state action .completes state)
    (counted : later ≤ total) :
    iteration.Acts code outside rounds block later total set stack frames targets exit action := by
  intro goesOn kept state machine stands
  rw [isRan, LoopPlan.again, if_pos comesBack]
  exact ⟨.completes, state, idles state, .completes goesOn
    ⟨_, kept, rfl, fun _ _ => rfl, stands.holds.later counted, stands.operands, stands.memory⟩
    (.refl _)⟩

/-- A round of a loop fetches an element and acts on it. Then it is at the end of the body
with all that the loop needs to go on, or the loop is left. -/
theorem Acts.exists_round
    {leads : FlowExit → Label → Prop}
    {iteration : context.Iteration plan collection body stream after}
    (acts : iteration.Acts code outside rounds block later total set stack frames targets exit
      action)
    (executable : context.Executable strict)
    (loop : context.ExecutableLoop ⟨block, later⟩ plan)
    (complete : ∀ target, (body target).Appends)
    (completes : code.Completes after)
    (matches_ : JumpFrame.Matches leads frames targets)
    (few : source.isIterator = false → taken < 0x80000000)
    (keeps : plan.Keeps kept taken source)
    (stands : context.Stands ⟨block, later⟩ (plan.startedWith set) kept stack state machine) :
    ∃ value begun ending final,
      source.take? context.table outside state taken = some (value, begun) ∧
      context.ExecutesIfAny outside rounds (begun.put plan.element value) action ending final ∧
      ((ending.resumes (JumpTarget.loopLabel? targets) = true ∧ plan.continues = true ∧
          ∃ others at_, (∀ id < later, others id = kept id) ∧
            context.Stands ⟨block, later⟩ (plan.startedWith set) others stack final at_ ∧
            code.Goes outside (iteration.entered.position, machine)
              (iteration.ran.position, at_)) ∨
        (ending.resumes (JumpTarget.loopLabel? targets) = false ∧
          context.Arrives code outside rounds (iteration.entered.position, machine)
            ⟨block, total⟩ later kept stack frames targets after exit ending.ofLoop final)) := by
  have isOpen := iteration.appends_entered.isOpen_label iteration.labels.action (by simp)
  obtain ⟨value, begun, took, fetched⟩ :=
    brings_fetchElement executable loop iteration.isStarted few keeps iteration.isFetched stands
  obtain ⟨at_, isThere, crosses⟩ : code.Brings outside _ machine iteration.fetched _ := fetched
  have goesOn := crosses.goesOn (CodeStream.isTerminated_place isOpen.1)
  obtain ⟨ending, final, executes, arrives⟩ := acts goesOn isThere
  have fetches := crosses.goes (completes.earlier
    ((complete _ iteration.isRan).extends_.trans (iteration.extends_ran complete)))
  rw [CodeStream.position_place] at fetches
  obtain ⟨isExit, ends, isLeft⟩ := iteration.labelPosition_exit complete completes
  refine ⟨value, begun, ending, final, took, executes, ?_⟩
  rcases (arrives.ofGoes fetches).ofBody matches_ (ends ▸ isExit) isLeft with
    ⟨resumes, offset, machine_, goes, ⟨needed, others, isAgain, agree, standsBack⟩, isBack⟩ |
    ⟨stops, leaves⟩
  · simp only [LoopPlan.again, Option.ite_none_right_eq_some] at isAgain
    obtain ⟨comesBack, isNeeded⟩ := isAgain
    obtain rfl := Option.some.inj isNeeded
    refine .inl ⟨resumes, comesBack, others, machine_, agree, ?_, ?_⟩
    · have known : ∀ id : Nat, ((plan.startedWith set).insert plan.element).contains id = true →
          id < later := fun id member => (isThere.holds id member).1
      exact ⟨(standsBack.holds.recount known).within (VarSet.within_insert _ _),
        standsBack.operands, standsBack.memory⟩
    · rcases isBack with ⟨-, rfl⟩ | ⟨label, isNext, isPlaced⟩
      · exact goes
      · rw [iteration.labelPosition_next complete completes isNext, Option.some.injEq] at isPlaced
        exact isPlaced ▸ goes
  · exact .inr ⟨stops, leaves⟩

/-- A loop that comes back goes round from its test on. -/
theorem Acts.arrives_comingBack
    {leads : FlowExit → Label → Prop}
    {iteration : context.Iteration plan collection body stream after}
    (acts : iteration.Acts code outside rounds block later total set stack frames targets exit
      action)
    (executable : context.Executable strict)
    (loop : context.ExecutableLoop ⟨block, later⟩ plan)
    (complete : ∀ target, (body target).Appends)
    (completes : code.Completes after)
    (matches_ : JumpFrame.Matches leads frames targets)
    (comesBack : plan.continues = true)
    (moves : plan.resolution.strategy.isArray = true →
      (!plan.hasEmptyAction || context.hasSlot plan.element) = true)
    (firstLater : first ≤ later)
    (introduced : ∀ id ∈ plan.resolution.strategy.synthetics, first ≤ id ∧ id < later)
    (around : outer.block ∈ context.scope.enclosing block)
    (counted : total ≤ outer.count)
    (leaves : ∀ {kept : Nat → Option Word} {state : TreeState} {machine : Machine},
      context.Stands ⟨block, later⟩ (plan.startedWith set) kept stack state machine →
      context.StandsAt outer exit first kept stack state machine)
    (keeps : plan.Keeps kept 0 source)
    (stands : context.Stands ⟨block, later⟩ (plan.startedWith set) kept stack state machine) :
    ∃ ending final,
      context.Loops outside rounds state (JumpTarget.loopLabel? targets) plan.element source action 0
        ending final ∧
      context.Arrives code outside rounds (iteration.started.position, machine) outer first kept
        stack frames targets after exit ending final := by
  have wellFormed := executable.sound.wellFormed
  obtain ⟨next, isNext⟩ : ∃ next, iteration.labels.next = some next :=
    ⟨_, (LoopLabels.numbers iteration.isLabeled).2.2.2.trans (if_pos comesBack)⟩
  have repeats := iteration.repeats_testAtBottom isNext
  obtain ⟨moved, appends, movesOn, testsAgain⟩ :=
    exists_moved code outside set source executable loop comesBack moves repeats
  obtain ⟨isExit, ends, isLeft⟩ := iteration.labelPosition_exit complete completes
  have isAction := iteration.labelPosition_action complete completes
  have isRepeated := completes.earlier (iteration.extends_repeated complete)
  -- The test is placed where the loop has moved on.
  have same := sameCode_closeBody context plan iteration.ran
  have closed := (iteration.appends_ran complete).sameCode same
  have differs := (LoopLabels.ne_test iteration.isLabeled).2.2
  have remaining := (closed.placeAmong next (iteration.labels.outward.filter (· ≠ next))
    (by simp [LoopLabels.outward, isNext]) (by simp)).trans appends
  have isOther : iteration.labels.test ≠ next := by
    rintro rfl
    exact differs isNext
  have testOpen := remaining.isOpen_label iteration.labels.test
    (by simp [LoopLabels.outward, isNext, isOther])
  have tests : ∀ {taken : Nat} {kept : Nat → Option Word} {state : TreeState} {machine : Machine},
      plan.Keeps kept taken source →
      (source.isIterator = false → taken < 0x80000000) →
      context.Stands ⟨block, later⟩ (plan.startedWith set) kept stack state machine →
      ∃ at_, context.Stands ⟨block, later⟩ (plan.startedWith set) kept stack
          (source.test context.table outside state taken).2 at_ ∧
        code.Goes outside (moved.position, machine)
          (if (source.test context.table outside state taken).1 then iteration.entered.position
            else after.position, at_) := by
    intro taken kept state machine keeps few stands
    obtain ⟨at_, isThere, tests⟩ := testsAgain keeps few stands
    refine ⟨at_, isThere, ?_⟩
    split
    · next more => exact tests.goes more isRepeated _ isAction
    · next noMore => exact ends ▸ tests.falls (by simpa using noMore) isRepeated
  obtain ⟨_, -, tested⟩ := testsAgain keeps (fun _ => by decide) stands
  have isPlaced := isRepeated.earlier tested.extends_
  have begins : code.Goes outside (iteration.started.position, machine)
      (moved.position, machine) := by
    have isTest := isPlaced.placed (CodeStream.offset?_place testOpen.1)
    have isEntered := iteration.isEntered
    simp only [enterLoop, isNext, Except.ok.injEq] at isEntered
    have jumps := (MethodCode.Crosses.refl code outside iteration.labeled machine).goto
      iteration.labels.test
    rw [isEntered] at jumps
    have enteredCompletes := completes.earlier (iteration.extends_entered complete)
    rw [← LoopLabels.position_made iteration.isLabeled]
    exact jumps.goes rfl enteredCompletes _ isTest
  have acts_ : ∀ {taken : Nat} {kept : Nat → Option Word} {state : TreeState} {machine : Machine},
      plan.Keeps kept taken source →
      (source.isIterator = false → taken < 0x80000000) →
      context.Stands ⟨block, later⟩ (plan.startedWith set) kept stack state machine →
      ∃ value begun ending final,
        source.take? context.table outside state taken = some (value, begun) ∧
        context.ExecutesIfAny outside rounds (begun.put plan.element value) action ending final ∧
        ((ending.resumes (JumpTarget.loopLabel? targets) = true ∧
            ∃ others at_, (∀ id < first, others id = kept id) ∧
              plan.Keeps others (taken + 1) source ∧
              context.Stands ⟨block, later⟩ (plan.startedWith set) others stack final at_ ∧
              code.Goes outside (iteration.entered.position, machine) (moved.position, at_)) ∨
          (ending.resumes (JumpTarget.loopLabel? targets) = false ∧
            context.Arrives code outside rounds (iteration.entered.position, machine) outer first
              kept stack frames targets after exit ending.ofLoop final)) := by
    intro taken kept state machine keeps few stands
    obtain ⟨value, begun, ending, final, took, executes, ends⟩ :=
      acts.exists_round executable loop complete completes matches_ few keeps stands
    refine ⟨value, begun, ending, final, took, executes, ?_⟩
    rcases ends with ⟨resumes, -, others, at_, agree, standsBack, goes⟩ | ⟨stops, arrives⟩
    · have keepsOn := keeps.congr fun id member => agree id (introduced id member).2
      obtain ⟨further, apart, keepsOn, moved_⟩ := movesOn keepsOn standsBack
      obtain ⟨movedAt, standsMoved, crosses⟩ := moved_
      refine .inl ⟨resumes, further, movedAt, fun id before => ?_, keepsOn, standsMoved, ?_⟩
      · rw [apart id fun member => Nat.not_le.mpr before (introduced id member).1]
        exact agree id (Nat.lt_of_lt_of_le before firstLater)
      · have further := crosses.goes (isPlaced.earlier (CodeStream.extends_place testOpen.2))
        rw [CodeStream.position_place, same.position] at further
        exact goes.trans further
    · exact .inr ⟨stops, (arrives.weaken wellFormed around counted).keep firstLater
        fun _ _ => rfl⟩
  obtain ⟨ending, final, loops, arrives⟩ := arrives_rounds (keeps.limit_lt rounds) tests acts_
    isLeft leaves (source.limit rounds) (Nat.zero_add _) keeps stands (fun _ => Nat.zero_le _)
  exact ⟨ending, final, loops, arrives.ofGoes begins⟩

/-- A loop that never comes back tests for an element at its top and runs once. -/
theorem Acts.arrives_once
    {leads : FlowExit → Label → Prop}
    {iteration : context.Iteration plan collection body stream after}
    (acts : iteration.Acts code outside rounds block later total set stack frames targets exit
      action)
    (executable : context.Executable strict)
    (loop : context.ExecutableLoop ⟨block, later⟩ plan)
    (complete : ∀ target, (body target).Appends)
    (completes : code.Completes after)
    (matches_ : JumpFrame.Matches leads frames targets)
    (once : plan.continues = false)
    (firstLater : first ≤ later)
    (around : outer.block ∈ context.scope.enclosing block)
    (counted : total ≤ outer.count)
    (leaves : ∀ {kept : Nat → Option Word} {state : TreeState} {machine : Machine},
      context.Stands ⟨block, later⟩ (plan.startedWith set) kept stack state machine →
      context.StandsAt outer exit first kept stack state machine)
    (keeps : plan.Keeps kept 0 source)
    (measured : ∀ {collection : Value} {kind : ValueKind} {length : Nat},
      source = .array collection kind length → state.length? collection = some length)
    (stands : context.Stands ⟨block, later⟩ (plan.startedWith set) kept
      (plan.operands source ++ stack) state machine) :
    ∃ ending final,
      context.Loops outside rounds state (JumpTarget.loopLabel? targets) plan.element source action 0
        ending final ∧
      context.Arrives code outside rounds (iteration.started.position, machine) outer first kept
        stack frames targets after exit ending final := by
  have wellFormed := executable.sound.wellFormed
  have isCut : (source.isIterator = true ∧ rounds = 0) ∨
      (source.isIterator = true → 0 < rounds) := by
    by_cases isIterator : source.isIterator = true <;> simp [isIterator, Nat.eq_zero_or_pos]
  rcases isCut with ⟨isIterator, rfl⟩ | isFollowed
  · exact ⟨.cut, state, .cut isIterator, .cut (.refl _) stands.memory (Nat.zero_le _)⟩
  · have isNext : iteration.labels.next = none :=
      (LoopLabels.numbers iteration.isLabeled).2.2.2.trans (if_neg (by simp [once]))
    have tested := iteration.isEntered
    simp only [enterLoop, isNext] at tested
    have testOpen := (LoopLabels.appends_made iteration.isLabeled).isOpen_label
      iteration.labels.test (by simp)
    obtain ⟨isExit, ends, isLeft⟩ := iteration.labelPosition_exit complete completes
    have enteredCompletes := completes.earlier (iteration.extends_entered complete)
    obtain ⟨at_, isThere, decides⟩ : code.Decides outside iteration.labeled machine
        iteration.entered iteration.labels.exit _ _ :=
      decides_testAtTop executable loop once testOpen tested keeps measured stands
    rw [← LoopLabels.position_made iteration.isLabeled]
    generalize outcome : source.test context.table outside state 0 = answer at isThere decides
    obtain ⟨more, between⟩ := answer
    cases more with
    | false =>
        have goes := decides.goes rfl enteredCompletes _ isExit
        exact ⟨.completes, between, .exhausted isFollowed outcome,
          .completes isLeft (leaves isThere) (ends ▸ goes)⟩
    | true =>
        have goes := decides.falls rfl enteredCompletes
        obtain ⟨value, begun, ending, final, took, executes, acted⟩ :=
          acts.exists_round executable loop complete completes matches_ (fun _ => by decide) keeps
            isThere
        rcases acted with ⟨-, comesBack, -⟩ | ⟨stops, arrives⟩
        · exact absurd comesBack (by simp [once])
        · exact ⟨ending.ofLoop, final, .leaves isFollowed outcome took executes stops,
            ((arrives.weaken wellFormed around counted).keep firstLater
              fun _ _ => rfl).ofGoes goes⟩

/-- A loop does what its tree does, from where it has started. -/
theorem Acts.arrives
    {leads : FlowExit → Label → Prop}
    {iteration : context.Iteration plan collection body stream after}
    (acts : iteration.Acts code outside rounds block later total set stack frames targets exit
      action)
    (executable : context.Executable strict)
    (loop : context.ExecutableLoop ⟨block, later⟩ plan)
    (complete : ∀ target, (body target).Appends)
    (completes : code.Completes after)
    (matches_ : JumpFrame.Matches leads frames targets)
    (busy : context.isIdle plan = false)
    (firstLater : first ≤ later)
    (introduced : ∀ id ∈ plan.resolution.strategy.synthetics, first ≤ id ∧ id < later)
    (around : outer.block ∈ context.scope.enclosing block)
    (counted : total ≤ outer.count)
    (leaves : ∀ {kept : Nat → Option Word} {state : TreeState} {machine : Machine},
      context.Stands ⟨block, later⟩ (plan.startedWith set) kept stack state machine →
      context.StandsAt outer exit first kept stack state machine)
    (keeps : plan.Keeps kept 0 source)
    (measured : ∀ {collection : Value} {kind : ValueKind} {length : Nat},
      source = .array collection kind length → state.length? collection = some length)
    (stands : context.Stands ⟨block, later⟩ (plan.startedWith set) kept
      (plan.operands source ++ stack) state machine) :
    ∃ ending final,
      context.Loops outside rounds state (JumpTarget.loopLabel? targets) plan.element source action 0
        ending final ∧
      context.Arrives code outside rounds (iteration.started.position, machine) outer first kept
        stack frames targets after exit ending final := by
  cases continues : plan.continues with
  | false =>
      exact acts.arrives_once executable loop complete completes matches_ continues firstLater around
        counted leaves keeps measured stands
  | true =>
      rw [plan.operands_of_continues continues, List.nil_append] at stands
      refine acts.arrives_comingBack executable loop complete completes matches_ continues ?_
        firstLater introduced around counted leaves keeps stands
      intro isArray
      rw [isIdle, isArray, Bool.and_true] at busy
      cases isEmpty : plan.hasEmptyAction <;> simp_all

end Iteration

end CodeContext

end LoopLowering
