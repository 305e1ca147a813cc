import LoopLowering.Flow.Loops
import LoopLowering.Proofs.Flow.NullTables

namespace LoopLowering

/-!
# Flow states with more assigned

Code that starts with more locals assigned and the same known about references goes the
same ways. Wherever it gets, the same is known about references, and what was assigned in
addition still is.
-/

/-- On the same path, a second state has given locals assigned in addition. -/
inductive FlowState.Gains
    (definite potential : VarSet) :
    FlowState → FlowState → Prop
  | dead : Gains definite potential .deadEnd .deadEnd
  | live {assigned possible : VarSet} {nulls : NullFacts} :
      nulls.IsTable →
      Gains definite potential ⟨true, assigned, possible, nulls⟩
        ⟨true, assigned.union definite, possible.union potential, nulls⟩

namespace FlowState

variable
  {definite potential : VarSet}
  {first second : FlowState}

namespace Gains

/-- States that are reached are told apart by the locals assigned in addition. -/
theorem ofReached
    (reached : first.reachable = true)
    (otherReached : second.reachable = true)
    (isDefinite : second.definite = first.definite.union definite)
    (isPotential : second.potential = first.potential.union potential)
    (sameNulls : second.nulls = first.nulls)
    (table : first.nulls.IsTable) :
    first.Gains definite potential second := by
  obtain ⟨_, assigned, possible, nulls⟩ := first
  obtain ⟨_, otherAssigned, otherPossible, otherNulls⟩ := second
  simp only at reached otherReached isDefinite isPotential sameNulls table
  subst reached otherReached isDefinite isPotential sameNulls
  exact .live table

/-- Both states are reached, or neither is. -/
theorem reachable
    (gains : first.Gains definite potential second) :
    second.reachable = first.reachable := by
  cases gains <;> rfl

/-- The same is known about references. -/
theorem nulls
    (gains : first.Gains definite potential second) :
    second.nulls = first.nulls := by
  cases gains <;> rfl

/-- What is known about references is a table. -/
theorem isTable
    (gains : first.Gains definite potential second) :
    first.nulls.IsTable := by
  cases gains with
  | dead => exact NullFacts.isTable_nil
  | live table => exact table

/-- What is assigned on every path, if there is one. -/
theorem definite_eq
    (gains : first.Gains definite potential second)
    (reached : first.reachable = true) :
    second.definite = first.definite.union definite := by
  cases gains with
  | dead => cases reached
  | live _ => rfl

/-- What is assigned on some path, if there is one. -/
theorem potential_eq
    (gains : first.Gains definite potential second)
    (reached : first.reachable = true) :
    second.potential = first.potential.union potential := by
  cases gains with
  | dead => cases reached
  | live _ => rfl

/-- States that are not reached are dead ends. -/
theorem eq_deadEnd
    (gains : first.Gains definite potential second)
    (unreached : first.reachable = false) :
    first = .deadEnd ∧ second = .deadEnd := by
  cases gains with
  | dead => exact ⟨rfl, rfl⟩
  | live _ => cases unreached

/-- The same local is assigned. -/
theorem assign
    (gains : first.Gains definite potential second)
    (reached : first.reachable = true)
    (id : LocalId) :
    (first.assign id).Gains definite potential (second.assign id) := by
  refine .ofReached reached (gains.reachable.trans reached) ?_ ?_ gains.nulls gains.isTable
  · change second.definite.insert id = (first.definite.insert id).union definite
    rw [gains.definite_eq reached]
    ext other
    simp [Bool.or_right_comm]
  · change second.potential.insert id = (first.potential.insert id).union potential
    rw [gains.potential_eq reached]
    ext other
    simp [Bool.or_right_comm]

/-- The same becomes known about a reference. -/
theorem setNull
    (gains : first.Gains definite potential second)
    (reached : first.reachable = true)
    (id : LocalId)
    (status : NullStatus) :
    (first.setNull id status).Gains definite potential (second.setNull id status) :=
  .ofReached reached (gains.reachable.trans reached) (gains.definite_eq reached)
    (gains.potential_eq reached) (congrArg (NullFacts.set id status) gains.nulls)
    (gains.isTable.set id status)

/-- Nothing is known about references any more. -/
theorem withoutNulls
    (gains : first.Gains definite potential second)
    (reached : first.reachable = true) :
    first.withoutNulls.Gains definite potential second.withoutNulls :=
  .ofReached reached (gains.reachable.trans reached) (gains.definite_eq reached)
    (gains.potential_eq reached) rfl NullFacts.isTable_nil

variable
  {other otherSecond : FlowState}

/-- Paths meet. -/
theorem merge
    (gains : first.Gains definite potential second)
    (otherGains : other.Gains definite potential otherSecond) :
    (first.merge other).Gains definite potential (second.merge otherSecond) := by
  cases gains with
  | dead =>
      cases otherGains with
      | dead =>
          exact .dead
      | live table =>
          refine .ofReached rfl rfl rfl ?_ rfl table
          ext id
          simp [FlowState.merge, FlowState.deadEnd, FlowState.initial]
  | live table =>
      cases otherGains with
      | dead =>
          refine .ofReached rfl rfl rfl ?_ rfl table
          ext id
          simp [FlowState.merge, FlowState.deadEnd, FlowState.initial]
      | live _ =>
          refine .ofReached rfl rfl ?_ ?_ rfl (NullFacts.isTable_join _ _)
          · ext id
            cases isGained : definite.contains id <;> simp [FlowState.merge, isGained]
          · ext id
            simp [FlowState.merge, Bool.or_comm, Bool.or_left_comm, Bool.or_assoc]

/-- Code has run. -/
theorem afterRun
    (gains : first.Gains definite potential second)
    (reached : first.reachable = true)
    (otherGains : other.Gains definite potential otherSecond) :
    (first.afterRun other).Gains definite potential (second.afterRun otherSecond) := by
  cases otherGains with
  | dead =>
      exact gains
  | live table =>
      have alive : ∀ (assigned possible : VarSet) (nulls : NullFacts),
          FlowState.isDeadEnd ⟨true, assigned, possible, nulls⟩ = false :=
        fun _ _ _ => rfl
      simp only [FlowState.afterRun, alive, Bool.false_eq_true, if_false, if_true]
      refine .ofReached reached (gains.reachable.trans reached) ?_ ?_ ?_ (gains.isTable.override table)
      · simp only [gains.definite_eq reached]
        ext id
        simp [Bool.or_comm, Bool.or_left_comm, Bool.or_assoc]
      · simp only [gains.potential_eq reached]
        ext id
        simp [Bool.or_comm, Bool.or_left_comm, Bool.or_assoc]
      · rw [gains.nulls]

/-- Code may have run. -/
theorem afterOptional
    (gains : first.Gains definite potential second)
    (reached : first.reachable = true)
    (otherGains : other.Gains definite potential otherSecond) :
    (first.afterOptional other).Gains definite potential (second.afterOptional otherSecond) := by
  refine .ofReached reached (gains.reachable.trans reached) (gains.definite_eq reached) ?_ ?_
    (isTable_afterOptional gains.isTable)
  · simp only [FlowState.afterOptional, gains.potential_eq reached]
    cases otherGains with
    | dead =>
        ext id
        simp [FlowState.deadEnd, FlowState.initial]
    | live _ =>
        ext id
        simp [Bool.or_comm, Bool.or_left_comm, Bool.or_assoc]
  · simp only [FlowState.afterOptional, otherGains.reachable, otherGains.nulls, gains.nulls]

end Gains

/-- A state gains what it has assigned itself. -/
theorem gains_self
    {state : FlowState}
    (reached : state.reachable = true)
    (table : state.nulls.IsTable) :
    state.Gains state.definite state.potential state := by
  refine .ofReached reached reached ?_ ?_ rfl table
  · ext id
    simp
  · ext id
    simp

end FlowState

/-- Two jump targets of the same kind. Where a target is tracked, the paths that have
arrived at it by jumps have given locals assigned in addition. -/
inductive JumpRecord.Gains
    (definite potential : VarSet)
    (tracked : Bool) :
    JumpRecord → JumpRecord → Prop
  | loop {first second : LoopRecord} :
      (tracked = true → first.onBreak.Gains definite potential second.onBreak ∧
        first.onContinue.Gains definite potential second.onContinue) →
      Gains definite potential tracked (.loop first) (.loop second)
  | label {first second : LabelRecord} :
      second.name = first.name →
      second.labelsLoop = first.labelsLoop →
      (tracked = true → first.onBreak.Gains definite potential second.onBreak) →
      Gains definite potential tracked (.label first) (.label second)

/-- The jump targets around two statements, some of which are tracked. -/
inductive JumpStack.Gains
    (definite potential : VarSet) :
    List Bool → JumpStack → JumpStack → Prop
  | nil : Gains definite potential [] [] []
  | cons {tracked : Bool} {flags : List Bool} {record other : JumpRecord}
      {first second : JumpStack} :
      record.Gains definite potential tracked other →
      Gains definite potential flags first second →
      Gains definite potential (tracked :: flags) (record :: first) (other :: second)

namespace JumpStack

variable
  {definite potential : VarSet}
  {flags : List Bool}
  {state otherState : FlowState}

/-- Where a tracked loop is innermost on one side, it is on the other side. -/
theorem Gains.exists_loop
    {first second rest : JumpStack}
    (gains : first.Gains definite potential (true :: flags) second)
    {record : LoopRecord}
    (isPushed : first = .loop record :: rest) :
    ∃ other others, second = .loop other :: others ∧
      (record.onBreak.Gains definite potential other.onBreak ∧
        record.onContinue.Gains definite potential other.onContinue) ∧
      rest.Gains definite potential flags others := by
  subst isPushed
  obtain _ | ⟨⟨arrive⟩, others⟩ := gains
  exact ⟨_, _, rfl, arrive rfl, others⟩

/-- Where a tracked label is innermost on one side, it is on the other side. -/
theorem Gains.exists_label
    {first second rest : JumpStack}
    (gains : first.Gains definite potential (true :: flags) second)
    {record : LabelRecord}
    (isPushed : first = .label record :: rest) :
    ∃ other others, second = .label other :: others ∧
      record.onBreak.Gains definite potential other.onBreak ∧
      rest.Gains definite potential flags others := by
  subst isPushed
  obtain _ | ⟨_ | ⟨-, -, arrive⟩, others⟩ := gains
  exact ⟨_, _, rfl, arrive rfl, others⟩

/-- Two attempts to record a jump both fail for the same reason, or both succeed. -/
inductive RecordsGain
    (definite potential : VarSet)
    (flags : List Bool) :
    Except JumpError JumpStack → Except JumpError JumpStack → Prop
  | ok {first second : JumpStack} :
      first.Gains definite potential flags second →
      RecordsGain definite potential flags (.ok first) (.ok second)
  | error (cause : JumpError) :
      RecordsGain definite potential flags (.error cause) (.error cause)

theorem RecordsGain.cons
    {tracked : Bool}
    {record other : JumpRecord}
    {first second : Except JumpError JumpStack}
    (gains : record.Gains definite potential tracked other)
    (records : RecordsGain definite potential flags first second) :
    RecordsGain definite potential (tracked :: flags) (first.map (record :: ·))
      (second.map (other :: ·)) := by
  cases records with
  | ok rest => exact .ok (.cons gains rest)
  | error cause => exact .error cause

/-- A change of a target is recorded on both sides. -/
theorem RecordsGain.ofOption
    (cause : JumpError) :
    ∀ {first second : Option JumpStack},
      Option.Rel (JumpStack.Gains definite potential flags) first second →
      RecordsGain definite potential flags
        (match first with
        | some stack => .ok stack
        | none => .error cause)
        (match second with
        | some stack => .ok stack
        | none => .error cause)
  | _, _, .some gains => .ok gains
  | _, _, .none => .error cause

/-- One more target around both statements. -/
theorem gains_map_cons
    {tracked : Bool}
    {record other : JumpRecord}
    {first second : Option JumpStack}
    (gains : record.Gains definite potential tracked other)
    (changed : Option.Rel (JumpStack.Gains definite potential flags) first second) :
    Option.Rel (JumpStack.Gains definite potential (tracked :: flags))
      (first.map (record :: ·)) (second.map (other :: ·)) := by
  cases changed with
  | some rest => exact .some (.cons gains rest)
  | none => exact .none

/-- The innermost loops are changed on both sides. -/
theorem gains_changeLoop
    {change otherChange : LoopRecord → LoopRecord}
    (changes : ∀ {tracked : Bool} {first second : LoopRecord},
      JumpRecord.Gains definite potential tracked (.loop first) (.loop second) →
      JumpRecord.Gains definite potential tracked (.loop (change first))
        (.loop (otherChange second))) :
    ∀ {flags : List Bool} {first second : JumpStack},
      first.Gains definite potential flags second →
      Option.Rel (JumpStack.Gains definite potential flags) (first.changeLoop change)
        (second.changeLoop otherChange)
  | [], [], [], .nil => .none
  | _ :: _, .loop _ :: _, .loop _ :: _, .cons gains rest => .some (.cons (changes gains) rest)
  | _ :: _, .label _ :: _, .label _ :: _, .cons gains rest =>
      gains_map_cons gains (gains_changeLoop changes rest)

/-- The innermost labels of a name are changed on both sides. -/
theorem gains_changeLabel
    (name : String)
    {change otherChange : LabelRecord → LabelRecord}
    (changes : ∀ {tracked : Bool} {first second : LabelRecord},
      JumpRecord.Gains definite potential tracked (.label first) (.label second) →
      JumpRecord.Gains definite potential tracked (.label (change first))
        (.label (otherChange second))) :
    ∀ {flags : List Bool} {first second : JumpStack},
      first.Gains definite potential flags second →
      Option.Rel (JumpStack.Gains definite potential flags) (first.changeLabel name change)
        (second.changeLabel name otherChange)
  | [], [], [], .nil => .none
  | _ :: _, .loop _ :: _, .loop _ :: _, .cons gains rest =>
      gains_map_cons gains (gains_changeLabel name changes rest)
  | _ :: _, .label _ :: _, .label _ :: _, .cons gains rest => by
      have others := gains_map_cons gains (gains_changeLabel name changes rest)
      have changed := changes gains
      obtain _ | ⟨sameName, -, -⟩ := gains
      simp only [changeLabel, sameName]
      split
      · exact .some (.cons changed rest)
      · exact others

/-- A break is recorded on both sides. -/
theorem gains_recordBreak
    (label : Option String)
    (gains : state.Gains definite potential otherState)
    {first second : JumpStack}
    (gainStacks : first.Gains definite potential flags second) :
    RecordsGain definite potential flags (first.recordBreak label state)
      (second.recordBreak label otherState) := by
  cases label with
  | none =>
      refine .ofOption _ (gains_changeLoop (fun target => ?_) gainStacks)
      obtain ⟨arrive⟩ | _ := target
      exact .loop fun tracked => ⟨(arrive tracked).1.merge gains, (arrive tracked).2⟩
  | some name =>
      refine .ofOption _ (gains_changeLabel name (fun target => ?_) gainStacks)
      obtain _ | ⟨sameName, sameKind, arrive⟩ := target
      exact .label sameName sameKind fun tracked => (arrive tracked).merge gains

/-- A continue reaches a loop on both sides. -/
theorem gains_addContinue
    (gains : state.Gains definite potential otherState)
    {tracked : Bool}
    {first second : LoopRecord}
    (target : JumpRecord.Gains definite potential tracked (.loop first) (.loop second)) :
    JumpRecord.Gains definite potential tracked (.loop (first.addContinue state))
      (.loop (second.addContinue otherState)) := by
  obtain ⟨arrive⟩ | _ := target
  exact .loop fun tracked => ⟨(arrive tracked).1, (arrive tracked).2.merge gains⟩

/-- A labeled continue is recorded on both sides. -/
theorem gains_recordContinueTo
    (name : String)
    (gains : state.Gains definite potential otherState) :
    ∀ {flags : List Bool} {first second : JumpStack},
      first.Gains definite potential flags second →
      RecordsGain definite potential flags (first.recordContinueTo name state)
        (second.recordContinueTo name otherState)
  | [], [], [], .nil => .error _
  | _ :: _, .label _ :: _, .label _ :: _, .cons (.label sameName sameKind onBreak) rest => by
      have others := gains_recordContinueTo name gains rest
      simp only [recordContinueTo, sameName]
      split
      · exact .error _
      · exact others.cons (.label sameName sameKind onBreak)
  | _ :: _ :: _, .loop _ :: .label _ :: _, .loop _ :: .label _ :: _,
      .cons inner (.cons (.label sameName sameKind onLeave) rest) => by
      have others := gains_recordContinueTo name gains
        (.cons (.label sameName sameKind onLeave) rest)
      have resumed := gains_addContinue gains inner
      simp only [recordContinueTo, sameName, sameKind] at others ⊢
      split
      · split
        · exact .ok (.cons resumed (.cons (.label sameName sameKind onLeave) rest))
        · exact .error _
      · next different =>
          simp only [different, if_false] at others
          exact others.cons inner
  | _ :: [], .loop _ :: [], .loop _ :: [], .cons _ .nil => .error _
  | _ :: _ :: _, .loop _ :: .loop _ :: _, .loop _ :: .loop _ :: _, .cons record rest => by
      have others := gains_recordContinueTo name gains rest
      simp only [recordContinueTo]
      exact others.cons record

/-- A continue is recorded on both sides. -/
theorem gains_recordContinue
    (label : Option String)
    (gains : state.Gains definite potential otherState)
    {first second : JumpStack}
    (gainStacks : first.Gains definite potential flags second) :
    RecordsGain definite potential flags (first.recordContinue label state)
      (second.recordContinue label otherState) := by
  cases label with
  | none =>
      exact .ofOption _ (gains_changeLoop (gains_addContinue gains) gainStacks)
  | some name =>
      exact gains_recordContinueTo name gains gainStacks

/-- The same jumps arrive at the targets of two stacks. -/
inductive SameArrivals :
    JumpStack → JumpStack → Prop
  | nil : SameArrivals [] []
  | loop {first second : LoopRecord} {rest others : JumpStack} :
      second.onBreak = first.onBreak →
      second.onContinue = first.onContinue →
      SameArrivals rest others →
      SameArrivals (.loop first :: rest) (.loop second :: others)
  | label {record : LabelRecord} {rest others : JumpStack} :
      SameArrivals rest others →
      SameArrivals (.label record :: rest) (.label record :: others)

theorem SameArrivals.refl :
    ∀ stack : JumpStack, stack.SameArrivals stack
  | [] => .nil
  | .loop _ :: rest => .loop rfl rfl (.refl rest)
  | .label _ :: rest => .label (.refl rest)

/-- Deferring an assignment to a final local is no jump. -/
theorem sameArrivals_deferFinal
    (scopes : MethodScope)
    (id : LocalId)
    (declaredIn : ScopeId)
    (span : Span) :
    ∀ stack : JumpStack, stack.SameArrivals (stack.deferFinal scopes id declaredIn span)
  | [] => .nil
  | .label _ :: rest => .label (sameArrivals_deferFinal scopes id declaredIn span rest)
  | .loop record :: rest => by
      simp only [deferFinal]
      split
      · exact .refl _
      · exact .loop rfl rfl (sameArrivals_deferFinal scopes id declaredIn span rest)

/-- Deferring the use of a reference is no jump. -/
theorem sameArrivals_deferNull
    (scopes : MethodScope)
    (id : LocalId)
    (declaredIn : ScopeId)
    (span : Span) :
    ∀ stack : JumpStack, stack.SameArrivals (stack.deferNull scopes id declaredIn span)
  | [] => .nil
  | .label _ :: rest => .label (sameArrivals_deferNull scopes id declaredIn span rest)
  | .loop record :: rest => by
      simp only [deferNull]
      split
      · exact .refl _
      · exact .loop rfl rfl (.refl rest)

/-- Only jumps decide on what the targets gain. -/
theorem Gains.ofSameArrivals :
    ∀ {flags : List Bool} {first second firstLater secondLater : JumpStack},
      first.Gains definite potential flags second →
      first.SameArrivals firstLater →
      second.SameArrivals secondLater →
      firstLater.Gains definite potential flags secondLater
  | [], [], [], [], [], .nil, .nil, .nil => .nil
  | _ :: _, .loop _ :: _, .loop _ :: _, .loop _ :: _, .loop _ :: _, .cons (.loop arrive) gains,
      .loop onBreak onContinue same, .loop otherOnBreak otherOnContinue otherSame => by
      refine .cons (.loop ?_) (gains.ofSameArrivals same otherSame)
      rw [onBreak, onContinue, otherOnBreak, otherOnContinue]
      exact arrive
  | _ :: _, .label _ :: _, .label _ :: _, .label _ :: _, .label _ :: _, .cons record gains,
      .label same, .label otherSame =>
      .cons record (gains.ofSameArrivals same otherSame)

end JumpStack

end LoopLowering
