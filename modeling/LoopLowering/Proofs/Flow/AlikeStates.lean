import Mathlib.Data.List.Forall2
import LoopLowering.Flow.JumpStack

namespace LoopLowering

/-!
# Flow states that differ in nullness

What is known about nullness never decides on what is reached or assigned. Flow
states and jump targets that agree in all but nullness still do so after the same
steps.
-/

/-- Two flow states agree in all but what is known about nullness. -/
structure FlowState.AssignsAlike
    (first second : FlowState) :
    Prop where
  reachable : second.reachable = first.reachable
  definite : second.definite = first.definite
  potential : second.potential = first.potential

namespace FlowState

namespace AssignsAlike

variable
  {first second third : FlowState}

theorem refl
    (state : FlowState) :
    state.AssignsAlike state :=
  ⟨rfl, rfl, rfl⟩

theorem symm
    (alike : first.AssignsAlike second) :
    second.AssignsAlike first :=
  ⟨alike.reachable.symm, alike.definite.symm, alike.potential.symm⟩

theorem trans
    (alike : first.AssignsAlike second)
    (other : second.AssignsAlike third) :
    first.AssignsAlike third :=
  ⟨other.reachable.trans alike.reachable, other.definite.trans alike.definite,
    other.potential.trans alike.potential⟩

/-- Without nullness, such states are the same. -/
theorem withoutNulls_eq
    (alike : first.AssignsAlike second) :
    second.withoutNulls = first.withoutNulls := by
  simp only [withoutNulls, alike.reachable, alike.definite, alike.potential]

/-- The same locals are assigned. -/
theorem isAssigned_eq
    (alike : first.AssignsAlike second)
    (id : LocalId) :
    second.isAssigned id = first.isAssigned id := by
  simp only [isAssigned, alike.reachable, alike.definite]

/-- The same locals may be assigned. -/
theorem mayBeAssigned_eq
    (alike : first.AssignsAlike second)
    (id : LocalId) :
    second.mayBeAssigned id = first.mayBeAssigned id := by
  simp only [mayBeAssigned, alike.potential]

/-- Forgetting what is known about nullness changes nothing. -/
theorem withoutNulls
    (alike : first.AssignsAlike second) :
    first.withoutNulls.AssignsAlike second.withoutNulls :=
  ⟨alike.reachable, alike.definite, alike.potential⟩

/-- The same local is assigned. -/
theorem assign
    (alike : first.AssignsAlike second)
    (id : LocalId) :
    (first.assign id).AssignsAlike (second.assign id) :=
  ⟨alike.reachable, congrArg (VarSet.insert id) alike.definite,
    congrArg (VarSet.insert id) alike.potential⟩

/-- What is known about nullness does not matter. -/
theorem setNull
    (state : FlowState)
    (id : LocalId)
    (status : NullStatus) :
    state.AssignsAlike (state.setNull id status) :=
  ⟨rfl, rfl, rfl⟩

variable
  {other otherSecond : FlowState}

/-- Paths that agree meet alike. -/
theorem merge
    (alike : first.AssignsAlike second)
    (otherAlike : other.AssignsAlike otherSecond) :
    (first.merge other).AssignsAlike (second.merge otherSecond) := by
  unfold FlowState.merge
  simp only [alike.reachable, otherAlike.reachable]
  split
  · exact ⟨rfl, by simp only [alike.definite, otherAlike.definite],
      by simp only [alike.potential, otherAlike.potential]⟩
  · exact ⟨rfl, alike.definite, by simp only [alike.potential, otherAlike.potential]⟩
  · exact ⟨rfl, otherAlike.definite, by simp only [alike.potential, otherAlike.potential]⟩
  · exact ⟨rfl, by simp only [alike.definite, otherAlike.definite],
      by simp only [alike.potential, otherAlike.potential]⟩

/-- Code that may have run is followed alike. -/
theorem afterOptional
    (alike : first.AssignsAlike second)
    (otherAlike : other.AssignsAlike otherSecond) :
    (first.afterOptional other).AssignsAlike (second.afterOptional otherSecond) :=
  ⟨alike.reachable, alike.definite,
    by simp only [FlowState.afterOptional, alike.potential, otherAlike.potential]⟩

end AssignsAlike

/-- What either of two paths may assign may be assigned where they meet. -/
theorem potential_merge
    (first second : FlowState) :
    (first.merge second).potential = first.potential.union second.potential := by
  unfold merge
  split <;> rfl

/-- After code that has run, what either has assigned is assigned. A dead end has
assigned nothing. -/
theorem afterRun_assigns
    (state run : FlowState) :
    state.afterRun run |>.AssignsAlike
      { state with
        definite := state.definite.union run.definite
        potential := state.potential.union run.potential } := by
  unfold afterRun
  split
  · next dead =>
      simp only [isDeadEnd, VarSet.isEmpty_iff, Bool.and_eq_true] at dead
      refine ⟨rfl, ?_, ?_⟩ <;> ext id <;> simp [dead]
  · exact ⟨rfl, rfl, rfl⟩

/-- Code that has run is followed alike. -/
theorem AssignsAlike.afterRun
    {first second run otherRun : FlowState}
    (alike : first.AssignsAlike second)
    (runAlike : run.AssignsAlike otherRun) :
    (first.afterRun run).AssignsAlike (second.afterRun otherRun) := by
  refine (afterRun_assigns first run).trans (AssignsAlike.trans ?_
    (afterRun_assigns second otherRun).symm)
  exact ⟨alike.reachable, by simp only [alike.definite, runAlike.definite],
    by simp only [alike.potential, runAlike.potential]⟩

end FlowState

/-- Two jump targets have collected states that agree in all but nullness. -/
inductive JumpRecord.CollectsAlike :
    JumpRecord → JumpRecord → Prop
  | loop {first second : LoopRecord} :
      second.scope = first.scope →
      first.onBreak.AssignsAlike second.onBreak →
      first.onContinue.AssignsAlike second.onContinue →
      second.deferredFinals = first.deferredFinals →
      CollectsAlike (.loop first) (.loop second)
  | label {first second : LabelRecord} :
      second.name = first.name →
      second.labelsLoop = first.labelsLoop →
      first.onBreak.AssignsAlike second.onBreak →
      CollectsAlike (.label first) (.label second)

namespace JumpRecord.CollectsAlike

theorem refl :
    ∀ record : JumpRecord, record.CollectsAlike record
  | .loop _ => .loop rfl (.refl _) (.refl _) rfl
  | .label _ => .label rfl rfl (.refl _)

theorem symm
    {first second : JumpRecord} :
    first.CollectsAlike second → second.CollectsAlike first
  | .loop scope onBreak onContinue finals =>
      .loop scope.symm onBreak.symm onContinue.symm finals.symm
  | .label name labelsLoop onBreak => .label name.symm labelsLoop.symm onBreak.symm

theorem trans
    {first second third : JumpRecord} :
    first.CollectsAlike second → second.CollectsAlike third → first.CollectsAlike third
  | .loop scope onBreak onContinue finals, .loop scope' onBreak' onContinue' finals' =>
      .loop (scope'.trans scope) (onBreak.trans onBreak') (onContinue.trans onContinue')
        (finals'.trans finals)
  | .label name labelsLoop onBreak, .label name' labelsLoop' onBreak' =>
      .label (name'.trans name) (labelsLoop'.trans labelsLoop) (onBreak.trans onBreak')

end JumpRecord.CollectsAlike

/-- The targets around two statements have collected states that agree in all but
nullness. -/
abbrev JumpStack.CollectsAlike
    (first second : JumpStack) :
    Prop :=
  List.Forall₂ JumpRecord.CollectsAlike first second

/-- Two attempts to record a jump both fail for the same reason, or both succeed
with targets that agree in all but nullness. -/
inductive JumpStack.RecordsAlike :
    Except JumpError JumpStack → Except JumpError JumpStack → Prop
  | ok {first second : JumpStack} :
      first.CollectsAlike second → RecordsAlike (.ok first) (.ok second)
  | error (cause : JumpError) :
      RecordsAlike (.error cause) (.error cause)

namespace JumpStack

variable
  {state otherState : FlowState}

theorem RecordsAlike.cons
    {record other : JumpRecord}
    {first second : Except JumpError JumpStack}
    (alike : record.CollectsAlike other)
    (records : RecordsAlike first second) :
    RecordsAlike (first.map (record :: ·)) (second.map (other :: ·)) := by
  cases records with
  | ok rest => exact .ok (.cons alike rest)
  | error cause => exact .error cause

/-- A change of a target is recorded alike. -/
theorem RecordsAlike.ofOption
    (cause : JumpError) :
    ∀ {first second : Option JumpStack},
      Option.Rel CollectsAlike first second →
      RecordsAlike
        (match first with
        | some stack => .ok stack
        | none => .error cause)
        (match second with
        | some stack => .ok stack
        | none => .error cause)
  | _, _, .some alike => .ok alike
  | _, _, .none => .error cause

/-- One more target around both statements. -/
theorem rel_cons
    {record other : JumpRecord}
    {first second : Option JumpStack}
    (alike : record.CollectsAlike other)
    (changed : Option.Rel CollectsAlike first second) :
    Option.Rel CollectsAlike (first.map (record :: ·)) (second.map (other :: ·)) := by
  cases changed with
  | some rest => exact .some (.cons alike rest)
  | none => exact .none

/-- The innermost loops are changed alike. -/
theorem collectsAlike_changeLoop
    {change otherChange : LoopRecord → LoopRecord}
    (changes : ∀ {first second : LoopRecord},
      JumpRecord.CollectsAlike (.loop first) (.loop second) →
      JumpRecord.CollectsAlike (.loop (change first)) (.loop (otherChange second))) :
    ∀ {first second : JumpStack},
      first.CollectsAlike second →
      Option.Rel CollectsAlike (first.changeLoop change) (second.changeLoop otherChange)
  | [], [], .nil => .none
  | .loop _ :: _, .loop _ :: _, .cons alike rest => .some (.cons (changes alike) rest)
  | .label _ :: _, .label _ :: _, .cons alike rest =>
      rel_cons alike (collectsAlike_changeLoop changes rest)

/-- The innermost labels of a name are changed alike. -/
theorem collectsAlike_changeLabel
    (name : String)
    {change otherChange : LabelRecord → LabelRecord}
    (changes : ∀ {first second : LabelRecord},
      JumpRecord.CollectsAlike (.label first) (.label second) →
      JumpRecord.CollectsAlike (.label (change first)) (.label (otherChange second))) :
    ∀ {first second : JumpStack},
      first.CollectsAlike second →
      Option.Rel CollectsAlike (first.changeLabel name change)
        (second.changeLabel name otherChange)
  | [], [], .nil => .none
  | .loop _ :: _, .loop _ :: _, .cons alike rest =>
      rel_cons alike (collectsAlike_changeLabel name changes rest)
  | .label _ :: _, .label _ :: _, .cons alike rest => by
      have others := rel_cons alike (collectsAlike_changeLabel name changes rest)
      have changed := changes alike
      obtain _ | ⟨sameName, -, -⟩ := alike
      simp only [changeLabel, sameName]
      split
      · exact .some (.cons changed rest)
      · exact others

/-- A break leaves a loop alike. -/
theorem collectsAlike_addBreak
    (alike : state.AssignsAlike otherState)
    {first second : LoopRecord} :
    JumpRecord.CollectsAlike (.loop first) (.loop second) →
      JumpRecord.CollectsAlike (.loop (first.addBreak state)) (.loop (second.addBreak otherState))
  | .loop scope onBreak onContinue finals => .loop scope (onBreak.merge alike) onContinue finals

/-- A continue resumes a loop alike. -/
theorem collectsAlike_addContinue
    (alike : state.AssignsAlike otherState)
    {first second : LoopRecord} :
    JumpRecord.CollectsAlike (.loop first) (.loop second) →
      JumpRecord.CollectsAlike (.loop (first.addContinue state))
        (.loop (second.addContinue otherState))
  | .loop scope onBreak onContinue finals => .loop scope onBreak (onContinue.merge alike) finals

/-- A break leaves a labeled statement alike. -/
theorem collectsAlike_addLabeledBreak
    (alike : state.AssignsAlike otherState)
    {first second : LabelRecord} :
    JumpRecord.CollectsAlike (.label first) (.label second) →
      JumpRecord.CollectsAlike (.label (first.addBreak state))
        (.label (second.addBreak otherState))
  | .label name labelsLoop onBreak => .label name labelsLoop (onBreak.merge alike)

/-- A break is recorded alike. -/
theorem recordsAlike_recordBreak
    (label : Option String)
    (alike : state.AssignsAlike otherState)
    {first second : JumpStack}
    (alikeStacks : first.CollectsAlike second) :
    RecordsAlike (first.recordBreak label state) (second.recordBreak label otherState) := by
  cases label with
  | none =>
      exact .ofOption _ (collectsAlike_changeLoop (collectsAlike_addBreak alike) alikeStacks)
  | some name =>
      exact .ofOption _
        (collectsAlike_changeLabel name (collectsAlike_addLabeledBreak alike) alikeStacks)

/-- A labeled continue is recorded alike. -/
theorem recordsAlike_recordContinueTo
    (name : String)
    (alike : state.AssignsAlike otherState) :
    ∀ {first second : JumpStack},
      first.CollectsAlike second →
      RecordsAlike (first.recordContinueTo name state) (second.recordContinueTo name otherState)
  | [], [], .nil => .error _
  | .label _ :: _, .label _ :: _, .cons (.label sameName sameKind onBreak) rest => by
      have others := recordsAlike_recordContinueTo name alike rest
      simp only [recordContinueTo, sameName]
      split
      · exact .error _
      · exact others.cons (.label sameName sameKind onBreak)
  | .loop _ :: .label _ :: _, .loop _ :: .label _ :: _,
      .cons (.loop scope onBreak onContinue finals)
        (.cons (.label sameName sameKind onLeave) rest) => by
      have others := recordsAlike_recordContinueTo name alike
        (.cons (.label sameName sameKind onLeave) rest)
      simp only [recordContinueTo, sameName, sameKind] at others ⊢
      split
      · split
        · exact .ok (.cons (.loop scope onBreak (onContinue.merge alike) finals)
            (.cons (.label sameName sameKind onLeave) rest))
        · exact .error _
      · next different =>
          simp only [different, if_false] at others
          exact others.cons (.loop scope onBreak onContinue finals)
  | .loop _ :: [], .loop _ :: [], .cons _ .nil => .error _
  | .loop _ :: .loop _ :: _, .loop _ :: .loop _ :: _, .cons record rest => by
      have others := recordsAlike_recordContinueTo name alike rest
      simp only [recordContinueTo]
      exact others.cons record

/-- A continue is recorded alike. -/
theorem recordsAlike_recordContinue
    (label : Option String)
    (alike : state.AssignsAlike otherState)
    {first second : JumpStack}
    (alikeStacks : first.CollectsAlike second) :
    RecordsAlike (first.recordContinue label state) (second.recordContinue label otherState) := by
  cases label with
  | none =>
      exact .ofOption _ (collectsAlike_changeLoop (collectsAlike_addContinue alike) alikeStacks)
  | some name =>
      exact recordsAlike_recordContinueTo name alike alikeStacks

/-- An assignment to a final local is deferred alike. -/
theorem collectsAlike_deferFinal
    (scopes : MethodScope)
    (id : LocalId)
    (declaredIn : ScopeId)
    (span : Span) :
    ∀ {first second : JumpStack},
      first.CollectsAlike second →
      (first.deferFinal scopes id declaredIn span).CollectsAlike
        (second.deferFinal scopes id declaredIn span)
  | [], [], .nil => .nil
  | .label _ :: _, .label _ :: _, .cons alike rest =>
      .cons alike (collectsAlike_deferFinal scopes id declaredIn span rest)
  | .loop _ :: _, .loop _ :: _, .cons (.loop scope onBreak onContinue finals) rest => by
      simp only [deferFinal, scope, finals]
      split
      · exact .cons (.loop scope onBreak onContinue finals) rest
      · exact .cons (.loop rfl onBreak onContinue rfl)
          (collectsAlike_deferFinal scopes id declaredIn span rest)

/-- Targets collect like themselves. -/
theorem collectsAlike_refl :
    ∀ stack : JumpStack, stack.CollectsAlike stack
  | [] => .nil
  | record :: rest => .cons (.refl record) (collectsAlike_refl rest)

/-- Targets that agree with the same agree. -/
theorem collectsAlike_trans :
    ∀ {first second third : JumpStack},
      first.CollectsAlike second →
      second.CollectsAlike third →
      first.CollectsAlike third
  | [], [], [], .nil, .nil => .nil
  | _ :: _, _ :: _, _ :: _, .cons alike rest, .cons other others =>
      .cons (alike.trans other) (collectsAlike_trans rest others)

/-- That the use of a reference is deferred does not matter. -/
theorem collectsAlike_deferNull
    (scopes : MethodScope)
    (id : LocalId)
    (declaredIn : ScopeId)
    (span : Span) :
    ∀ stack : JumpStack, stack.CollectsAlike (stack.deferNull scopes id declaredIn span)
  | [] => .nil
  | .label record :: rest =>
      .cons (.refl _) (collectsAlike_deferNull scopes id declaredIn span rest)
  | .loop record :: rest => by
      simp only [deferNull]
      split
      · exact collectsAlike_refl _
      · exact .cons (.loop rfl (.refl _) (.refl _) rfl) (collectsAlike_refl rest)

end JumpStack

end LoopLowering
