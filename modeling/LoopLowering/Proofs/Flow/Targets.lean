import LoopLowering.Flow.JumpStack

namespace LoopLowering

/-!
# Jump targets that collect flow states

A jump target has collected a state once a jump was recorded there, and jumps
recorded later only take assigned locals away. So what is assigned wherever
control arrives can be read off a target once the statement is left.
-/

namespace VarSet

/-- Whatever is in the first set is in the second. -/
def Within
    (first second : VarSet) :
    Prop :=
  ∀ id, first.contains id = true → second.contains id = true

@[refl] theorem Within.refl
    (set : VarSet) :
    set.Within set :=
  fun _ => id

theorem Within.trans
    {first second third : VarSet}
    (inner : first.Within second)
    (outer : second.Within third) :
    first.Within third :=
  fun id member => outer id (inner id member)

/-- A set is within itself with another local. -/
theorem within_insert
    (id : LocalId)
    (set : VarSet) :
    set.Within (set.insert id) := by
  intro other member
  simp [member]

/-- A set is within its union with another. -/
theorem within_union_left
    (first second : VarSet) :
    first.Within (first.union second) := by
  intro other member
  simp [member]

/-- Another set is within the union. -/
theorem within_union_right
    (first second : VarSet) :
    second.Within (first.union second) := by
  intro other member
  simp [member]

/-- A union of parts of a set is within the set. -/
theorem Within.union
    {first second whole : VarSet}
    (left : first.Within whole)
    (right : second.Within whole) :
    (first.union second).Within whole := by
  intro other member
  rw [contains_union, Bool.or_eq_true] at member
  exact member.elim (left other) (right other)

/-- An intersection is within the first set. -/
theorem inter_within_left
    (first second : VarSet) :
    (first.inter second).Within first := by
  intro other member
  rw [contains_inter, Bool.and_eq_true] at member
  exact member.1

/-- An intersection is within the second set. -/
theorem inter_within_right
    (first second : VarSet) :
    (first.inter second).Within second := by
  intro other member
  rw [contains_inter, Bool.and_eq_true] at member
  exact member.2

end VarSet

namespace FlowState

/-- A point that may be reached on more paths than another, with fewer locals
assigned. -/
def Narrows
    (before after : FlowState) :
    Prop :=
  before.reachable = true → after.reachable = true ∧ after.definite.Within before.definite

@[refl] theorem Narrows.refl
    (state : FlowState) :
    state.Narrows state :=
  fun reached => ⟨reached, .refl _⟩

theorem Narrows.trans
    {first second third : FlowState}
    (earlier : first.Narrows second)
    (later : second.Narrows third) :
    first.Narrows third := by
  intro reached
  obtain ⟨secondReached, secondWithin⟩ := earlier reached
  obtain ⟨thirdReached, thirdWithin⟩ := later secondReached
  exact ⟨thirdReached, thirdWithin.trans secondWithin⟩

/-- Where two paths meet, what is assigned on the first is narrowed. -/
theorem narrows_merge_left
    (first second : FlowState) :
    first.Narrows (first.merge second) := by
  intro reached
  cases other : second.reachable with
  | false =>
      simp [merge, reached, other, VarSet.Within.refl]
  | true =>
      simp [merge, reached, other, VarSet.inter_within_left]

/-- Where two paths meet, what is assigned on the second is narrowed. -/
theorem narrows_merge_right
    (first second : FlowState) :
    second.Narrows (first.merge second) := by
  intro reached
  cases other : first.reachable with
  | false =>
      simp [merge, reached, other, VarSet.Within.refl]
  | true =>
      simp [merge, reached, other, VarSet.inter_within_right]

end FlowState

namespace JumpRecord

/-- A jump target at an earlier and at a later time. -/
def Narrows :
    (before after : JumpRecord) → Prop
  | .loop before, .loop after =>
      before.onBreak.Narrows after.onBreak ∧ before.onContinue.Narrows after.onContinue
  | .label before, .label after =>
      after.name = before.name ∧ after.labelsLoop = before.labelsLoop ∧
        before.onBreak.Narrows after.onBreak
  | _, _ => False

@[refl] theorem Narrows.refl
    (record : JumpRecord) :
    record.Narrows record := by
  cases record with
  | loop record =>
      exact ⟨.refl _, .refl _⟩
  | label record =>
      exact ⟨rfl, rfl, .refl _⟩

theorem Narrows.trans
    {first second third : JumpRecord}
    (earlier : first.Narrows second)
    (later : second.Narrows third) :
    first.Narrows third := by
  cases first <;> cases second <;> cases third <;>
    simp only [Narrows] at earlier later ⊢
  · exact ⟨earlier.1.trans later.1, earlier.2.trans later.2⟩
  · exact ⟨later.1.trans earlier.1, later.2.1.trans earlier.2.1, earlier.2.2.trans later.2.2⟩

end JumpRecord

namespace JumpStack

/-- The jump targets around a statement at an earlier and at a later time. -/
def Narrows :
    (before after : JumpStack) → Prop
  | [], [] => True
  | first :: rest, second :: others => first.Narrows second ∧ Narrows rest others
  | _, _ => False

@[refl] theorem Narrows.refl :
    ∀ stack : JumpStack,
      Narrows stack stack
  | [] => trivial
  | record :: rest => ⟨.refl record, .refl rest⟩

theorem Narrows.trans :
    ∀ {first second third : JumpStack},
      Narrows first second →
      Narrows second third →
      Narrows first third
  | [], [], [], _, _ => trivial
  | _ :: _, _ :: _, _ :: _, earlier, later =>
      ⟨earlier.1.trans later.1, earlier.2.trans later.2⟩
  | [], [], _ :: _, _, later => later.elim
  | [], _ :: _, _, earlier, _ => earlier.elim
  | _ :: _, [], _, earlier, _ => earlier.elim
  | _ :: _, _ :: _, [], _, later => later.elim

/-- Deferring an assignment changes no target. -/
theorem narrows_deferFinal
    (scopes : MethodScope)
    (id : LocalId)
    (declaredIn : ScopeId)
    (span : Span) :
    ∀ stack : JumpStack,
      Narrows stack (stack.deferFinal scopes id declaredIn span)
  | [] => trivial
  | .label record :: rest => ⟨.refl _, narrows_deferFinal scopes id declaredIn span rest⟩
  | .loop record :: rest => by
      simp only [deferFinal]
      split
      · exact .refl _
      · exact ⟨⟨.refl _, .refl _⟩, narrows_deferFinal scopes id declaredIn span rest⟩

/-- Deferring a use changes no target. -/
theorem narrows_deferNull
    (scopes : MethodScope)
    (id : LocalId)
    (declaredIn : ScopeId)
    (span : Span) :
    ∀ stack : JumpStack,
      Narrows stack (stack.deferNull scopes id declaredIn span)
  | [] => trivial
  | .label record :: rest => ⟨.refl _, narrows_deferNull scopes id declaredIn span rest⟩
  | .loop record :: rest => by
      simp only [deferNull]
      split
      · exact .refl _
      · exact ⟨⟨.refl _, .refl _⟩, .refl rest⟩

end JumpStack

/-- What has to be assigned where control goes on, if it may go on there. -/
abbrev FlowExit := Option VarSet

namespace FlowExit

/-- Control may go on at an exit once the locals of a set are assigned. -/
def Admits
    (exit : FlowExit)
    (assigned : VarSet) :
    Prop :=
  ∃ needed, exit = some needed ∧ needed.Within assigned

/-- Where a set of locals is assigned, a second exit asks for no more than a
first. -/
def Relaxes
    (assigned : VarSet)
    (first second : FlowExit) :
    Prop :=
  ∀ needed, first = some needed →
    ∃ other, second = some other ∧ other.Within (needed.union assigned)

@[refl] theorem Relaxes.refl
    (assigned : VarSet)
    (exit : FlowExit) :
    Relaxes assigned exit exit :=
  fun needed isExit => ⟨needed, isExit, VarSet.within_union_left needed assigned⟩

/-- Where more is assigned, an exit still asks for no more. -/
theorem Relaxes.within
    {some more : VarSet}
    {first second : FlowExit}
    (relaxes : Relaxes some first second)
    (within : some.Within more) :
    Relaxes more first second := by
  intro needed isFirst
  obtain ⟨other, isSecond, otherWithin⟩ := relaxes needed isFirst
  exact ⟨other, isSecond, otherWithin.trans
    (.union (VarSet.within_union_left _ _) (within.trans (VarSet.within_union_right _ _)))⟩

/-- Control may go on at an exit that asks for no more. -/
theorem Admits.relax
    {first second : FlowExit}
    {assigned set larger : VarSet}
    (admits : first.Admits set)
    (relaxes : Relaxes assigned first second)
    (setWithin : set.Within larger)
    (assignedWithin : assigned.Within larger) :
    second.Admits larger := by
  obtain ⟨needed, isFirst, neededWithin⟩ := admits
  obtain ⟨other, isSecond, otherWithin⟩ := relaxes needed isFirst
  exact ⟨other, isSecond, otherWithin.trans (.union (neededWithin.trans setWithin) assignedWithin)⟩

/-- Control may go on at an exit from a point, if a path reaches the point. -/
def Follows
    (exit : FlowExit)
    (flow : FlowState) :
    Prop :=
  flow.reachable = true → exit.Admits flow.definite

/-- What is assigned where a point is left is what has to be assigned. -/
def after
    (flow : FlowState) :
    FlowExit :=
  if flow.reachable then some flow.definite else none

/-- A point is followed by the exit made for it. -/
theorem follows_after
    (flow : FlowState) :
    (after flow).Follows flow := by
  intro reached
  exact ⟨flow.definite, by simp [after, reached], .refl _⟩

/-- More may be assigned than is needed. -/
theorem Admits.within
    {exit : FlowExit}
    {first second : VarSet}
    (admits : exit.Admits first)
    (within : first.Within second) :
    exit.Admits second := by
  obtain ⟨needed, isExit, neededWithin⟩ := admits
  exact ⟨needed, isExit, neededWithin.trans within⟩

/-- What follows a later point follows an earlier one. -/
theorem Follows.narrows
    {exit : FlowExit}
    {before after : FlowState}
    (follows : exit.Follows after)
    (narrows : before.Narrows after) :
    exit.Follows before := by
  intro reached
  obtain ⟨afterReached, within⟩ := narrows reached
  exact (follows afterReached).within within

end FlowExit

/-- A jump target with the exits it offers. -/
inductive JumpFrame where
  | loop (onBreak onContinue : FlowExit)
  | label (name : String) (labelsLoop : Bool) (onBreak : FlowExit)

namespace JumpFrame

/-- The exit that a break takes. -/
def breakExit
    (wanted : Option String) :
    List JumpFrame → FlowExit
  | [] => none
  | .loop onBreak _ :: rest => if wanted.isNone then onBreak else breakExit wanted rest
  | .label name _ onBreak :: rest =>
      if wanted = some name then onBreak else breakExit wanted rest

/-- The exit that a continue takes to the loop directly inside a label. -/
def continueExitTo
    (name : String) :
    List JumpFrame → FlowExit
  | [] => none
  | .label other _ _ :: rest => if other = name then none else continueExitTo name rest
  | .loop _ onContinue :: .label other labelsLoop onBreak :: rest =>
      if other = name then
        if labelsLoop then onContinue else none
      else
        continueExitTo name (.label other labelsLoop onBreak :: rest)
  | .loop _ _ :: rest => continueExitTo name rest

/-- The exit that a continue takes to the innermost loop. -/
def innermostContinue :
    List JumpFrame → FlowExit
  | [] => none
  | .loop _ onContinue :: _ => onContinue
  | .label .. :: rest => innermostContinue rest

/-- The exit that a continue takes. -/
def continueExit
    (wanted : Option String)
    (frames : List JumpFrame) :
    FlowExit :=
  match wanted with
  | none => innermostContinue frames
  | some name => continueExitTo name frames

end JumpFrame

namespace JumpFrame

/-- Where a set of locals is assigned, the exits of second frames ask for no
more than those of first ones. -/
def AllRelax
    (assigned : VarSet) :
    (first second : List JumpFrame) → Prop
  | [], [] => True
  | .loop onBreak onContinue :: rest, .loop otherBreak otherContinue :: others =>
      FlowExit.Relaxes assigned onBreak otherBreak ∧
        FlowExit.Relaxes assigned onContinue otherContinue ∧ AllRelax assigned rest others
  | .label name labelsLoop onBreak :: rest, .label otherName otherLoop otherBreak :: others =>
      otherName = name ∧ otherLoop = labelsLoop ∧ FlowExit.Relaxes assigned onBreak otherBreak ∧
        AllRelax assigned rest others
  | _, _ => False

theorem AllRelax.refl
    (assigned : VarSet) :
    ∀ frames : List JumpFrame,
      AllRelax assigned frames frames
  | [] => trivial
  | .loop onBreak onContinue :: rest => ⟨.refl _ onBreak, .refl _ onContinue, .refl assigned rest⟩
  | .label _ _ onBreak :: rest => ⟨rfl, rfl, .refl _ onBreak, .refl assigned rest⟩

/-- Where more is assigned, frames still ask for no more. -/
theorem AllRelax.within
    {some more : VarSet}
    (within : some.Within more) :
    ∀ {first second : List JumpFrame},
      AllRelax some first second →
      AllRelax more first second
  | [], [], _ => trivial
  | .loop _ _ :: _, .loop _ _ :: _, relaxes =>
      ⟨relaxes.1.within within, relaxes.2.1.within within, relaxes.2.2.within within⟩
  | .label .. :: _, .label .. :: _, relaxes =>
      ⟨relaxes.1, relaxes.2.1, relaxes.2.2.1.within within, relaxes.2.2.2.within within⟩
  | [], _ :: _, relaxes => relaxes.elim
  | .loop _ _ :: _, [], relaxes => relaxes.elim
  | .label .. :: _, [], relaxes => relaxes.elim
  | .loop _ _ :: _, .label .. :: _, relaxes => relaxes.elim
  | .label .. :: _, .loop _ _ :: _, relaxes => relaxes.elim

/-- A break asks for no more in frames that do not. -/
theorem AllRelax.breakExit
    {assigned : VarSet}
    (wanted : Option String) :
    ∀ {first second : List JumpFrame},
      AllRelax assigned first second →
      FlowExit.Relaxes assigned (JumpFrame.breakExit wanted first)
        (JumpFrame.breakExit wanted second)
  | [], [], _ => .refl _ _
  | .loop _ _ :: _, .loop _ _ :: _, relaxes => by
      simp only [JumpFrame.breakExit]
      split
      · exact relaxes.1
      · exact relaxes.2.2.breakExit wanted
  | .label .. :: _, .label .. :: _, relaxes => by
      obtain ⟨rfl, -, onBreak, rest⟩ := relaxes
      simp only [JumpFrame.breakExit]
      split
      · exact onBreak
      · exact rest.breakExit wanted
  | [], _ :: _, relaxes => relaxes.elim
  | .loop _ _ :: _, [], relaxes => relaxes.elim
  | .label .. :: _, [], relaxes => relaxes.elim
  | .loop _ _ :: _, .label .. :: _, relaxes => relaxes.elim
  | .label .. :: _, .loop _ _ :: _, relaxes => relaxes.elim

/-- A plain continue asks for no more in frames that do not. -/
theorem AllRelax.innermostContinue
    {assigned : VarSet} :
    ∀ {first second : List JumpFrame},
      AllRelax assigned first second →
      FlowExit.Relaxes assigned (JumpFrame.innermostContinue first)
        (JumpFrame.innermostContinue second)
  | [], [], _ => .refl _ _
  | .loop _ _ :: _, .loop _ _ :: _, relaxes => relaxes.2.1
  | .label .. :: _, .label .. :: _, relaxes => relaxes.2.2.2.innermostContinue
  | [], _ :: _, relaxes => relaxes.elim
  | .loop _ _ :: _, [], relaxes => relaxes.elim
  | .label .. :: _, [], relaxes => relaxes.elim
  | .loop _ _ :: _, .label .. :: _, relaxes => relaxes.elim
  | .label .. :: _, .loop _ _ :: _, relaxes => relaxes.elim

/-- A labeled continue asks for no more in frames that do not. -/
theorem AllRelax.continueExitTo
    {assigned : VarSet}
    (name : String) :
    ∀ {first second : List JumpFrame},
      AllRelax assigned first second →
      FlowExit.Relaxes assigned (JumpFrame.continueExitTo name first)
        (JumpFrame.continueExitTo name second)
  | [], [], _ => .refl _ _
  | .label .. :: _, .label .. :: _, relaxes => by
      obtain ⟨rfl, -, -, rest⟩ := relaxes
      simp only [JumpFrame.continueExitTo]
      split
      · exact .refl _ _
      · exact rest.continueExitTo name
  | .loop _ _ :: .label .. :: _, .loop _ _ :: .label .. :: _, relaxes => by
      obtain ⟨-, onContinue, labels⟩ := relaxes
      have rest := labels.continueExitTo name
      obtain ⟨rfl, rfl, -, -⟩ := labels
      simp only [JumpFrame.continueExitTo] at rest ⊢
      split
      · split
        · exact onContinue
        · exact .refl _ _
      · next isOther =>
          simpa only [isOther, if_false] using rest
  | .loop _ _ :: .loop _ _ :: _, .loop _ _ :: .loop _ _ :: _, relaxes => by
      simp only [JumpFrame.continueExitTo]
      exact relaxes.2.2.continueExitTo name
  | [.loop _ _], [.loop _ _], _ => by
      simp only [JumpFrame.continueExitTo]
      exact .refl _ _
  | [], _ :: _, relaxes => relaxes.elim
  | .loop _ _ :: _, [], relaxes => relaxes.elim
  | .label .. :: _, [], relaxes => relaxes.elim
  | .loop _ _ :: _, .label .. :: _, relaxes => relaxes.elim
  | .label .. :: _, .loop _ _ :: _, relaxes => relaxes.elim
  | [.loop _ _], .loop _ _ :: _ :: _, relaxes => relaxes.2.2.elim
  | .loop _ _ :: .loop _ _ :: _, [.loop _ _], relaxes => relaxes.2.2.elim
  | .loop _ _ :: .label .. :: _, [.loop _ _], relaxes => relaxes.2.2.elim
  | .loop _ _ :: .loop _ _ :: _, .loop _ _ :: .label .. :: _, relaxes => relaxes.2.2.elim
  | .loop _ _ :: .label .. :: _, .loop _ _ :: .loop _ _ :: _, relaxes => relaxes.2.2.elim

/-- A continue asks for no more in frames that do not. -/
theorem AllRelax.continueExit
    {assigned : VarSet}
    (wanted : Option String)
    {first second : List JumpFrame}
    (relaxes : AllRelax assigned first second) :
    FlowExit.Relaxes assigned (JumpFrame.continueExit wanted first)
      (JumpFrame.continueExit wanted second) := by
  cases wanted with
  | none =>
      exact relaxes.innermostContinue
  | some name =>
      exact relaxes.continueExitTo name

end JumpFrame

/-- Frames offer the exits that the jumps recorded at targets take. -/
def JumpStack.Fits :
    JumpStack → List JumpFrame → Prop
  | [], [] => True
  | .loop record :: stack, .loop onBreak onContinue :: frames =>
      onBreak.Follows record.onBreak ∧ onContinue.Follows record.onContinue ∧ Fits stack frames
  | .label record :: stack, .label name labelsLoop onBreak :: frames =>
      record.name = name ∧ record.labelsLoop = labelsLoop ∧ onBreak.Follows record.onBreak ∧
        Fits stack frames
  | _, _ => False

namespace JumpStack

/-- Frames that fit later targets fit earlier ones. -/
theorem Fits.narrows :
    ∀ {before after : JumpStack} {frames : List JumpFrame},
      after.Fits frames →
      before.Narrows after →
      before.Fits frames
  | [], [], [], _, _ => trivial
  | .loop _ :: _, .loop _ :: _, .loop _ _ :: _, fits, narrows =>
      ⟨fits.1.narrows narrows.1.1, fits.2.1.narrows narrows.1.2, fits.2.2.narrows narrows.2⟩
  | .label _ :: _, .label _ :: _, .label .. :: _, fits, narrows =>
      ⟨narrows.1.1.symm.trans fits.1, narrows.1.2.1.symm.trans fits.2.1,
        fits.2.2.1.narrows narrows.1.2.2, fits.2.2.2.narrows narrows.2⟩
  | [], _ :: _, _, _, narrows => narrows.elim
  | _ :: _, [], _, _, narrows => narrows.elim
  | .loop _ :: _, .label _ :: _, _, _, narrows => narrows.1.elim
  | .label _ :: _, .loop _ :: _, _, _, narrows => narrows.1.elim
  | [], [], _ :: _, fits, _ => fits.elim
  | _ :: _, .loop _ :: _, [], fits, _ => fits.elim
  | _ :: _, .label _ :: _, [], fits, _ => fits.elim
  | _ :: _, .loop _ :: _, .label .. :: _, fits, _ => fits.elim
  | _ :: _, .label _ :: _, .loop .. :: _, fits, _ => fits.elim

/-- The frame of a loop is a loop. -/
theorem Fits.exists_loop
    {record : LoopRecord}
    {stack : JumpStack}
    {frames : List JumpFrame}
    (fits : Fits (.loop record :: stack) frames) :
    ∃ onBreak onContinue rest, frames = .loop onBreak onContinue :: rest := by
  cases frames with
  | nil =>
      exact fits.elim
  | cons frame rest =>
      cases frame with
      | loop onBreak onContinue =>
          exact ⟨onBreak, onContinue, rest, rfl⟩
      | label =>
          exact fits.elim

/-- The frame of a labeled statement is a label. -/
theorem Fits.exists_label
    {record : LabelRecord}
    {stack : JumpStack}
    {frames : List JumpFrame}
    (fits : Fits (.label record :: stack) frames) :
    ∃ name labelsLoop onBreak rest, frames = .label name labelsLoop onBreak :: rest := by
  cases frames with
  | nil =>
      exact fits.elim
  | cons frame rest =>
      cases frame with
      | loop =>
          exact fits.elim
      | label name labelsLoop onBreak =>
          exact ⟨name, labelsLoop, onBreak, rest, rfl⟩

end JumpStack

/-! ## A jump that is recorded -/

/-- A jump that is recorded in the state in which it is taken. -/
inductive TakenJump where
  | breakTo (label : Option String) (state : FlowState)
  | continueTo (label : Option String) (state : FlowState)
  deriving Repr

namespace TakenJump

/-- The label that a jump names. -/
def label :
    TakenJump → Option String
  | .breakTo label _ => label
  | .continueTo label _ => label

/-- The state in which a jump is taken. -/
def state :
    TakenJump → FlowState
  | .breakTo _ state => state
  | .continueTo _ state => state

/-- The exit that a jump takes. -/
def exit
    (frames : List JumpFrame) :
    TakenJump → FlowExit
  | .breakTo label _ => JumpFrame.breakExit label frames
  | .continueTo label _ => JumpFrame.continueExit label frames

end TakenJump

namespace JumpStack

/-- A jump is recorded in one target. The search for it goes outwards, past the labels and the
loops that are not meant. -/
inductive Takes :
    TakenJump → (before after : JumpStack) → Prop
  | breaksLoop {state : FlowState} {record : LoopRecord} {rest : JumpStack} :
      Takes (.breakTo none state) (.loop record :: rest) (.loop (record.addBreak state) :: rest)
  | continuesLoop {state : FlowState} {record : LoopRecord} {rest : JumpStack} :
      Takes (.continueTo none state) (.loop record :: rest)
        (.loop (record.addContinue state) :: rest)
  | breaksLabel {state : FlowState} {record : LabelRecord} {rest : JumpStack} :
      Takes (.breakTo (some record.name) state) (.label record :: rest)
        (.label (record.addBreak state) :: rest)
  | continuesLabeled {state : FlowState} {inner : LoopRecord} {record : LabelRecord}
      {rest : JumpStack} :
      record.labelsLoop = true →
      Takes (.continueTo (some record.name) state) (.loop inner :: .label record :: rest)
        (.loop (inner.addContinue state) :: .label record :: rest)
  | passesLabel {jump : TakenJump} {record : LabelRecord} {rest after : JumpStack} :
      jump.label ≠ some record.name →
      Takes jump rest after →
      Takes jump (.label record :: rest) (.label record :: after)
  | breakPasses {state : FlowState} {name : String} {record : LoopRecord}
      {rest after : JumpStack} :
      Takes (.breakTo (some name) state) rest after →
      Takes (.breakTo (some name) state) (.loop record :: rest) (.loop record :: after)
  | continuePasses {state : FlowState} {name : String} {record : LoopRecord}
      {rest after : JumpStack} :
      (∀ around outer, rest = .label around :: outer → around.name ≠ name) →
      Takes (.continueTo (some name) state) rest after →
      Takes (.continueTo (some name) state) (.loop record :: rest) (.loop record :: after)

variable
  {flow : FlowState}
  {label : Option String}
  {stack after : JumpStack}

/-- A jump without a label is recorded in the innermost loop. -/
theorem takes_of_changeLoop
    {jump : TakenJump}
    {change : LoopRecord → LoopRecord}
    (unlabeled : jump.label = none)
    (takes : ∀ record rest, Takes jump (.loop record :: rest) (.loop (change record) :: rest)) :
    ∀ {stack after : JumpStack}, stack.changeLoop change = some after → Takes jump stack after
  | .loop record :: rest, after, recorded => by
      obtain rfl := Option.some.inj recorded
      exact takes record rest
  | .label record :: rest, after, recorded => by
      obtain ⟨others, recordedRest, rfl⟩ := Option.map_eq_some_iff.mp recorded
      exact .passesLabel (unlabeled ▸ nofun) (takes_of_changeLoop unlabeled takes recordedRest)

/-- A break with a label is recorded in the innermost statement of the label. -/
theorem takes_of_changeLabel
    {name : String} :
    ∀ {stack after : JumpStack},
      stack.changeLabel name (.addBreak flow) = some after →
      Takes (.breakTo (some name) flow) stack after
  | .loop record :: rest, after, recorded => by
      obtain ⟨others, recordedRest, rfl⟩ := Option.map_eq_some_iff.mp recorded
      exact .breakPasses (takes_of_changeLabel recordedRest)
  | .label record :: rest, after, recorded => by
      simp only [changeLabel] at recorded
      split at recorded
      · next isNamed =>
          subst isNamed
          obtain rfl := Option.some.inj recorded
          exact .breaksLabel
      · next isOther =>
          obtain ⟨others, recordedRest, rfl⟩ := Option.map_eq_some_iff.mp recorded
          exact .passesLabel (by simpa [TakenJump.label] using Ne.symm isOther)
            (takes_of_changeLabel recordedRest)

/-- A mapped result is there only if the result is. -/
theorem exists_of_map_ok
    {change : JumpStack → JumpStack}
    {result : Except JumpError JumpStack}
    {after : JumpStack}
    (found : result.map change = .ok after) :
    ∃ stack, result = .ok stack ∧ change stack = after := by
  cases result with
  | error cause =>
      cases found
  | ok stack =>
      exact ⟨stack, rfl, Except.ok.inj found⟩

/-- A continue with a label is recorded in the loop directly inside the label. -/
theorem takes_of_recordContinueTo
    {name : String} :
    ∀ {stack after : JumpStack},
      stack.recordContinueTo name flow = .ok after →
      Takes (.continueTo (some name) flow) stack after := by
  intro stack
  induction stack using recordContinueTo.induct name with
  | case1 =>
      intro after recorded
      simp [recordContinueTo] at recorded
  | case2 rest record isNamed =>
      intro after recorded
      simp [recordContinueTo, isNamed] at recorded
  | case3 rest record isOther inductionHypothesis =>
      intro after recorded
      simp only [recordContinueTo, isOther, if_false] at recorded
      obtain ⟨others, recordedRest, rfl⟩ := exists_of_map_ok recorded
      exact .passesLabel (by simpa [TakenJump.label] using Ne.symm isOther)
        (inductionHypothesis recordedRest)
  | case4 inner record rest isNamed labelsLoop =>
      intro after recorded
      simp only [recordContinueTo, isNamed, labelsLoop, if_true] at recorded
      obtain rfl := Except.ok.inj recorded
      exact isNamed ▸ .continuesLabeled labelsLoop
  | case5 inner record rest isNamed labelsLoop =>
      intro after recorded
      simp [recordContinueTo, isNamed, labelsLoop] at recorded
  | case6 inner record rest isOther inductionHypothesis =>
      intro after recorded
      rw [recordContinueTo, if_neg isOther] at recorded
      obtain ⟨others, recordedRest, rfl⟩ := exists_of_map_ok recorded
      refine .continuePasses ?_ (inductionHypothesis recordedRest)
      rintro around outer isAround
      cases isAround
      exact isOther
  | case7 inner rest notLabel inductionHypothesis =>
      intro after recorded
      rw [recordContinueTo] at recorded
      case x_1 =>
        exact notLabel
      obtain ⟨others, recordedRest, rfl⟩ := exists_of_map_ok recorded
      exact .continuePasses (fun around outer isAround => (notLabel around outer isAround).elim)
        (inductionHypothesis recordedRest)

/-- A break that is recorded is recorded in one target. -/
theorem takes_of_recordBreak
    (recorded : stack.recordBreak label flow = .ok after) :
    Takes (.breakTo label flow) stack after := by
  cases label with
  | none =>
      simp only [recordBreak] at recorded
      split at recorded
      · next changed =>
          obtain rfl := Except.ok.inj recorded
          exact takes_of_changeLoop rfl (fun _ _ => .breaksLoop) changed
      · cases recorded
  | some name =>
      simp only [recordBreak] at recorded
      split at recorded
      · next changed =>
          obtain rfl := Except.ok.inj recorded
          exact takes_of_changeLabel changed
      · cases recorded

/-- A continue that is recorded is recorded in one target. -/
theorem takes_of_recordContinue
    (recorded : stack.recordContinue label flow = .ok after) :
    Takes (.continueTo label flow) stack after := by
  cases label with
  | none =>
      simp only [recordContinue] at recorded
      split at recorded
      · next changed =>
          obtain rfl := Except.ok.inj recorded
          exact takes_of_changeLoop rfl (fun _ _ => .continuesLoop) changed
      · cases recorded
  | some name =>
      exact takes_of_recordContinueTo recorded

/-- A jump that is recorded takes the exit that the frames offer. -/
theorem Takes.admits
    {jump : TakenJump}
    {frames : List JumpFrame}
    (takes : Takes jump stack after)
    (reached : jump.state.reachable = true)
    (fits : after.Fits frames) :
    stack.Narrows after ∧ (jump.exit frames).Admits jump.state.definite := by
  induction takes generalizing frames with
  | @breaksLoop state record rest =>
      obtain ⟨onBreak, onContinue, frames, rfl⟩ := fits.exists_loop
      have follows : onBreak.Follows (record.onBreak.merge state) := fits.1
      exact ⟨⟨⟨FlowState.narrows_merge_left _ _, .refl _⟩, .refl rest⟩,
        follows.narrows (FlowState.narrows_merge_right _ _) reached⟩
  | @continuesLoop state record rest =>
      obtain ⟨onBreak, onContinue, frames, rfl⟩ := fits.exists_loop
      have follows : onContinue.Follows (record.onContinue.merge state) := fits.2.1
      exact ⟨⟨⟨.refl _, FlowState.narrows_merge_left _ _⟩, .refl rest⟩,
        follows.narrows (FlowState.narrows_merge_right _ _) reached⟩
  | @breaksLabel state record rest =>
      obtain ⟨name, labelsLoop, onBreak, frames, rfl⟩ := fits.exists_label
      obtain ⟨rfl, -, follows, -⟩ := fits
      refine ⟨⟨⟨rfl, rfl, FlowState.narrows_merge_left _ _⟩, .refl rest⟩, ?_⟩
      simpa [TakenJump.exit, TakenJump.state, JumpFrame.breakExit, LabelRecord.addBreak] using
        follows.narrows (FlowState.narrows_merge_right _ _) reached
  | @continuesLabeled state inner record rest labelsLoop =>
      obtain ⟨onBreak, onContinue, frames, rfl⟩ := fits.exists_loop
      obtain ⟨-, follows, fitsLabel⟩ := fits
      obtain ⟨name, isLoop, otherBreak, frames, rfl⟩ := fitsLabel.exists_label
      obtain ⟨rfl, rfl, -⟩ := fitsLabel
      refine ⟨⟨⟨.refl _, FlowState.narrows_merge_left _ _⟩, .refl _⟩, ?_⟩
      simpa [TakenJump.exit, TakenJump.state, JumpFrame.continueExit, JumpFrame.continueExitTo,
        labelsLoop] using follows.narrows (FlowState.narrows_merge_right _ _) reached
  | @passesLabel jump record rest after isOther takes inductionHypothesis =>
      obtain ⟨name, labelsLoop, onBreak, frames, rfl⟩ := fits.exists_label
      obtain ⟨rfl, -, -, fitsRest⟩ := fits
      obtain ⟨narrows, admits⟩ := inductionHypothesis reached fitsRest
      refine ⟨⟨.refl _, narrows⟩, ?_⟩
      -- Only jumps with a label look at the labels that they pass.
      rcases jump with ⟨wanted, state⟩ | ⟨_ | wanted, state⟩
      · have differs : wanted ≠ some record.name := isOther
        simpa [TakenJump.exit, TakenJump.state, JumpFrame.breakExit, differs] using admits
      · exact admits
      · have differs : ¬ record.name = wanted := fun same => isOther (congrArg some same.symm)
        simpa [TakenJump.exit, TakenJump.state, JumpFrame.continueExit,
          JumpFrame.continueExitTo, differs] using admits
  | breakPasses takes inductionHypothesis =>
      obtain ⟨onBreak, onContinue, frames, rfl⟩ := fits.exists_loop
      obtain ⟨narrows, admits⟩ := inductionHypothesis reached fits.2.2
      exact ⟨⟨.refl _, narrows⟩, admits⟩
  | @continuePasses state name record rest after isOther takes inductionHypothesis =>
      obtain ⟨onBreak, onContinue, frames, rfl⟩ := fits.exists_loop
      obtain ⟨narrows, admits⟩ := inductionHypothesis reached fits.2.2
      refine ⟨⟨.refl _, narrows⟩, ?_⟩
      have fitsRest := fits.2.2.narrows narrows
      -- The search in the frames looks at the target around the loop before it goes on.
      match rest with
      | [] => cases takes
      | .label around :: outer =>
          obtain ⟨other, labelsLoop, otherBreak, frames, rfl⟩ := fitsRest.exists_label
          obtain ⟨rfl, -⟩ := fitsRest
          simpa [TakenJump.exit, TakenJump.state, JumpFrame.continueExit,
            JumpFrame.continueExitTo, isOther around outer rfl] using admits
      | .loop around :: outer =>
          obtain ⟨otherBreak, otherContinue, frames, rfl⟩ := fitsRest.exists_loop
          exact admits

/-- The frames that offer exactly what the recorded jumps take. -/
def frames :
    JumpStack → List JumpFrame
  | [] => []
  | .loop record :: rest =>
      .loop (.after record.onBreak) (.after record.onContinue) :: frames rest
  | .label record :: rest =>
      .label record.name record.labelsLoop (.after record.onBreak) :: frames rest

/-- The frames of targets fit them. -/
theorem fits_frames :
    ∀ stack : JumpStack,
      Fits stack stack.frames
  | [] => trivial
  | .loop _ :: rest => ⟨FlowExit.follows_after _, FlowExit.follows_after _, fits_frames rest⟩
  | .label _ :: rest => ⟨rfl, rfl, FlowExit.follows_after _, fits_frames rest⟩

end JumpStack

end LoopLowering
