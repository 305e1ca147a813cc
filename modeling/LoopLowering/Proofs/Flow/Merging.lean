import LoopLowering.Proofs.Flow.NullTables
import LoopLowering.Proofs.Flow.Targets

namespace LoopLowering

/-!
# Merging in any order

Where paths meet, it does not matter in which order they are merged: merging is commutative
and associative, a reached state merged with itself stays what it is, and a dead end adds
nothing to a reached state. A statement that jumps lead to merges the states in which they are
taken one by one, so what it has collected is the same for every order of the jumps.
-/

namespace VarSet

/-- A union does not depend on the order of the sets. -/
theorem union_comm
    (first second : VarSet) :
    first.union second = second.union first :=
  VarSet.ext fun id => by simp [Bool.or_comm]

/-- A union of three sets does not depend on which two come first. -/
theorem union_assoc
    (first second third : VarSet) :
    (first.union second).union third = first.union (second.union third) :=
  VarSet.ext fun id => by simp [Bool.or_assoc]

/-- An intersection does not depend on the order of the sets. -/
theorem inter_comm
    (first second : VarSet) :
    first.inter second = second.inter first :=
  VarSet.ext fun id => by simp [Bool.and_comm]

/-- An intersection of three sets does not depend on which two come first. -/
theorem inter_assoc
    (first second third : VarSet) :
    (first.inter second).inter third = first.inter (second.inter third) :=
  VarSet.ext fun id => by simp [Bool.and_assoc]

/-- A set adds nothing to itself. -/
theorem union_self
    (set : VarSet) :
    set.union set = set :=
  VarSet.ext fun id => by simp

/-- A set has all its members in common with itself. -/
theorem inter_self
    (set : VarSet) :
    set.inter set = set :=
  VarSet.ext fun id => by simp

/-- The empty set adds nothing. -/
theorem union_empty
    (set : VarSet) :
    set.union .empty = set :=
  VarSet.ext fun id => by simp

end VarSet

namespace NullFacts

/-- What two paths know together does not depend on their order. -/
theorem join_comm
    (first second : NullFacts) :
    first.join second = second.join first := by
  refine (isTable_join first second).ext (isTable_join second first) fun id => ?_
  rw [status_join, status_join, NullStatus.join_comm]

/-- What three paths know together does not depend on which two meet first. -/
theorem join_assoc
    (first second third : NullFacts) :
    (first.join second).join third = first.join (second.join third) := by
  refine (isTable_join _ third).ext (isTable_join first _) fun id => ?_
  simp only [status_join, NullStatus.join_assoc]

/-- A path that meets itself knows what it knew. -/
theorem IsTable.join_self
    {facts : NullFacts}
    (table : facts.IsTable) :
    facts.join facts = facts := by
  refine (isTable_join facts facts).ext table fun id => ?_
  rw [status_join]
  exact if_pos rfl

end NullFacts

namespace FlowState

/-- Where two paths meet does not depend on their order. -/
theorem merge_comm
    (first second : FlowState) :
    first.merge second = second.merge first := by
  unfold merge
  cases first.reachable with
  | true =>
      cases second.reachable with
      | true =>
          simp only [VarSet.inter_comm first.definite, VarSet.union_comm first.potential,
            NullFacts.join_comm first.nulls]
      | false =>
          simp only [VarSet.union_comm first.potential]
  | false =>
      cases second.reachable with
      | true =>
          simp only [VarSet.union_comm first.potential]
      | false =>
          simp only [VarSet.inter_comm first.definite, VarSet.union_comm first.potential]

/-- Where three paths meet does not depend on which two meet first. -/
theorem merge_assoc
    (first second third : FlowState) :
    (first.merge second).merge third = first.merge (second.merge third) := by
  cases isFirst : first.reachable <;> cases isSecond : second.reachable <;>
    cases isThird : third.reachable <;>
    simp only [merge, isFirst, isSecond, isThird, VarSet.inter_assoc, VarSet.union_assoc,
      NullFacts.join_assoc]

/-- A reached point with tables of facts stays what it is when its path meets itself. -/
theorem merge_self
    {state : FlowState}
    (isReachable : state.reachable = true)
    (table : state.nulls.IsTable) :
    state.merge state = state := by
  obtain ⟨reachable, definite, potential, nulls⟩ := state
  obtain rfl : reachable = true := isReachable
  simp only [merge, VarSet.inter_self, VarSet.union_self, table.join_self]

/-- A dead end adds nothing to a reached point. -/
theorem merge_deadEnd
    {state : FlowState}
    (isReachable : state.reachable = true) :
    state.merge .deadEnd = state := by
  obtain ⟨reachable, definite, potential, nulls⟩ := state
  obtain rfl : reachable = true := isReachable
  simp only [merge, deadEnd, initial, VarSet.union_empty]

/-- Of two paths that meet a third one after the other, either may come first. -/
theorem merge_right_comm
    (state first second : FlowState) :
    (state.merge first).merge second = (state.merge second).merge first := by
  rw [merge_assoc, merge_comm first second, ← merge_assoc]

end FlowState

/-! ### Recorded jumps -/

/-- What decides which jumps lead to a statement: whether it is a loop, and otherwise its label
and whether the label is that of a loop. -/
inductive JumpOutline where
  | loop
  | label (name : String) (labelsLoop : Bool)
  deriving Repr, DecidableEq

namespace JumpOutline

/-- Whether a statement is a loop. -/
def isLoop :
    JumpOutline → Bool
  | .loop => true
  | .label .. => false

/-- Whether a statement has a label. -/
def isLabeled
    (name : String) :
    JumpOutline → Bool
  | .loop => false
  | .label other _ => other == name

/-- The loop that a labeled continue resumes, counted from the innermost statement: it is
directly inside the innermost statement of the label. -/
def resumed?
    (name : String) :
    List JumpOutline → Option Nat
  | [] => none
  | .label other _ :: outlines =>
      if other = name then none else (resumed? name outlines).map (· + 1)
  | .loop :: .label other labelsLoop :: outlines =>
      if other = name then
        if labelsLoop then some 0 else none
      else
        (resumed? name (.label other labelsLoop :: outlines)).map (· + 1)
  | .loop :: outlines => (resumed? name outlines).map (· + 1)

/-- The statement that collects a jump, counted from the innermost one. -/
def target?
    (outlines : List JumpOutline) :
    TakenJump → Option Nat
  | .breakTo none _ | .continueTo none _ => outlines.findIdx? isLoop
  | .breakTo (some name) _ => outlines.findIdx? (isLabeled name)
  | .continueTo (some name) _ => resumed? name outlines

end JumpOutline

namespace JumpRecord

/-- What decides which jumps lead to the statement of a record. -/
def outline :
    JumpRecord → JumpOutline
  | .loop _ => .loop
  | .label record => .label record.name record.labelsLoop

/-- Collect a jump. A labeled statement is left by breaks only. -/
def collect :
    TakenJump → JumpRecord → JumpRecord
  | .breakTo _ state, .loop record => .loop (record.addBreak state)
  | .breakTo _ state, .label record => .label (record.addBreak state)
  | .continueTo _ state, .loop record => .loop (record.addContinue state)
  | .continueTo _ _, .label record => .label record

@[simp] theorem outline_collect
    (jump : TakenJump)
    (record : JumpRecord) :
    (record.collect jump).outline = record.outline := by
  cases jump <;> cases record <;> rfl

/-- A statement may collect two jumps in either order. -/
theorem collect_comm
    (first second : TakenJump)
    (record : JumpRecord) :
    (record.collect first).collect second = (record.collect second).collect first := by
  cases record with
  | loop record =>
      cases first <;> cases second <;>
        simp [collect, LoopRecord.addBreak, LoopRecord.addContinue, FlowState.merge_right_comm]
  | label record =>
      cases first <;> cases second <;>
        simp [collect, LabelRecord.addBreak, FlowState.merge_right_comm]

end JumpRecord

namespace JumpStack

/-- Record a jump. One that leads nowhere is reported and changes nothing. -/
def record
    (stack : JumpStack)
    (jump : TakenJump) :
    JumpStack :=
  let recorded :=
    match jump with
    | .breakTo label state => stack.recordBreak label state
    | .continueTo label state => stack.recordContinue label state
  recorded.toOption.getD stack

/-- What decides where the jumps within the statements of a stack lead. -/
def outlines
    (stack : JumpStack) :
    List JumpOutline :=
  stack.map JumpRecord.outline

/-- Collect a jump in the statement it leads to. -/
def collect
    (stack : JumpStack)
    (jump : TakenJump) :
    JumpStack :=
  match JumpOutline.target? stack.outlines jump with
  | some index => stack.modify index (JumpRecord.collect jump)
  | none => stack

/-- The innermost loop is the first one. -/
theorem changeLoop_eq
    {change : LoopRecord → LoopRecord}
    {jump : TakenJump}
    (changes : ∀ record, JumpRecord.collect jump (.loop record) = .loop (change record))
    (stack : JumpStack) :
    stack.changeLoop change =
      (stack.outlines.findIdx? JumpOutline.isLoop).map fun index =>
        stack.modify index (JumpRecord.collect jump) := by
  induction stack with
  | nil =>
      rfl
  | cons record stack inductionHypothesis =>
      cases record with
      | loop record =>
          simp [changeLoop, outlines, JumpRecord.outline, JumpOutline.isLoop, List.findIdx?_cons,
            changes]
      | label record =>
          rw [changeLoop, inductionHypothesis]
          simp [outlines, JumpRecord.outline, JumpOutline.isLoop, List.findIdx?_cons,
            Function.comp_def]

/-- The innermost statement of a label is the first one. -/
theorem changeLabel_eq
    (name : String)
    {change : LabelRecord → LabelRecord}
    {jump : TakenJump}
    (changes : ∀ record, JumpRecord.collect jump (.label record) = .label (change record))
    (stack : JumpStack) :
    stack.changeLabel name change =
      (stack.outlines.findIdx? (JumpOutline.isLabeled name)).map fun index =>
        stack.modify index (JumpRecord.collect jump) := by
  induction stack with
  | nil =>
      rfl
  | cons record stack inductionHypothesis =>
      cases record with
      | loop record =>
          rw [changeLabel, inductionHypothesis]
          simp [outlines, JumpRecord.outline, JumpOutline.isLabeled, List.findIdx?_cons,
            Function.comp_def]
      | label record =>
          by_cases isNamed : record.name = name
          · simp [changeLabel, outlines, JumpRecord.outline, JumpOutline.isLabeled, isNamed,
              List.findIdx?_cons, changes]
          · rw [changeLabel, if_neg isNamed, inductionHypothesis]
            simp [outlines, JumpRecord.outline, JumpOutline.isLabeled, isNamed,
              List.findIdx?_cons, Function.comp_def]

/-- What is recorded further out is recorded in the stack. -/
theorem toOption_map
    (record : JumpRecord)
    (recorded : Except JumpError JumpStack) :
    (recorded.map (record :: ·)).toOption = recorded.toOption.map (record :: ·) := by
  cases recorded <;> rfl

/-- A labeled continue is recorded in the loop that it resumes. -/
theorem recordContinueTo_eq
    (name : String)
    (state : FlowState)
    (stack : JumpStack) :
    (stack.recordContinueTo name state).toOption =
      (JumpOutline.resumed? name stack.outlines).map fun index =>
        stack.modify index (JumpRecord.collect (.continueTo (some name) state)) := by
  induction stack using recordContinueTo.induct name with
  | case1 =>
      rfl
  | case2 rest record isNamed =>
      simp [recordContinueTo, outlines, JumpRecord.outline, JumpOutline.resumed?, isNamed,
        Except.toOption]
  | case3 rest record isOther inductionHypothesis =>
      rw [recordContinueTo, if_neg isOther, toOption_map, inductionHypothesis]
      simp [outlines, JumpRecord.outline, JumpOutline.resumed?, isOther, Function.comp_def]
  | case4 inner record rest isNamed labelsLoop =>
      simp [recordContinueTo, outlines, JumpRecord.outline, JumpOutline.resumed?, isNamed,
        labelsLoop, JumpRecord.collect, Except.toOption]
  | case5 inner record rest isNamed labelsLoop =>
      simp [recordContinueTo, outlines, JumpRecord.outline, JumpOutline.resumed?, isNamed,
        labelsLoop, Except.toOption]
  | case6 inner record rest isOther inductionHypothesis =>
      rw [recordContinueTo, if_neg isOther, toOption_map, inductionHypothesis]
      simp [outlines, JumpRecord.outline, JumpOutline.resumed?, isOther, Function.comp_def]
  | case7 inner rest notLabel inductionHypothesis =>
      rw [recordContinueTo, toOption_map, inductionHypothesis]
      · cases rest with
        | nil =>
            rfl
        | cons next rest =>
            cases next with
            | loop next =>
                simp [outlines, JumpRecord.outline, JumpOutline.resumed?, Function.comp_def]
            | label next =>
                exact (notLabel next rest rfl).elim
      · exact notLabel

variable
  {stack : JumpStack}
  {jump : TakenJump}

/-- A jump that leads nowhere is not collected. -/
theorem collect_of_none
    (leads : JumpOutline.target? stack.outlines jump = none) :
    stack.collect jump = stack := by
  rw [collect, leads]

/-- A jump is collected in the statement it leads to. -/
theorem collect_of_some
    {index : Nat}
    (leads : JumpOutline.target? stack.outlines jump = some index) :
    stack.collect jump = stack.modify index (JumpRecord.collect jump) := by
  rw [collect, leads]

/-- A break is recorded in the statement it leads to. -/
theorem recordBreak_eq
    (label : Option String)
    (state : FlowState)
    (stack : JumpStack) :
    (stack.recordBreak label state).toOption =
      (JumpOutline.target? stack.outlines (.breakTo label state)).map fun index =>
        stack.modify index (JumpRecord.collect (.breakTo label state)) := by
  cases label with
  | none =>
      have changed := @changeLoop_eq (.addBreak state) (.breakTo none state) (fun _ => rfl) stack
      simp only [recordBreak, JumpOutline.target?, ← changed]
      cases stack.changeLoop (.addBreak state) <;> rfl
  | some name =>
      have changed := @changeLabel_eq name (.addBreak state) (.breakTo (some name) state)
        (fun _ => rfl) stack
      simp only [recordBreak, JumpOutline.target?, ← changed]
      cases stack.changeLabel name (.addBreak state) <;> rfl

/-- A continue is recorded in the loop it leads to. -/
theorem recordContinue_eq
    (label : Option String)
    (state : FlowState)
    (stack : JumpStack) :
    (stack.recordContinue label state).toOption =
      (JumpOutline.target? stack.outlines (.continueTo label state)).map fun index =>
        stack.modify index (JumpRecord.collect (.continueTo label state)) := by
  cases label with
  | none =>
      have changed := @changeLoop_eq (.addContinue state) (.continueTo none state) (fun _ => rfl)
        stack
      simp only [recordContinue, JumpOutline.target?, ← changed]
      cases stack.changeLoop (.addContinue state) <;> rfl
  | some name =>
      exact recordContinueTo_eq name state stack

/-- Recording a jump collects it in the statement it leads to. -/
theorem record_eq_collect
    (stack : JumpStack)
    (jump : TakenJump) :
    stack.record jump = stack.collect jump := by
  unfold record collect
  cases jump with
  | breakTo label state =>
      simp only [recordBreak_eq]
      cases JumpOutline.target? stack.outlines (.breakTo label state) <;> rfl
  | continueTo label state =>
      simp only [recordContinue_eq]
      cases JumpOutline.target? stack.outlines (.continueTo label state) <;> rfl

/-- Collecting a jump does not change where jumps lead. -/
theorem outlines_collect
    (stack : JumpStack)
    (jump : TakenJump) :
    (stack.collect jump).outlines = stack.outlines := by
  cases leads : JumpOutline.target? stack.outlines jump with
  | none =>
      rw [collect_of_none leads]
  | some index =>
      rw [collect_of_some leads]
      apply List.ext_getElem?
      intro other
      by_cases same : index = other
      · subst same
        simp [outlines, Function.comp_def]
      · simp [outlines, same]

/-- Two jumps may be collected in either order: they lead to the same statements, and one
that collects both may do so in either order. -/
theorem collect_comm
    (stack : JumpStack)
    (first second : TakenJump) :
    (stack.collect first).collect second = (stack.collect second).collect first := by
  cases isFirst : JumpOutline.target? stack.outlines first with
  | none =>
      have stillFirst : JumpOutline.target? (stack.collect second).outlines first = none := by
        rw [outlines_collect, isFirst]
      rw [collect_of_none isFirst, collect_of_none stillFirst]
  | some index =>
      have stillFirst : JumpOutline.target? (stack.collect second).outlines first =
          some index := by
        rw [outlines_collect, isFirst]
      cases isSecond : JumpOutline.target? stack.outlines second with
      | none =>
          have stillSecond : JumpOutline.target? (stack.collect first).outlines second = none := by
            rw [outlines_collect, isSecond]
          rw [collect_of_none isSecond, collect_of_none stillSecond]
      | some other =>
          have stillSecond : JumpOutline.target? (stack.collect first).outlines second =
              some other := by
            rw [outlines_collect, isSecond]
          rw [collect_of_some stillSecond, collect_of_some stillFirst, collect_of_some isFirst,
            collect_of_some isSecond]
          by_cases same : index = other
          · subst same
            rw [List.modify_modify_eq, List.modify_modify_eq]
            congr 1
            funext record
            exact JumpRecord.collect_comm first second record
          · exact List.modify_modify_ne _ _ _ same

end JumpStack

/-- Merging does not depend on an order: it is commutative and associative, a reached state
merged with itself stays what it is, a dead end adds nothing to a reached state, and what the
statements around a statement have collected is the same for every order of the jumps that
were recorded. -/
theorem merge_inAnyOrder :
    (∀ first second : FlowState, first.merge second = second.merge first) ∧
      (∀ first second third : FlowState,
        (first.merge second).merge third = first.merge (second.merge third)) ∧
      (∀ state : FlowState, state.IsBuilt → state.reachable = true →
        state.merge state = state ∧ state.merge .deadEnd = state ∧
          FlowState.deadEnd.merge state = state) ∧
      ∀ (stack : JumpStack) (jumps others : List TakenJump), jumps.Perm others →
        jumps.foldl JumpStack.record stack = others.foldl JumpStack.record stack := by
  refine ⟨FlowState.merge_comm, FlowState.merge_assoc, ?_, ?_⟩
  · intro state built isReachable
    have deadEnd := FlowState.merge_deadEnd isReachable
    exact ⟨FlowState.merge_self isReachable built.isTable, deadEnd,
      (FlowState.merge_comm .deadEnd state).trans deadEnd⟩
  · intro stack jumps others sameJumps
    refine sameJumps.foldl_eq' (fun first _ second _ stack => ?_) stack
    simp only [JumpStack.record_eq_collect]
    exact JumpStack.collect_comm stack first second

/-- A state in which a local has been assigned null. -/
def FlowState.assignsNull :
    FlowState :=
  (FlowState.initial.assign 0).setNull 0 .null

/-- A loop of the label `outer`. -/
def JumpStack.outerLoop :
    JumpStack :=
  [.loop (.entered 1 .initial), .label (.entered "outer" true)]

/-- Jumps out of that loop and back to it, one of them after a local has been assigned null. -/
def JumpStack.crossingJumps :
    List TakenJump :=
  [.breakTo none .assignsNull, .continueTo (some "outer") .initial, .breakTo none .initial]

/-- In both orders the local may be null where the breaks meet. -/
theorem crossingJumps_inAnyOrder :
    FlowState.assignsNull.IsBuilt ∧ FlowState.assignsNull.reachable = true ∧
      FlowState.assignsNull.merge .assignsNull = .assignsNull ∧
      JumpStack.crossingJumps.reverse.Perm JumpStack.crossingJumps ∧
      ((JumpStack.crossingJumps.reverse.foldl JumpStack.record .outerLoop).innermostLoop?.map
        fun loop => loop.onBreak.nullStatus 0) = some .potentiallyNull := by
  have built : FlowState.assignsNull.IsBuilt := .setNull 0 .null (.assign 0 .initial)
  have reversed := List.reverse_perm JumpStack.crossingJumps
  refine ⟨built, rfl, (merge_inAnyOrder.2.2.1 _ built rfl).1, reversed, ?_⟩
  rw [merge_inAnyOrder.2.2.2 .outerLoop _ _ reversed]
  decide

end LoopLowering
