import LoopLowering.Proofs.Flow.ExactAnalysis
import LoopLowering.Proofs.Flow.UnreachableCode

namespace LoopLowering

/-!
# Reachability is exact

Some execution reaches a part of a statement if the statements in front of it can
complete. In a method whose jumps have targets, flow analysis records for each
part that is reached exactly what its executions do: from which statement on a
block is not reached, and whether a loop goes on after its body.
-/

/-- The executions of the body of a loop, which may be absent. -/
def Stmt.actionBehaviour :
    Option Stmt → Behaviour
  | none => .only [] .completes
  | some action => action.behaviour []

mutual

/-- Some execution of a statement with some labels reaches a part of it, which has
labels of its own. -/
inductive Stmt.Reaches :
    Stmt → List String → Stmt → List String → Prop where
  | itself {stmt : Stmt} {labels : List String} :
      Stmt.Reaches stmt labels stmt labels
  | inBlock {span : Span} {stmts : List Stmt} {facts : BlockFacts} {part : Stmt}
      {labels partLabels : List String} :
      Stmt.AllReach stmts part partLabels →
      Stmt.Reaches (.block span stmts facts) labels part partLabels
  | thenBranch {span : Span} {condition : Expr} {thenBranch part : Stmt}
      {elseBranch : Option Stmt} {labels partLabels : List String} :
      Stmt.Reaches thenBranch [] part partLabels →
      Stmt.Reaches (.branch span condition thenBranch elseBranch) labels part partLabels
  | elseBranch {span : Span} {condition : Expr} {thenBranch elseBranch part : Stmt}
      {labels partLabels : List String} :
      Stmt.Reaches elseBranch [] part partLabels →
      Stmt.Reaches (.branch span condition thenBranch (some elseBranch)) labels part partLabels
  | inLoop {span : Span} {element : LocalDecl} {collection : Expr} {action part : Stmt}
      {facts : LoopFacts} {labels partLabels : List String} :
      Stmt.Reaches action [] part partLabels →
      Stmt.Reaches (.forEach span element collection (some action) facts) labels part partLabels
  | inLabeled {span : Span} {label : Spanned String} {body part : Stmt}
      {labels partLabels : List String} :
      Stmt.Reaches body (label.node :: labels) part partLabels →
      Stmt.Reaches (.labeled span label body) labels part partLabels

/-- Some execution of statements in order reaches a part of one of them. -/
inductive Stmt.AllReach :
    List Stmt → Stmt → List String → Prop where
  | head {stmt part : Stmt} {rest : List Stmt} {partLabels : List String} :
      Stmt.Reaches stmt [] part partLabels →
      Stmt.AllReach (stmt :: rest) part partLabels
  | tail {stmt part : Stmt} {rest : List Stmt} {partLabels : List String} :
      (stmt.behaviour []).Ends .completes →
      Stmt.AllReach rest part partLabels →
      Stmt.AllReach (stmt :: rest) part partLabels

end

namespace Stmt

/-- A statement of a list is the first one that no execution reaches. -/
def FirstUnreached
    (stmts : List Stmt)
    (index : Nat) :
    Prop :=
  index < stmts.length ∧ ¬(allBehaviour (stmts.take index)).Ends .completes ∧
    ∀ earlier < index, (allBehaviour (stmts.take earlier)).Ends .completes

/-- What flow analysis records about a statement says what its executions do, given
its labels. -/
def FactsHold
    (labels : List String) :
    Stmt → Prop
  | .block _ stmts facts => ∀ index, facts.unreachableFrom = some index ↔ FirstUnreached stmts index
  | .forEach _ _ _ action facts =>
      facts.continues = true ↔
        ∃ outcome, (actionBehaviour action).Ends outcome ∧ outcome.resumes labels = true
  | _ => True

/-- What flow analysis records about parts is exact: it holds for those that are
reached, and nothing is cut off in others. -/
structure Annotated
    (reaches : Stmt → List String → Prop)
    (parts : List Stmt) :
    Prop where
  facts : ∀ part labels, reaches part labels → part.FactsHold labels
  cuts : ∀ part ∈ parts, part.cut? ≠ none → ∃ labels, reaches part labels

variable
  {stmt : Stmt}
  {rest : List Stmt}
  {labels : List String}

/-- A statement has no statements inside. -/
def isSimple :
    Stmt → Bool
  | .block .. | .branch .. | .forEach .. | .labeled .. => false
  | _ => true

/-- Nothing is recorded about a statement that has no statements inside. -/
theorem Annotated.simple
    (isSimple : stmt.isSimple = true) :
    Annotated (stmt.Reaches labels) stmt.parts := by
  cases stmt with
  | block | branch | forEach | labeled =>
      cases isSimple
  | _ =>
      refine ⟨?_, by simp [parts, cut?]⟩
      rintro part partLabels ⟨⟩
      trivial

/-- What is recorded about the parts of a block is exact if it is about its statements. -/
theorem Annotated.block
    {stmts : List Stmt}
    {span : Span}
    {facts : BlockFacts}
    (annotated : Annotated (AllReach stmts) (allParts stmts))
    (cut : ∀ index, facts.unreachableFrom = some index ↔ FirstUnreached stmts index) :
    Annotated (Reaches (.block span stmts facts) labels) (parts (.block span stmts facts)) where
  facts := by
    rintro part partLabels (_ | inner)
    · exact cut
    · exact annotated.facts part partLabels inner
  cuts := by
    simp only [parts, List.forall_mem_cons]
    refine ⟨fun _ => ⟨labels, .itself⟩, fun part member isCut => ?_⟩
    exact (annotated.cuts part member isCut).imp fun _ => .inBlock

/-- What is recorded about the parts of a conditional is exact if it is about those of
its branches. -/
theorem Annotated.branch
    {span : Span}
    {condition : Expr}
    {thenBranch elseBranch : Stmt}
    (first : Annotated (thenBranch.Reaches []) thenBranch.parts)
    (other : Annotated (elseBranch.Reaches []) elseBranch.parts) :
    Annotated (Reaches (.branch span condition thenBranch (some elseBranch)) labels)
      (parts (.branch span condition thenBranch (some elseBranch))) where
  facts := by
    rintro part partLabels (_ | _ | inner | inner)
    · trivial
    · exact first.facts part partLabels inner
    · exact other.facts part partLabels inner
  cuts := by
    simp only [parts, List.forall_mem_cons, List.forall_mem_append]
    refine ⟨fun isCut => absurd rfl isCut, fun part member isCut => ?_, fun part member isCut => ?_⟩
    · exact (first.cuts part member isCut).imp fun _ => .thenBranch
    · exact (other.cuts part member isCut).imp fun _ => .elseBranch

/-- What is recorded about the parts of a conditional with one branch is exact if it is
about those of the branch. -/
theorem Annotated.onlyBranch
    {span : Span}
    {condition : Expr}
    {thenBranch : Stmt}
    (annotated : Annotated (thenBranch.Reaches []) thenBranch.parts) :
    Annotated (Reaches (.branch span condition thenBranch none) labels)
      (parts (.branch span condition thenBranch none)) where
  facts := by
    rintro part partLabels (_ | _ | inner)
    · trivial
    · exact annotated.facts part partLabels inner
  cuts := by
    simp only [parts, List.forall_mem_cons]
    refine ⟨fun isCut => absurd rfl isCut, fun part member isCut => ?_⟩
    exact (annotated.cuts part member isCut).imp fun _ => .thenBranch

/-- What is recorded about the parts of a loop is exact if it is about the loop and
those of its body. -/
theorem Annotated.loop
    {span : Span}
    {element : LocalDecl}
    {collection : Expr}
    {action : Stmt}
    {facts : LoopFacts}
    (annotated : Annotated (action.Reaches []) action.parts)
    (holds : FactsHold labels (.forEach span element collection (some action) facts)) :
    Annotated (Reaches (.forEach span element collection (some action) facts) labels)
      (parts (.forEach span element collection (some action) facts)) where
  facts := by
    rintro part partLabels (_ | _ | _ | _ | inner)
    · exact holds
    · exact annotated.facts part partLabels inner
  cuts := by
    simp only [parts, List.forall_mem_cons]
    refine ⟨fun isCut => absurd rfl isCut, fun part member isCut => ?_⟩
    exact (annotated.cuts part member isCut).imp fun _ => .inLoop

/-- What is recorded about a loop without a body is exact if it is about the loop. -/
theorem Annotated.bareLoop
    {span : Span}
    {element : LocalDecl}
    {collection : Expr}
    {facts : LoopFacts}
    (holds : FactsHold labels (.forEach span element collection none facts)) :
    Annotated (Reaches (.forEach span element collection none facts) labels)
      (parts (.forEach span element collection none facts)) where
  facts := by
    rintro part partLabels ⟨⟩
    exact holds
  cuts := by
    simp [parts, cut?]

/-- What is recorded about the parts of a labeled statement is exact if it is about
those of its body. -/
theorem Annotated.labeled
    {span : Span}
    {label : Spanned String}
    {body : Stmt}
    (annotated : Annotated (body.Reaches (label.node :: labels)) body.parts) :
    Annotated (Reaches (.labeled span label body) labels) (parts (.labeled span label body)) where
  facts := by
    rintro part partLabels (_ | _ | _ | _ | _ | inner)
    · trivial
    · exact annotated.facts part partLabels inner
  cuts := by
    simp only [parts, List.forall_mem_cons]
    refine ⟨fun isCut => absurd rfl isCut, fun part member isCut => ?_⟩
    exact (annotated.cuts part member isCut).imp fun _ => .inLabeled

theorem Annotated.cons
    (first : Annotated (stmt.Reaches []) stmt.parts)
    (goesOn : (stmt.behaviour []).Ends .completes → Annotated (AllReach rest) (allParts rest))
    (stops : ¬(stmt.behaviour []).Ends .completes → AreFresh (allParts rest)) :
    Annotated (AllReach (stmt :: rest)) (allParts (stmt :: rest)) where
  facts := by
    rintro part partLabels (inner | ⟨completes, inner⟩)
    · exact first.facts part partLabels inner
    · exact (goesOn completes).facts part partLabels inner
  cuts := by
    simp only [allParts, List.forall_mem_append]
    refine ⟨fun part member isCut => ?_, fun part member isCut => ?_⟩
    · exact (first.cuts part member isCut).imp fun _ => .head
    · by_cases completes : (stmt.behaviour []).Ends .completes
      · exact ((goesOn completes).cuts part member isCut).imp fun _ => .tail completes
      · exact absurd ((stops completes).cut?_eq member) isCut

/-- The first statement of a list is reached. -/
theorem not_firstUnreached_zero
    (stmts : List Stmt) :
    ¬FirstUnreached stmts 0 := by
  simp [FirstUnreached, allBehaviour]

/-- Behind a statement that completes, the first statement that is not reached is
that of the others. -/
theorem firstUnreached_of_ends
    (completes : (stmt.behaviour []).Ends .completes)
    (index : Nat) :
    FirstUnreached (stmt :: rest) (index + 1) ↔ FirstUnreached rest index := by
  have same : ∀ count, (allBehaviour ((stmt :: rest).take (count + 1))).Ends .completes ↔
      (allBehaviour (rest.take count)).Ends .completes := by
    intro count
    simp [allBehaviour, completes]
  simp only [FirstUnreached, List.length_cons, Nat.add_lt_add_iff_right, same]
  refine and_congr_right fun _ => and_congr_right fun _ => ?_
  constructor
  · exact fun reached earlier before => (same earlier).mp (reached _ (Nat.succ_lt_succ before))
  · intro reached earlier before
    cases earlier with
    | zero =>
        simp [allBehaviour]
    | succ earlier =>
        exact (same earlier).mpr (reached earlier (Nat.lt_of_succ_lt_succ before))

/-- Behind a statement that does not complete, nothing is reached. -/
theorem firstUnreached_of_not_ends
    (stops : ¬(stmt.behaviour []).Ends .completes)
    (index : Nat) :
    FirstUnreached (stmt :: rest) index ↔ index = 1 ∧ rest ≠ [] := by
  have never : ∀ count, ¬(allBehaviour ((stmt :: rest).take (count + 1))).Ends .completes := by
    intro count
    simp [allBehaviour, stops]
  match index with
  | 0 =>
      simp [not_firstUnreached_zero]
  | 1 =>
      simp only [FirstUnreached, List.length_cons, true_and]
      constructor
      · rintro ⟨inside, -⟩ rfl
        simp at inside
      · intro notLast
        refine ⟨?_, never 0, ?_⟩
        · have := List.length_pos_iff.mpr notLast
          omega
        · intro earlier before
          obtain rfl : earlier = 0 := by omega
          simp [allBehaviour]
  | index + 2 =>
      simp only [FirstUnreached]
      constructor
      · rintro ⟨-, -, reached⟩
        exact absurd (reached 1 (by omega)) (never 0)
      · rintro ⟨isOne, -⟩
        omega

end Stmt

namespace JumpStack

/-- The innermost targets of jumps are the labels of a statement. -/
def HasLabels :
    (labels : List String) → (stack : JumpStack) → Prop
  | [], stack => loopLabel? stack = none
  | name :: labels, .label record :: stack => record.name = name ∧ HasLabels labels stack
  | _ :: _, _ => False

variable
  {stack after : JumpStack}
  {labels : List String}
  {ends : TraceEnd → Prop}

/-- The labels of a statement stay the same. -/
theorem HasLabels.arrives :
    ∀ {labels : List String} {stack after : JumpStack} {ends : TraceEnd → Prop},
      HasLabels labels stack →
      stack.Arrives after ends →
      HasLabels labels after
  | [], stack, after, _, named, arrives => by
      simp only [HasLabels] at named ⊢
      exact arrives.loopLabel?_eq.trans named
  | _ :: labels, .label record :: stack, .label later :: after, _, named, arrives =>
      ⟨arrives.1.trans named.1, named.2.arrives arrives.2.2.2.2⟩

/-- The label around a loop is one of its labels. -/
theorem HasLabels.mem_of_loopLabel?
    (named : HasLabels labels stack)
    {name : String}
    (isLabel : stack.loopLabel? = some name) :
    name ∈ labels := by
  cases labels with
  | nil =>
      simp [HasLabels, isLabel] at named
  | cons label labels =>
      match stack, named with
      | .label record :: _, ⟨isName, _⟩ =>
          simp only [loopLabel?] at isLabel
          split at isLabel
          · rw [← Option.some.inj isLabel, isName]
            exact List.mem_cons_self
          · cases isLabel

/-- No execution arrives at a label by continuing it. -/
theorem HasLabels.not_continues :
    ∀ {labels : List String} {stack after : JumpStack} {ends : TraceEnd → Prop},
      HasLabels labels stack →
      stack.Arrives after ends →
      ∀ name ∈ labels, ¬ends (.continues (some name))
  | [], _, _, _, _, _ => by
      simp
  | _ :: labels, .label record :: stack, .label later :: after, ends, named, arrives => by
      obtain ⟨isName, others⟩ := named
      obtain ⟨-, -, -, notOwn, rest⟩ := arrives
      intro name member isEnd
      rcases List.mem_cons.mp member with rfl | further
      · rw [isName] at notOwn
        exact notOwn isEnd
      · exact others.not_continues rest name further ⟨isEnd, by simp⟩

/-- An end of the body of a loop resumes the loop if it completes the body or if it is
collected as a continue, as nothing else may be left over for the labels of the
loop. -/
theorem HasLabels.resumes_iff
    (named : HasLabels labels stack)
    (arrives : stack.Arrives after fun outcome =>
      ends outcome ∧ outcome ≠ .breaks none ∧ ¬stack.Continues outcome)
    {outcome : TraceEnd}
    (isEnd : ends outcome) :
    outcome.resumes labels = true ↔ outcome = .completes ∨ stack.Continues outcome := by
  match outcome with
  | .completes | .continues none =>
      simp [TraceEnd.resumes, Continues]
  | .breaks _ | .returns =>
      simp [TraceEnd.resumes, Continues]
  | .continues (some name) =>
      simp only [TraceEnd.resumes, List.contains_iff_mem, reduceCtorEq, false_or]
      constructor
      · intro member
        apply Classical.byContradiction
        intro passes
        exact named.not_continues arrives name member ⟨isEnd, by simp, passes⟩
      · rintro (isNone | ⟨other, isLabel, same⟩)
        · cases isNone
        · cases same
          exact named.mem_of_loopLabel? isLabel

/-- The innermost targets of jumps are those of a statement with some labels. -/
structure Carries
    (stack : JumpStack)
    (stmt : Stmt)
    (labels : List String) :
    Prop where
  named : HasLabels labels stack
  notLoop : stmt.isLoop = false → stack.loopLabel? = none

/-- Where no loop is labeled, any statement without labels may stand. -/
theorem carries_of_loopLabel?
    (unlabeled : stack.loopLabel? = none)
    (stmt : Stmt) :
    stack.Carries stmt [] :=
  ⟨unlabeled, fun _ => unlabeled⟩

/-- The body of a labeled statement has its label. -/
theorem HasLabels.carries_pushLabel
    (named : HasLabels labels stack)
    (name : String)
    (body : Stmt) :
    (stack.pushLabel name body.isLoop).Carries body (name :: labels) :=
  ⟨⟨rfl, named⟩, fun notLoop => by simp [pushLabel, LabelRecord.entered, loopLabel?, notLoop]⟩

end JumpStack

namespace FlowPoint

/-- Between two points flow analysis has found how the executions of some code end. -/
structure Follows
    (before after : FlowPoint)
    (behaviour : Behaviour) :
    Prop where
  completes : after.flow.reachable = true ↔ behaviour.Ends .completes
  arrives : before.jumps.Arrives after.jumps behaviour.Ends

namespace Follows

variable
  {before middle after : FlowPoint}
  {first second body : Behaviour}

/-- Code that does not change the control flow completes. -/
theorem ofSteady
    (steady : before.Steady after)
    (reached : before.flow.reachable = true)
    (trace : LocalTrace) :
    before.Follows after (.only trace .completes) where
  completes := by
    simp [steady.reachable, reached]
  arrives := steady.arrives.congr (by simp)

/-- Code after some that does not change the control flow. -/
theorem afterSteady
    (steady : before.Steady middle)
    (follows : middle.Follows after second)
    (trace : LocalTrace) :
    before.Follows after (.followedBy (.only trace .completes) second) where
  completes := by
    simp [follows.completes]
  arrives := (steady.arrives.trans follows.arrives).congr (by simp)

/-- One statement after another, which is passed over if it is not reached. -/
theorem followedBy
    (earlier : before.Follows middle first)
    (goesOn : middle.flow.reachable = true → middle.Follows after second)
    (stops : middle.flow.reachable = false →
      after.flow.reachable = false ∧ after.jumps = middle.jumps) :
    before.Follows after (first.followedBy second) := by
  cases reached : middle.flow.reachable with
  | true =>
      have later := goesOn reached
      have completes := earlier.completes.mp reached
      constructor
      · simp [later.completes, completes]
      · exact (earlier.arrives.trans later.arrives).congr (by simp [completes, or_comm])
  | false =>
      obtain ⟨notReached, sameJumps⟩ := stops reached
      have never : ¬first.Ends .completes := by
        simp [← earlier.completes, reached]
      constructor
      · simp [notReached, never]
      · rw [sameJumps]
        exact earlier.arrives.congr (by simp [never])

/-- One of two statements. The second is analyzed in the state before the first. -/
theorem either
    {joined : FlowState}
    (one : before.Follows middle first)
    (other : FlowPoint.Follows { middle with flow := before.flow } after second)
    (isJoined : joined.reachable = (middle.flow.reachable || after.flow.reachable)) :
    before.Follows { after with flow := joined } (first.either second) where
  completes := by
    simp [isJoined, one.completes, other.completes]
  arrives := (one.arrives.trans other.arrives).congr (by simp)

/-- A labeled statement is left where its body completes and where it breaks to the
label. -/
theorem leaving
    {point : FlowPoint}
    {label : String}
    {labelsLoop : Bool}
    {record : LabelRecord}
    {rest : JumpStack}
    (follows : FlowPoint.Follows
      { point with jumps := point.jumps.pushLabel label labelsLoop } after body)
    (isJumps : after.jumps = .label record :: rest) :
    point.Follows ({ after with jumps := rest }.mapFlow fun flow => flow.merge record.onBreak)
      (body.leaving label) := by
  have arrives := follows.arrives
  rw [isJumps] at arrives
  obtain ⟨-, -, onBreak, -, others⟩ := arrives
  simp only [LabelRecord.entered, FlowState.deadEnd, Bool.false_eq_true, false_or] at onBreak
  have left : ∀ {outcome : TraceEnd}, outcome ≠ .completes →
      ((body.leaving label).Ends outcome ↔ body.Ends outcome ∧ outcome ≠ .breaks (some label)) := by
    intro outcome leaves
    rw [Behaviour.ends_leaving]
    constructor
    · rintro ⟨ending, isBody, isOutcome⟩
      unfold TraceEnd.leaving at isOutcome
      split at isOutcome
      · exact absurd isOutcome leaves
      · next notBreak =>
          exact isOutcome ▸ ⟨isBody, notBreak⟩
    · rintro ⟨isBody, notBreak⟩
      exact ⟨outcome, isBody, by simp [TraceEnd.leaving, notBreak]⟩
  constructor
  · change (after.flow.merge record.onBreak).reachable = true ↔ _
    rw [FlowState.reachable_merge, Bool.or_eq_true, follows.completes, onBreak,
      Behaviour.ends_leaving]
    simp only [TraceEnd.completes_eq_leaving]
    constructor
    · rintro (completes | breaks)
      · exact ⟨_, completes, .inl rfl⟩
      · exact ⟨_, breaks, .inr rfl⟩
    · rintro ⟨_, isBody, rfl | rfl⟩
      · exact .inl isBody
      · exact .inr isBody
  · exact others.congr fun other => ⟨(left (by simp)).symm, (left (by simp)).symm⟩

/-- A jump that is valid arrives at its target. -/
theorem jump
    {outcome : TraceEnd}
    {span : Span}
    {target : Except JumpError JumpStack}
    (leaves : outcome ≠ .completes)
    (valid : before.state.JumpsValid (before.jump span target).state)
    (arrives : ∀ jumps, target = .ok jumps →
      before.jumps.Arrives jumps fun ending => ending = outcome) :
    before.Follows (before.jump span target) (.only [] outcome) := by
  cases target with
  | error cause =>
      exact absurd valid (MethodState.not_jumpsValid_report cause span before.state)
  | ok jumps =>
      constructor
      · simp [FlowPoint.jump, FlowState.deadEnd, leaves.symm]
      · exact (arrives jumps rfl).congr (by simp)

/-- Code that returns leads to a dead end. -/
theorem returned
    (steady : before.Steady after)
    (trace : LocalTrace) :
    before.Follows { after with flow := .deadEnd } (.only trace .returns) where
  completes := by
    simp [FlowState.deadEnd]
  arrives := steady.arrives.congr (by simp)

end Follows

end FlowPoint

section Loops

variable
  {options : CompilerOptions}
  {element : LocalDecl}
  {facts : LoopFacts}
  {entry : LoopEntry}
  {body : LoopBody}

/-- The point after a loop is reached, as its collection may run out, and a loop goes
on after its body if that ends or continues the loop. -/
theorem reachable_leaveLoopWith
    (record : LoopRecord)
    (point : FlowPoint)
    (before : entry.before.reachable = true)
    (entered : entry.entered.reachable = true) :
    (leaveLoopWith options element facts entry body record point).point.flow.reachable = true ∧
      (leaveLoopWith options element facts entry body record point).facts.continues =
        (!body.analyzed || body.finish.flow.reachable || record.onContinue.reachable) := by
  have exhausted : ∀ (continues : Bool) (backEdge : FlowState),
      (if body.analyzed = true then
        if continues = true then
          (entry.before.afterRun entry.entered).afterOptional backEdge
        else
          entry.before.afterRun entry.entered
      else
        entry.entered).reachable = true := by
    intro continues backEdge
    split
    · split <;> simp [before]
    · exact entered
  refine ⟨?_, rfl⟩
  change (FlowState.merge _ _).reachable = true
  rw [FlowState.reachable_merge, Bool.or_eq_true]
  exact .inr (exhausted _ _)

/-- Leaving a loop after its body follows the iterations of the loop, and the loop is
found to go on after its body exactly if an execution of the body resumes it. -/
theorem follows_leaveLoop
    {point evaluated : FlowPoint}
    {scope : ScopeId}
    {behaviour : Behaviour}
    {labels : List String}
    (steady : point.Steady evaluated)
    (isPushed : entry.body.jumps = evaluated.jumps.pushLoop scope entry.before)
    (before : entry.before.reachable = true)
    (entered : entry.entered.reachable = true)
    (named : JumpStack.HasLabels labels point.jumps)
    (follows : entry.body.Follows body.finish behaviour)
    (trace : LocalTrace) :
    point.Follows (leaveLoop options element facts entry body).point
        (.followedBy (.only trace .completes) (.Iterated labels element.binding behaviour)) ∧
      ((leaveLoop options element facts entry body).facts.continues = true ↔
        body.analyzed = false ∨
          ∃ outcome, behaviour.Ends outcome ∧ outcome.resumes labels = true) := by
  have arrives := follows.arrives
  rw [isPushed] at arrives
  match isJumps : body.finish.jumps, arrives with
  | .loop record :: rest, ⟨onBreak, onContinue, others⟩ =>
      have sameLabels := steady.arrives
      have resumes : ∀ {outcome : TraceEnd}, behaviour.Ends outcome →
          (outcome.resumes labels = true ↔
            outcome = .completes ∨ evaluated.jumps.Continues outcome) :=
        fun isEnd => (named.arrives sameLabels).resumes_iff others isEnd
      simp only [LoopRecord.entered, FlowState.deadEnd, Bool.false_eq_true, false_or] at onContinue
      rw [leaveLoop_eq _ _ _ _ _ isJumps]
      obtain ⟨reached, continues⟩ := @reachable_leaveLoopWith options element facts entry body
        record { body.finish with jumps := rest } before entered
      obtain ⟨settled, -⟩ := steady_leaveLoopWith options element facts entry body record
        { body.finish with jumps := rest }
      refine ⟨⟨by simp [reached, Behaviour.ends_iterated], ?_⟩, ?_⟩
      · refine ((sameLabels.trans others).trans settled).congr fun label => ?_
        simp only [false_or, or_false, Behaviour.ends_followedBy, Behaviour.ends_only, true_and,
          Behaviour.ends_iterated, reduceCtorEq, false_and, ne_eq, TraceEnd.breaks.injEq]
        constructor
        · refine and_congr_right fun isEnd => ?_
          simp [TraceEnd.resumes, JumpStack.Continues]
        · refine and_congr_right fun isEnd => ?_
          simpa using (not_congr (resumes isEnd)).symm
      · simp only [continues, Bool.or_eq_true, Bool.not_eq_true', follows.completes, onContinue,
          or_assoc]
        refine or_congr_right ?_
        constructor
        · rintro (completes | ⟨outcome, isEnd, isContinue⟩)
          · exact ⟨_, completes, rfl⟩
          · exact ⟨outcome, isEnd, (resumes isEnd).mpr (.inr isContinue)⟩
        · rintro ⟨outcome, isEnd, isResumed⟩
          rcases (resumes isEnd).mp isResumed with rfl | isContinue
          · exact .inl isEnd
          · exact .inr ⟨outcome, isEnd, isContinue⟩

/-- Flow through the body of a loop finds how it ends, also when it is passed over,
and what it records about the body is exact. -/
theorem explores_analyzeBody
    {action : Stmt}
    (fresh : Stmt.AreFresh action.parts)
    (reached : entry.body.flow.reachable = true)
    (explored : entry.body.state.JumpsValid (analyzeStmt options action entry.body).point.state →
      entry.body.Follows (analyzeStmt options action entry.body).point
          ((analyzeStmt options action entry.body).node.behaviour []) ∧
        Stmt.Annotated ((analyzeStmt options action entry.body).node.Reaches [])
          (analyzeStmt options action entry.body).node.parts)
    (valid : entry.body.state.JumpsValid (entry.analyzeBody options action).finish.state) :
    ∃ node, (entry.analyzeBody options action).action = some node ∧
      entry.body.Follows (entry.analyzeBody options action).finish (node.behaviour []) ∧
      Stmt.Annotated (node.Reaches []) node.parts ∧
      ((entry.analyzeBody options action).analyzed = false →
        (node.behaviour []).Ends .completes) := by
  unfold LoopEntry.analyzeBody at valid ⊢
  split
  · next skips =>
      obtain ⟨⟨span, facts, rfl⟩, isEmpty⟩ := Stmt.eq_emptyBlock_of_skipsAction skips
      refine ⟨_, rfl, ?_, ⟨?_, ?_⟩, ?_⟩
      · rw [isEmpty]
        exact .ofSteady (.refl entry.body) reached []
      · rintro part labels (_ | ⟨⟨⟩⟩)
        have noCut : facts.unreachableFrom = none :=
          fresh (.block span [] facts) (by simp [Stmt.parts])
        simp [Stmt.FactsHold, noCut, Stmt.FirstUnreached]
      · simp [Stmt.parts, Stmt.allParts, Stmt.cut?, Stmt.cutIn]
      · simp [isEmpty]
  · next analyzed =>
      simp only [analyzed, reached, if_true, Bool.false_eq_true, if_false] at valid
      obtain ⟨follows, annotated⟩ := explored valid
      exact ⟨_, rfl, follows, annotated, nofun⟩

end Loops

section Statements

variable
  {options : CompilerOptions}

/-- Statements that are not reached are cut off at the first one. -/
theorem analyzeStmts_unreached
    {stmts : List Stmt}
    {point : FlowPoint}
    (unreached : point.flow.reachable = false) :
    (analyzeStmts options stmts point).nodes = stmts ∧
      (analyzeStmts options stmts point).unreachableFrom = stmts.head?.map (fun _ => 0) ∧
      (analyzeStmts options stmts point).point.flow = point.flow ∧
      (analyzeStmts options stmts point).point.jumps = point.jumps := by
  cases stmts with
  | nil =>
      simp [analyzeStmts]
  | cons stmt rest =>
      simp [analyzeStmts, unreached, FlowPoint.report]

mutual

/-- Flow through a statement finds how it ends, and what it records about parts of
the statement is exact. -/
theorem explores_analyzeStmt :
    ∀ {stmt : Stmt} {labels : List String} {point : FlowPoint},
      stmt.ConfinesElements →
      Stmt.AreFresh stmt.parts →
      point.jumps.Carries stmt labels →
      point.flow.reachable = true →
      point.state.JumpsValid (analyzeStmt options stmt point).point.state →
      point.Follows (analyzeStmt options stmt point).point
          ((analyzeStmt options stmt point).node.behaviour labels) ∧
        Stmt.Annotated ((analyzeStmt options stmt point).node.Reaches labels)
          (analyzeStmt options stmt point).node.parts
  | .localVar span decl, labels, point, _, _, _, reached, _ => by
      simp only [analyzeStmt, Stmt.behaviour]
      exact ⟨.ofSteady (steady_analyzeDecl options decl point) reached decl.steps, .simple rfl⟩
  | .expr span value, labels, point, _, _, _, reached, _ => by
      simp only [analyzeStmt, Stmt.behaviour]
      exact ⟨.ofSteady (steady_analyzeExpr options value point) reached value.steps, .simple rfl⟩
  | .block span stmts facts, labels, point, confines, fresh, carries, reached, valid => by
      simp only [Stmt.ConfinesElements] at confines
      simp only [Stmt.parts] at fresh
      simp only [analyzeStmt] at valid
      obtain ⟨follows, annotated, cut⟩ := @explores_analyzeStmts stmts point confines
        (fun part member => fresh part (List.mem_cons_of_mem _ member)) (carries.notLoop rfl)
        reached valid
      simp only [analyzeStmt, Stmt.behaviour]
      exact ⟨follows, annotated.block cut⟩
  | .branch span condition thenBranch none, labels, point, confines, fresh, carries, reached,
      valid => by
      simp only [Stmt.ConfinesElements] at confines
      simp only [Stmt.parts] at fresh
      simp only [analyzeStmt] at valid
      have tested := steady_analyzeExpr options condition point
      have testedReached := tested.reachable.trans reached
      have freshThen : Stmt.AreFresh thenBranch.parts := fun part member =>
        fresh part (List.mem_cons_of_mem _ member)
      obtain ⟨-, validThen⟩ := valid.split tested.cuts (cuts_analyzeStmt freshThen testedReached)
      obtain ⟨follows, annotated⟩ := @explores_analyzeStmt thenBranch [] _ confines freshThen
        (JumpStack.carries_of_loopLabel?
          (tested.arrives.loopLabel?_eq.trans (carries.notLoop rfl)) thenBranch)
        testedReached validThen
      have joined := follows.either (FlowPoint.Follows.ofSteady
        (.refl { (analyzeStmt options thenBranch (analyzeExpr options condition point)).point with
          flow := (analyzeExpr options condition point).flow }) testedReached [])
        (FlowState.reachable_merge _ _)
      simp only [analyzeStmt, Stmt.behaviour]
      exact ⟨.afterSteady tested joined condition.steps, annotated.onlyBranch⟩
  | .branch span condition thenBranch (some elseBranch), labels, point, confines, fresh, carries,
      reached, valid => by
      simp only [Stmt.ConfinesElements] at confines
      simp only [Stmt.parts] at fresh
      simp only [analyzeStmt] at valid
      have tested := steady_analyzeExpr options condition point
      have testedReached := tested.reachable.trans reached
      have testedLabel := tested.arrives.loopLabel?_eq.trans (carries.notLoop rfl)
      have freshThen : Stmt.AreFresh thenBranch.parts := fun part member =>
        fresh part (List.mem_cons_of_mem _ (List.mem_append_left _ member))
      have freshElse : Stmt.AreFresh elseBranch.parts := fun part member =>
        fresh part (List.mem_cons_of_mem _ (List.mem_append_right _ member))
      have cutsThen := @cuts_analyzeStmt options thenBranch _ freshThen testedReached
      have cutsElse := @cuts_analyzeStmt options elseBranch
        { (analyzeStmt options thenBranch (analyzeExpr options condition point)).point with
          flow := (analyzeExpr options condition point).flow } freshElse testedReached
      obtain ⟨-, validBoth⟩ := valid.split tested.cuts (cutsThen.trans cutsElse)
      obtain ⟨validThen, validElse⟩ := validBoth.split cutsThen cutsElse
      obtain ⟨first, annotated⟩ := @explores_analyzeStmt thenBranch [] _ confines.1 freshThen
        (JumpStack.carries_of_loopLabel? testedLabel thenBranch) testedReached validThen
      obtain ⟨other, annotatedElse⟩ := @explores_analyzeStmt elseBranch []
        { (analyzeStmt options thenBranch (analyzeExpr options condition point)).point with
          flow := (analyzeExpr options condition point).flow } confines.2 freshElse
        (JumpStack.carries_of_loopLabel?
          (first.arrives.loopLabel?_eq.trans testedLabel) elseBranch) testedReached validElse
      have joined := first.either other (FlowState.reachable_merge _ _)
      simp only [analyzeStmt, Stmt.behaviour]
      exact ⟨.afterSteady tested joined condition.steps, annotated.branch annotatedElse⟩
  | .forEach span element collection none facts, labels, point, confines, _, carries, reached,
      _ => by
      simp only [Stmt.ConfinesElements, Option.isSome_iff_exists] at confines
      obtain ⟨scope, isScope⟩ := confines
      have enters := enters_enterLoop options scope element collection point
      obtain ⟨evaluated, steady, isPushed, -⟩ :=
        steady_enterLoop options scope element collection point
      have nothing : FlowPoint.Follows (enterLoop options scope element collection point).body
          (LoopBody.finish ⟨none, false, false,
            (enterLoop options scope element collection point).body⟩) (.only [] .completes) :=
        .ofSteady (.refl _) (enters.bodyReachable.trans reached) []
      obtain ⟨follows, continues⟩ := @follows_leaveLoop options element
        (facts.met point.flow.reachable) _ _ _ _ _ _ labels steady isPushed
        (enters.beforeReachable.trans reached) (enters.enteredReachable.trans reached)
        carries.named nothing collection.steps
      simp only [analyzeStmt, isScope, Stmt.behaviour]
      refine ⟨follows, .bareLoop ?_⟩
      simp only [Stmt.FactsHold, Stmt.actionBehaviour]
      rw [continues]
      simp [TraceEnd.resumes]
  | .forEach span element collection (some action) facts, labels, point, confines, fresh, carries,
      reached, valid => by
      simp only [Stmt.ConfinesElements, Option.isSome_iff_exists] at confines
      obtain ⟨⟨scope, isScope⟩, confined⟩ := confines
      simp only [Stmt.parts] at fresh
      have freshAction : Stmt.AreFresh action.parts := fun part member =>
        fresh part (List.mem_cons_of_mem _ member)
      have enters := enters_enterLoop options scope element collection point
      have bodyReached := enters.bodyReachable.trans reached
      obtain ⟨evaluated, steady, isPushed, entered⟩ :=
        steady_enterLoop options scope element collection point
      obtain ⟨isStmt, isPoint⟩ :=
        CodeContext.analyzeStmt_forEach options span element collection action point isScope
      have cutsAction := @cuts_analyzeStmt options action
        (enterLoop options scope element collection point).body freshAction bodyReached
      obtain ⟨_, _, ran⟩ := cuts_analyzeBody freshAction bodyReached cutsAction
      have left := cuts_leaveLoop options element (facts.met point.flow.reachable)
        (enterLoop options scope element collection point)
        ((enterLoop options scope element collection point).analyzeBody options action)
      rw [isPoint] at valid
      obtain ⟨-, validLoop⟩ := valid.split (steady.cuts.trans entered) (ran.trans left)
      obtain ⟨validBody, -⟩ := validLoop.split ran left
      have unlabeled : (enterLoop options scope element collection point).body.jumps.loopLabel? =
          none := by
        rw [isPushed]
        rfl
      obtain ⟨node, isNode, bodyFollows, annotated, passedOver⟩ :=
        explores_analyzeBody freshAction bodyReached
          (@explores_analyzeStmt action [] _ confined freshAction
            (JumpStack.carries_of_loopLabel? unlabeled action) bodyReached) validBody
      obtain ⟨follows, continues⟩ := @follows_leaveLoop options element
        (facts.met point.flow.reachable) _ _ _ _ _ _ labels steady isPushed
        (enters.beforeReachable.trans reached) (enters.enteredReachable.trans reached)
        carries.named bodyFollows collection.steps
      rw [isStmt, isPoint, isNode]
      simp only [Stmt.behaviour]
      refine ⟨follows, annotated.loop ?_⟩
      simp only [Stmt.FactsHold, Stmt.actionBehaviour]
      rw [continues]
      exact or_iff_right_of_imp fun notAnalyzed => ⟨_, passedOver notAnalyzed, rfl⟩
  | .labeled span label body, labels, point, confines, fresh, carries, reached, valid => by
      simp only [Stmt.ConfinesElements] at confines
      simp only [Stmt.parts] at fresh
      have freshBody : Stmt.AreFresh body.parts := fun part member =>
        fresh part (List.mem_cons_of_mem _ member)
      have bodyReached : ({ point with
          jumps := point.jumps.pushLabel label.node body.isLoop } : FlowPoint).flow.reachable =
          true := reached
      obtain ⟨record, rest, isJumps, -⟩ :=
        (narrows_analyzeStmt options body bodyReached).exists_label
      simp only [analyzeStmt, isJumps, JumpStack.popLabel] at valid
      obtain ⟨follows, annotated⟩ := @explores_analyzeStmt body (label.node :: labels)
        { point with jumps := point.jumps.pushLabel label.node body.isLoop } confines freshBody
        (carries.named.carries_pushLabel label.node body) bodyReached valid
      simp only [analyzeStmt, Stmt.behaviour, isJumps, JumpStack.popLabel]
      exact ⟨follows.leaving isJumps, annotated.labeled⟩
  | .breakTo span label, labels, point, _, _, _, reached, valid => by
      simp only [analyzeStmt] at valid
      simp only [analyzeStmt, Stmt.behaviour]
      exact ⟨.jump (by simp) valid fun jumps recorded =>
        (JumpStack.takes_of_recordBreak recorded).arrives reached, .simple rfl⟩
  | .continueTo span label, labels, point, _, _, _, reached, valid => by
      simp only [analyzeStmt] at valid
      simp only [analyzeStmt, Stmt.behaviour]
      exact ⟨.jump (by simp) valid fun jumps recorded =>
        (JumpStack.takes_of_recordContinue recorded).arrives reached,
        .simple rfl⟩
  | .returnWith span none, labels, point, _, _, _, _, _ => by
      simp only [analyzeStmt, Stmt.behaviour]
      exact ⟨.returned (.refl point) [], .simple rfl⟩
  | .returnWith span (some value), labels, point, _, _, _, _, _ => by
      simp only [analyzeStmt, Stmt.behaviour]
      exact ⟨.returned (steady_analyzeExpr options value point) value.steps, .simple rfl⟩
  | .empty span, labels, point, _, _, _, reached, _ => by
      simp only [analyzeStmt, Stmt.behaviour]
      exact ⟨.ofSteady (.refl point) reached [], .simple rfl⟩

theorem explores_analyzeStmts :
    ∀ {stmts : List Stmt} {point : FlowPoint},
      Stmt.AllConfineElements stmts →
      Stmt.AreFresh (Stmt.allParts stmts) →
      point.jumps.loopLabel? = none →
      point.flow.reachable = true →
      point.state.JumpsValid (analyzeStmts options stmts point).point.state →
      point.Follows (analyzeStmts options stmts point).point
          (Stmt.allBehaviour (analyzeStmts options stmts point).nodes) ∧
        Stmt.Annotated (Stmt.AllReach (analyzeStmts options stmts point).nodes)
          (Stmt.allParts (analyzeStmts options stmts point).nodes) ∧
        ∀ index, (analyzeStmts options stmts point).unreachableFrom = some index ↔
          Stmt.FirstUnreached (analyzeStmts options stmts point).nodes index
  | [], point, _, _, _, reached, _ => by
      simp only [analyzeStmts, Stmt.allBehaviour]
      refine ⟨.ofSteady (.refl point) reached [], ⟨?_, ?_⟩, ?_⟩
      · rintro part labels ⟨⟩
      · simp [Stmt.allParts]
      · simp [Stmt.FirstUnreached]
  | stmt :: rest, point, confines, fresh, unlabeled, reached, valid => by
      simp only [Stmt.AllConfineElements] at confines
      simp only [Stmt.allParts, Stmt.AreFresh, List.mem_append] at fresh
      have freshHead : Stmt.AreFresh stmt.parts := fun part member => fresh part (.inl member)
      have freshRest : Stmt.AreFresh (Stmt.allParts rest) := fun part member =>
        fresh part (.inr member)
      simp only [analyzeStmts, reached, if_true] at valid ⊢
      obtain ⟨validHead, validRest⟩ := valid.split
        (cuts_analyzeStmt freshHead reached) (cuts_analyzeStmts freshRest)
      obtain ⟨head, annotated⟩ := @explores_analyzeStmt stmt [] point confines.1 freshHead
        (JumpStack.carries_of_loopLabel? unlabeled stmt) reached validHead
      have labelsLater := head.arrives.loopLabel?_eq.trans unlabeled
      simp only [Stmt.allBehaviour]
      cases goesOn : (analyzeStmt options stmt point).point.flow.reachable with
      | true =>
          have completes := head.completes.mp goesOn
          obtain ⟨tail, annotatedRest, cut⟩ :=
            @explores_analyzeStmts rest _ confines.2.1 freshRest labelsLater goesOn validRest
          refine ⟨head.followedBy (fun _ => tail) (fun stops => ?_),
            .cons annotated (fun _ => annotatedRest) (absurd completes), fun index => ?_⟩
          · rw [goesOn] at stops
            cases stops
          · cases index with
            | zero =>
                simp [Stmt.not_firstUnreached_zero]
            | succ index =>
                rw [Stmt.firstUnreached_of_ends completes, ← cut]
                simp
      | false =>
          have never : ¬((analyzeStmt options stmt point).node.behaviour []).Ends .completes := by
            simp [← head.completes, goesOn]
          obtain ⟨nodes, cut, flow, jumps⟩ := @analyzeStmts_unreached options rest _ goesOn
          rw [nodes, cut]
          refine ⟨head.followedBy (fun reached => ?_) (fun _ => ⟨?_, jumps⟩),
            .cons annotated (absurd · never) (fun _ => freshRest), fun index => ?_⟩
          · rw [goesOn] at reached
            cases reached
          · rw [flow, goesOn]
          · rw [Stmt.firstUnreached_of_not_ends never]
            cases rest <;> simp [eq_comm]

end

end Statements

end LoopLowering
