import LoopLowering.Syntax.Tree

namespace LoopLowering

/-!
# What executions do with locals

An execution reads and assigns locals, and in the end it completes or leaves by a
jump. A condition may go either way and a loop may run its body any number of
times, so a statement has many executions. Its behaviour says which traces they
leave and how they end.
-/

/-- What an execution does with a local. -/
inductive LocalStep where
  | read (span : Span) (id : LocalId)
  | assign (id : LocalId)
  deriving Repr, DecidableEq

/-- What an execution does with locals, in order. -/
abbrev LocalTrace := List LocalStep

namespace LocalTrace

/-- What happens to the local a name is bound to, if it is bound. -/
def ofBinding
    (step : LocalId → LocalStep)
    (binding : Option LocalId) :
    LocalTrace :=
  (binding.map step).toList

/-- A local is not assigned. -/
def Skips
    (id : LocalId)
    (trace : LocalTrace) :
    Prop :=
  LocalStep.assign id ∉ trace

/-- A local is read at a position before it is assigned. -/
def ReadsEarly
    (span : Span)
    (id : LocalId)
    (trace : LocalTrace) :
    Prop :=
  ∃ earlier later, trace = earlier ++ .read span id :: later ∧ Skips id earlier

variable
  {span : Span}
  {id : LocalId}
  {first second : LocalTrace}

@[simp] theorem skips_nil
    (id : LocalId) :
    Skips id [] :=
  List.not_mem_nil

@[simp] theorem skips_append :
    Skips id (first ++ second) ↔ Skips id first ∧ Skips id second := by
  simp [Skips, not_or]

@[simp] theorem skips_read
    (binding : Option LocalId) :
    Skips id (ofBinding (.read span) binding) := by
  cases binding <;> simp [Skips, ofBinding]

@[simp] theorem skips_assign
    (binding : Option LocalId) :
    Skips id (ofBinding .assign binding) ↔ binding ≠ some id := by
  cases binding <;> simp [Skips, ofBinding, eq_comm]

@[simp] theorem not_readsEarly_nil
    (span : Span)
    (id : LocalId) :
    ¬ReadsEarly span id [] := by
  rintro ⟨earlier, later, isTrace, -⟩
  simp at isTrace

@[simp] theorem readsEarly_append :
    ReadsEarly span id (first ++ second) ↔
      ReadsEarly span id first ∨ Skips id first ∧ ReadsEarly span id second := by
  constructor
  · rintro ⟨earlier, later, isTrace, skips⟩
    rcases List.append_eq_append_iff.mp isTrace with ⟨between, rfl, isSecond⟩ |
        ⟨between, isFirst, isRead⟩
    · rw [skips_append] at skips
      exact .inr ⟨skips.1, between, later, isSecond, skips.2⟩
    · cases between with
      | nil =>
          have isSecond : second = .read span id :: later := by
            simpa using isRead.symm
          have isEarlier : first = earlier := by
            simpa using isFirst
          exact .inr ⟨isEarlier ▸ skips, [], later, isSecond, skips_nil id⟩
      | cons step rest =>
          simp only [List.cons_append, List.cons.injEq] at isRead
          obtain ⟨rfl, -⟩ := isRead
          exact .inl ⟨earlier, rest, isFirst, skips⟩
  · rintro (⟨earlier, later, rfl, skips⟩ | ⟨skipsFirst, earlier, later, rfl, skips⟩)
    · exact ⟨earlier, later ++ second, by simp, skips⟩
    · exact ⟨first ++ earlier, later, by simp, skips_append.mpr ⟨skipsFirst, skips⟩⟩

@[simp] theorem readsEarly_read
    {position : Span}
    (binding : Option LocalId) :
    ReadsEarly span id (ofBinding (.read position) binding) ↔
      position = span ∧ binding = some id := by
  constructor
  · rintro ⟨earlier, later, isTrace, -⟩
    have member : LocalStep.read span id ∈ ofBinding (.read position) binding := by
      simp [isTrace]
    cases binding with
    | none =>
        simp [ofBinding] at member
    | some bound =>
        simp only [ofBinding, Option.map_some, Option.toList_some, List.mem_singleton,
          LocalStep.read.injEq] at member
        exact ⟨member.1.symm, congrArg some member.2.symm⟩
  · rintro ⟨rfl, rfl⟩
    exact ⟨[], [], rfl, skips_nil id⟩

@[simp] theorem not_readsEarly_assign
    (binding : Option LocalId) :
    ¬ReadsEarly span id (ofBinding .assign binding) := by
  rintro ⟨earlier, later, isTrace, -⟩
  have member : LocalStep.read span id ∈ ofBinding .assign binding := by
    simp [isTrace]
  cases binding <;> simp [ofBinding] at member

/-- What is read early is read. -/
theorem ReadsEarly.mem
    {trace : LocalTrace}
    (reads : ReadsEarly span id trace) :
    .read span id ∈ trace := by
  obtain ⟨earlier, later, rfl, -⟩ := reads
  simp

end LocalTrace

mutual

/-- What an expression does with locals: its operands are evaluated from left to
right, and a compound assignment reads its target first. -/
def Expr.steps :
    Expr → LocalTrace
  | .intLit .. | .boolLit .. | .stringLit .. | .null _ => []
  | .name span ref => LocalTrace.ofBinding (.read span) ref.binding
  | .newArray _ _ elements => Expr.allSteps elements
  | .binary _ _ left right => left.steps ++ right.steps
  | .assign _ target op value =>
      (if op.isSome then LocalTrace.ofBinding (.read target.span) target.node.binding else []) ++
        (value.steps ++ LocalTrace.ofBinding .assign target.node.binding)
  | .call _ _ args => Expr.allSteps args
  | .methodCall _ receiver _ args => receiver.steps ++ Expr.allSteps args

/-- What expressions do with locals. -/
def Expr.allSteps :
    List Expr → LocalTrace
  | [] => []
  | expr :: rest => expr.steps ++ Expr.allSteps rest

end

/-- What a declaration does with locals. -/
def LocalDecl.steps
    (decl : LocalDecl) :
    LocalTrace :=
  match decl.initial with
  | none => []
  | some value => value.steps ++ LocalTrace.ofBinding .assign decl.binding

/-- How an execution of a statement ends. -/
inductive TraceEnd where
  | completes
  | breaks (label : Option String)
  | continues (label : Option String)
  | returns
  deriving Repr, DecidableEq

namespace TraceEnd

/-- A body that ends so lets its loop go on, given the labels of the loop. -/
def resumes
    (labels : List String) :
    TraceEnd → Bool
  | completes | continues none => true
  | continues (some label) => labels.contains label
  | _ => false

/-- How a labeled statement ends whose body ends so. -/
def leaving
    (label : String)
    (outcome : TraceEnd) :
    TraceEnd :=
  if outcome = .breaks (some label) then .completes else outcome

variable
  {label : String}
  {outcome : TraceEnd}

/-- A labeled statement completes if its body does or breaks to the label. -/
theorem completes_eq_leaving :
    .completes = outcome.leaving label ↔ outcome = .completes ∨ outcome = .breaks (some label) := by
  unfold leaving
  split
  · next isBreak =>
      simp [isBreak]
  · next notBreak =>
      simp [notBreak, eq_comm]

/-- A labeled statement breaks if its body breaks to something else. -/
theorem breaks_eq_leaving
    {other : Option String} :
    .breaks other = outcome.leaving label ↔ outcome = .breaks other ∧ other ≠ some label := by
  unfold leaving
  split
  · next isBreak =>
      subst isBreak
      simp only [reduceCtorEq, breaks.injEq, false_iff, not_and]
      exact fun isOther different => different isOther.symm
  · next notBreak =>
      constructor
      · rintro rfl
        exact ⟨rfl, fun isLabel => notBreak (by rw [isLabel])⟩
      · exact fun isBreak => isBreak.1.symm

end TraceEnd

/-- The executions of a statement: the traces they leave, and how they end. -/
abbrev Behaviour := LocalTrace → TraceEnd → Prop

namespace Behaviour

/-- The only execution. -/
def only
    (trace : LocalTrace)
    (outcome : TraceEnd) :
    Behaviour :=
  fun taken ending => taken = trace ∧ ending = outcome

/-- One statement after another. -/
def followedBy
    (first second : Behaviour) :
    Behaviour :=
  fun trace outcome =>
    (∃ earlier later, trace = earlier ++ later ∧ first earlier .completes ∧ second later outcome) ∨
      first trace outcome ∧ outcome ≠ .completes

/-- One of two statements. -/
def either
    (first second : Behaviour) :
    Behaviour :=
  fun trace outcome => first trace outcome ∨ second trace outcome

/-- A labeled statement. -/
def leaving
    (label : String)
    (body : Behaviour) :
    Behaviour :=
  fun trace outcome => ∃ ending, body trace ending ∧ outcome = ending.leaving label

/-- The iterations of a loop: each assigns the element and runs the body. -/
inductive Iterated
    (labels : List String)
    (element : Option LocalId)
    (body : Behaviour) :
    Behaviour where
  /-- There are no more elements. -/
  | exhausted : Iterated labels element body [] .completes
  /-- The loop goes on. -/
  | again {trace rest : LocalTrace} {outcome ending : TraceEnd} :
      body trace outcome →
      outcome.resumes labels = true →
      Iterated labels element body rest ending →
      Iterated labels element body (LocalTrace.ofBinding .assign element ++ trace ++ rest) ending
  /-- The body breaks out of the loop. -/
  | broken {trace : LocalTrace} :
      body trace (.breaks none) →
      Iterated labels element body (LocalTrace.ofBinding .assign element ++ trace) .completes
  /-- The body leaves the loop otherwise. -/
  | left {trace : LocalTrace} {outcome : TraceEnd} :
      body trace outcome →
      outcome.resumes labels = false →
      outcome ≠ .breaks none →
      Iterated labels element body (LocalTrace.ofBinding .assign element ++ trace) outcome

/-- There is an execution. -/
def Possible
    (behaviour : Behaviour) :
    Prop :=
  ∃ trace outcome, behaviour trace outcome

end Behaviour

mutual

/-- The executions of a statement, given the labels it has. A condition may go
either way, and a loop may run its body any number of times. -/
def Stmt.behaviour :
    Stmt → (labels : List String) → Behaviour
  | .localVar _ decl, _ => .only decl.steps .completes
  | .expr _ value, _ => .only value.steps .completes
  | .block _ stmts _, _ => Stmt.allBehaviour stmts
  | .branch _ condition thenBranch none, _ =>
      .followedBy (.only condition.steps .completes)
        (.either (thenBranch.behaviour []) (.only [] .completes))
  | .branch _ condition thenBranch (some elseBranch), _ =>
      .followedBy (.only condition.steps .completes)
        (.either (thenBranch.behaviour []) (elseBranch.behaviour []))
  | .forEach _ element collection none _, labels =>
      .followedBy (.only collection.steps .completes)
        (.Iterated labels element.binding (.only [] .completes))
  | .forEach _ element collection (some action) _, labels =>
      .followedBy (.only collection.steps .completes)
        (.Iterated labels element.binding (action.behaviour []))
  | .labeled _ label body, labels =>
      .leaving label.node (body.behaviour (label.node :: labels))
  | .breakTo _ label, _ => .only [] (.breaks (label.map Spanned.node))
  | .continueTo _ label, _ => .only [] (.continues (label.map Spanned.node))
  | .returnWith _ none, _ => .only [] .returns
  | .returnWith _ (some value), _ => .only value.steps .returns
  | .empty _, _ => .only [] .completes

/-- The executions of statements in order. -/
def Stmt.allBehaviour :
    List Stmt → Behaviour
  | [] => .only [] .completes
  | stmt :: rest => .followedBy (stmt.behaviour []) (Stmt.allBehaviour rest)

end

namespace Behaviour

variable
  {labels : List String}
  {element : Option LocalId}
  {body : Behaviour}
  {trace : LocalTrace}
  {outcome : TraceEnd}

/-- A statement that can be executed can be executed before another one. -/
theorem Possible.followedBy
    {first second : Behaviour}
    (possible : first.Possible)
    (goesOn : second.Possible) :
    (first.followedBy second).Possible := by
  obtain ⟨earlier, ending, isFirst⟩ := possible
  obtain ⟨later, outcome, isSecond⟩ := goesOn
  by_cases completes : ending = .completes
  · subst completes
    exact ⟨earlier ++ later, outcome, .inl ⟨earlier, later, rfl, isFirst, isSecond⟩⟩
  · exact ⟨earlier, ending, .inr ⟨isFirst, completes⟩⟩

/-- An execution of a body is the first iteration of its loop. -/
theorem Iterated.ofBody
    (labels : List String)
    (element : Option LocalId)
    (isBody : body trace outcome) :
    ∃ rest ending,
      Iterated labels element body (LocalTrace.ofBinding .assign element ++ trace ++ rest) ending := by
  cases resumed : outcome.resumes labels with
  | true =>
      exact ⟨[], .completes, .again isBody resumed .exhausted⟩
  | false =>
      by_cases isBreak : outcome = .breaks none
      · subst isBreak
        exact ⟨[], .completes, by simpa using Iterated.broken isBody⟩
      · exact ⟨[], outcome, by simpa using Iterated.left isBody resumed isBreak⟩

/-- A loop is not left by a break without a label, and one that leaves it by
another break is of its body. -/
theorem Iterated.breaks
    {label : Option String}
    (iterated : Iterated labels element body trace (.breaks label)) :
    label ≠ none ∧ ∃ taken, body taken (.breaks label) ∧ ∀ id, trace.Skips id →
      taken.Skips id := by
  generalize isOutcome : TraceEnd.breaks label = outcome at iterated
  induction iterated with
  | exhausted =>
      cases isOutcome
  | again isBody resumed rest inductionHypothesis =>
      obtain ⟨isLabel, taken, isTaken, skips⟩ := inductionHypothesis isOutcome
      exact ⟨isLabel, taken, isTaken, fun id skipped =>
        skips id (LocalTrace.skips_append.mp skipped).2⟩
  | broken isBody =>
      cases isOutcome
  | @left taken ending isBody resumed notBreak =>
      subst isOutcome
      exact ⟨fun isNone => notBreak (by rw [isNone]), taken, isBody, fun id skipped =>
        (LocalTrace.skips_append.mp skipped).2⟩

/-- What a loop reads early, its body does, and it is not the element. -/
theorem Iterated.readsEarly
    {span : Span}
    {id : LocalId}
    (iterated : Iterated labels element body trace outcome)
    (reads : trace.ReadsEarly span id) :
    element ≠ some id ∧ ∃ taken ending, body taken ending ∧ taken.ReadsEarly span id := by
  induction iterated with
  | exhausted =>
      simp at reads
  | @again taken rest ending outcome isBody resumed goesOn inductionHypothesis =>
      simp only [LocalTrace.readsEarly_append, LocalTrace.not_readsEarly_assign, false_or,
        LocalTrace.skips_append, LocalTrace.skips_assign] at reads
      rcases reads with ⟨notElement, reads⟩ | ⟨-, reads⟩
      · exact ⟨notElement, taken, ending, isBody, reads⟩
      · exact inductionHypothesis reads
  | @broken taken isBody =>
      simp only [LocalTrace.readsEarly_append, LocalTrace.not_readsEarly_assign, false_or,
        LocalTrace.skips_assign] at reads
      exact ⟨reads.1, taken, _, isBody, reads.2⟩
  | @left taken ending isBody resumed notBreak =>
      simp only [LocalTrace.readsEarly_append, LocalTrace.not_readsEarly_assign, false_or,
        LocalTrace.skips_assign] at reads
      exact ⟨reads.1, taken, ending, isBody, reads.2⟩

/-- What a loop reads, its body does. -/
theorem Iterated.mem_read
    {span : Span}
    {id : LocalId}
    (iterated : Iterated labels element body trace outcome)
    (member : .read span id ∈ trace) :
    ∃ taken ending, body taken ending ∧ .read span id ∈ taken := by
  have notAssigned : ∀ binding, LocalStep.read span id ∉ LocalTrace.ofBinding .assign binding := by
    intro binding
    cases binding <;> simp [LocalTrace.ofBinding]
  induction iterated with
  | exhausted =>
      cases member
  | @again taken rest ending outcome isBody resumed goesOn inductionHypothesis =>
      rcases List.mem_append.mp member with inFirst | inRest
      · rcases List.mem_append.mp inFirst with isAssigned | inBody
        · exact absurd isAssigned (notAssigned element)
        · exact ⟨taken, ending, isBody, inBody⟩
      · exact inductionHypothesis inRest
  | @broken taken isBody =>
      rcases List.mem_append.mp member with isAssigned | inBody
      · exact absurd isAssigned (notAssigned element)
      · exact ⟨taken, _, isBody, inBody⟩
  | @left taken ending isBody resumed notBreak =>
      rcases List.mem_append.mp member with isAssigned | inBody
      · exact absurd isAssigned (notAssigned element)
      · exact ⟨taken, ending, isBody, inBody⟩

end Behaviour

mutual

/-- Every statement can be executed: it takes its branches, and its loops run out
at once. -/
theorem Stmt.possible_behaviour :
    ∀ (stmt : Stmt) (labels : List String), (stmt.behaviour labels).Possible
  | .localVar .., _ | .expr .., _ | .breakTo .., _ | .continueTo .., _
  | .returnWith _ none, _ | .returnWith _ (some _), _ | .empty _, _ => by
      simp only [behaviour]
      exact ⟨_, _, rfl, rfl⟩
  | .block _ stmts _, _ => by
      simp only [behaviour]
      exact Stmt.possible_allBehaviour stmts
  | .branch _ condition thenBranch none, _ | .branch _ condition thenBranch (some _), _ => by
      obtain ⟨trace, outcome, isThen⟩ := thenBranch.possible_behaviour []
      simp only [behaviour]
      exact .followedBy ⟨_, _, rfl, rfl⟩ ⟨trace, outcome, .inl isThen⟩
  | .forEach _ _ _ none _, _ | .forEach _ _ _ (some _) _, _ => by
      simp only [behaviour]
      exact .followedBy ⟨_, _, rfl, rfl⟩ ⟨[], .completes, .exhausted⟩
  | .labeled _ label body, labels => by
      obtain ⟨trace, outcome, isBody⟩ := body.possible_behaviour (label.node :: labels)
      simp only [behaviour]
      exact ⟨trace, _, outcome, isBody, rfl⟩

theorem Stmt.possible_allBehaviour :
    ∀ (stmts : List Stmt), (Stmt.allBehaviour stmts).Possible
  | [] => by
      simp only [allBehaviour]
      exact ⟨_, _, rfl, rfl⟩
  | stmt :: rest => by
      simp only [allBehaviour]
      exact (stmt.possible_behaviour []).followedBy (Stmt.possible_allBehaviour rest)

end

end LoopLowering
