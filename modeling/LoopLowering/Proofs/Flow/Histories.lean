import LoopLowering.Proofs.Flow.PlacedAssignments

namespace LoopLowering

/-!
# Histories of locals

A local is a new one whenever its declaration is executed, and the element of a loop
is a new one in every iteration. The histories of a statement record this besides
what its executions do with locals.
-/

/-- What happens to a local: it is declared anew, or something is done with it. -/
inductive LocalEvent where
  | declares (id : LocalId)
  | does (step : LocalStep)
  deriving Repr, DecidableEq

/-- What happens to locals in an execution, in order. -/
abbrev LocalHistory := List LocalEvent

namespace LocalHistory

/-- What is done with locals. -/
def ofTrace
    (trace : LocalTrace) :
    LocalHistory :=
  trace.map .does

/-- The declaration of the local a name is bound to, if it is bound. -/
def ofDeclaration
    (binding : Option LocalId) :
    LocalHistory :=
  (binding.map .declares).toList

/-- What is done with locals in a history. -/
def trace :
    LocalHistory → LocalTrace
  | [] => []
  | .declares _ :: rest => trace rest
  | .does step :: rest => step :: trace rest

/-- A local is assigned only after it has been declared, and only once until it is
declared again. At first it may be free to be assigned. -/
def AssignsOnce
    (id : LocalId) :
    (free : Bool) → LocalHistory → Prop
  | _, [] => True
  | free, .declares declared :: rest => AssignsOnce id (free || declared = id) rest
  | free, .does (.assign assigned) :: rest =>
      if assigned = id then free = true ∧ AssignsOnce id false rest else AssignsOnce id free rest
  | free, .does (.read _ _) :: rest => AssignsOnce id free rest

variable
  {id : LocalId}

@[simp] theorem trace_append :
    ∀ (first second : LocalHistory), trace (first ++ second) = first.trace ++ second.trace
  | [], _ => rfl
  | .declares _ :: rest, second => trace_append rest second
  | .does step :: rest, second => congrArg (step :: ·) (trace_append rest second)

@[simp] theorem trace_ofTrace :
    ∀ (steps : LocalTrace), (ofTrace steps).trace = steps
  | [] => rfl
  | step :: rest => congrArg (step :: ·) (trace_ofTrace rest)

@[simp] theorem trace_ofDeclaration
    (binding : Option LocalId) :
    (ofDeclaration binding).trace = [] := by
  cases binding <;> rfl

namespace AssignsOnce

/-- A history that does not assign a local does not need it to be free. -/
theorem ofSkips :
    ∀ {history : LocalHistory} (free : Bool),
      history.trace.Skips id → AssignsOnce id free history
  | [], _, _ => trivial
  | .declares _ :: rest, _, skips => @ofSkips rest _ skips
  | .does (.read _ _) :: rest, free, skips => by
      simp only [trace, LocalTrace.Skips, List.mem_cons, reduceCtorEq, false_or] at skips
      exact @ofSkips rest free skips
  | .does (.assign assigned) :: rest, free, skips => by
      simp only [trace, LocalTrace.Skips, List.mem_cons, LocalStep.assign.injEq, not_or] at skips
      rw [AssignsOnce, if_neg (Ne.symm skips.1)]
      exact ofSkips free skips.2

/-- A history may assign a local once that is free. -/
theorem ofCount :
    ∀ {history : LocalHistory},
      history.trace.count (.assign id) ≤ 1 → AssignsOnce id true history
  | [], _ => trivial
  | .declares _ :: rest, atMost => by
      rw [AssignsOnce, Bool.true_or]
      exact ofCount atMost
  | .does (.read _ _) :: rest, atMost => by
      refine @ofCount rest ?_
      simpa [trace] using atMost
  | .does (.assign assigned) :: rest, atMost => by
      rw [trace, List.count_cons] at atMost
      rw [AssignsOnce]
      split
      · next same =>
          refine ⟨rfl, ofSkips false ?_⟩
          rw [← LocalTrace.count_eq_zero_iff]
          simpa [same] using atMost
      · next other =>
          exact ofCount (Nat.le_trans (Nat.le_add_right _ _) atMost)

/-- A local that need not be free may be. -/
theorem ofNotFree :
    ∀ {history : LocalHistory} (free : Bool),
      AssignsOnce id false history → AssignsOnce id free history
  | [], _, _ => trivial
  | .declares declared :: rest, free, once => by
      rw [AssignsOnce, Bool.false_or] at once
      rw [AssignsOnce]
      cases same : decide (declared = id) with
      | true =>
          rw [Bool.or_true]
          exact same ▸ once
      | false =>
          rw [Bool.or_false]
          exact ofNotFree free (same ▸ once)
  | .does (.read _ _) :: rest, free, once => @ofNotFree rest free once
  | .does (.assign assigned) :: rest, free, once => by
      rw [AssignsOnce] at once ⊢
      split at once
      · cases once.1
      · next other =>
          rw [if_neg other]
          exact ofNotFree free once

theorem append
    {second : LocalHistory}
    (later : AssignsOnce id false second) :
    ∀ {first : LocalHistory} {free : Bool},
      AssignsOnce id free first → AssignsOnce id free (first ++ second)
  | [], free, _ => ofNotFree free later
  | .declares _ :: rest, _, once => @append second later rest _ once
  | .does (.read _ _) :: rest, _, once => @append second later rest _ once
  | .does (.assign assigned) :: rest, _, once => by
      rw [AssignsOnce] at once
      rw [List.cons_append, AssignsOnce]
      split at once
      · next same =>
          rw [if_pos same]
          exact ⟨once.1, append later once.2⟩
      · next other =>
          rw [if_neg other]
          exact append later once

end AssignsOnce

end LocalHistory

/-- The histories of a statement, and how its executions end. -/
abbrev Histories := LocalHistory → TraceEnd → Prop

namespace Histories

/-- The only history. -/
def only
    (history : LocalHistory)
    (outcome : TraceEnd) :
    Histories :=
  fun taken ending => taken = history ∧ ending = outcome

/-- One statement after another. -/
def followedBy
    (first second : Histories) :
    Histories :=
  fun history outcome =>
    (∃ earlier later, history = earlier ++ later ∧ first earlier .completes ∧
      second later outcome) ∨
      first history outcome ∧ outcome ≠ .completes

/-- One of two statements. -/
def either
    (first second : Histories) :
    Histories :=
  fun history outcome => first history outcome ∨ second history outcome

/-- A labeled statement. -/
def leaving
    (label : String)
    (body : Histories) :
    Histories :=
  fun history outcome => ∃ ending, body history ending ∧ outcome = ending.leaving label

/-- What happens to the element of a loop at the start of an iteration. -/
def binds
    (element : Option LocalId) :
    LocalHistory :=
  .ofDeclaration element ++ .ofTrace (LocalTrace.ofBinding .assign element)

@[simp] theorem trace_binds
    (element : Option LocalId) :
    (binds element).trace = LocalTrace.ofBinding .assign element := by
  simp [binds]

/-- The iterations of a loop: each declares and assigns the element and runs the body. -/
inductive Iterated
    (labels : List String)
    (element : Option LocalId)
    (body : Histories) :
    Histories where
  /-- There are no more elements. -/
  | exhausted : Iterated labels element body [] .completes
  /-- The loop goes on. -/
  | again {history rest : LocalHistory} {outcome ending : TraceEnd} :
      body history outcome →
      outcome.resumes labels = true →
      Iterated labels element body rest ending →
      Iterated labels element body (binds element ++ history ++ rest) ending
  /-- The body breaks out of the loop. -/
  | broken {history : LocalHistory} :
      body history (.breaks none) →
      Iterated labels element body (binds element ++ history) .completes
  /-- The body leaves the loop otherwise. -/
  | left {history : LocalHistory} {outcome : TraceEnd} :
      body history outcome →
      outcome.resumes labels = false →
      outcome ≠ .breaks none →
      Iterated labels element body (binds element ++ history) outcome

/-- What is done in histories is what executions do. -/
def Does
    (histories : Histories)
    (behaviour : Behaviour) :
    Prop :=
  ∀ history outcome, histories history outcome → behaviour history.trace outcome

namespace Does

variable
  {first second : Histories}
  {one other : Behaviour}

/-- The only history does the only trace. -/
theorem only
    (history : LocalHistory)
    (outcome : TraceEnd) :
    (Histories.only history outcome).Does (.only history.trace outcome) := by
  rintro _ _ ⟨rfl, rfl⟩
  exact ⟨rfl, rfl⟩

/-- Steps without a declaration are what is done in their history. -/
theorem steps
    (trace : LocalTrace)
    (outcome : TraceEnd) :
    (Histories.only (.ofTrace trace) outcome).Does (.only trace outcome) := by
  simpa using only (.ofTrace trace) outcome

/-- A declaration adds nothing to what is done. -/
theorem declared
    (binding : Option LocalId)
    (trace : LocalTrace)
    (outcome : TraceEnd) :
    (Histories.only (.ofDeclaration binding ++ .ofTrace trace) outcome).Does
      (.only trace outcome) := by
  simpa using only (.ofDeclaration binding ++ .ofTrace trace) outcome

/-- One statement after another does what they do. -/
theorem followedBy
    (isFirst : first.Does one)
    (isSecond : second.Does other) :
    (first.followedBy second).Does (one.followedBy other) := by
  rintro history outcome (⟨earlier, later, rfl, starts, ends⟩ | ⟨stops, notComplete⟩)
  · exact .inl ⟨earlier.trace, later.trace, LocalHistory.trace_append earlier later,
      isFirst _ _ starts, isSecond _ _ ends⟩
  · exact .inr ⟨isFirst _ _ stops, notComplete⟩

/-- One of two statements does what it does. -/
theorem either
    (isFirst : first.Does one)
    (isSecond : second.Does other) :
    (first.either second).Does (one.either other) := by
  rintro history outcome (taken | taken)
  · exact .inl (isFirst _ _ taken)
  · exact .inr (isSecond _ _ taken)

/-- A labeled statement does what its body does. -/
theorem leaving
    (label : String)
    (isBody : first.Does one) :
    (first.leaving label).Does (one.leaving label) := by
  rintro history outcome ⟨ending, taken, isOutcome⟩
  exact ⟨ending, isBody _ _ taken, isOutcome⟩

/-- A loop assigns its element in every iteration, and then does what its body does. -/
theorem iterated
    (labels : List String)
    (element : Option LocalId)
    (isBody : first.Does one) :
    Does (Histories.Iterated labels element first) (.Iterated labels element one) := by
  intro history outcome iterated
  induction iterated with
  | exhausted =>
      exact .exhausted
  | again taken resumed _ inductionHypothesis =>
      rw [LocalHistory.trace_append, LocalHistory.trace_append, trace_binds]
      exact .again (isBody _ _ taken) resumed inductionHypothesis
  | broken taken =>
      rw [LocalHistory.trace_append, trace_binds]
      exact .broken (isBody _ _ taken)
  | left taken stops notBreak =>
      rw [LocalHistory.trace_append, trace_binds]
      exact .left (isBody _ _ taken) stops notBreak

end Does

end Histories

/-- What happens to locals in a declaration. -/
def LocalDecl.history
    (decl : LocalDecl) :
    LocalHistory :=
  .ofDeclaration decl.binding ++ .ofTrace decl.steps

mutual

/-- The histories of a statement, given the labels it has. The element of a loop is
declared where the collection is evaluated, and again in every iteration. -/
def Stmt.histories :
    Stmt → (labels : List String) → Histories
  | .localVar _ decl, _ => .only decl.history .completes
  | .expr _ value, _ => .only (.ofTrace value.steps) .completes
  | .block _ stmts _, _ => Stmt.allHistories stmts
  | .branch _ condition thenBranch none, _ =>
      .followedBy (.only (.ofTrace condition.steps) .completes)
        (.either (thenBranch.histories []) (.only [] .completes))
  | .branch _ condition thenBranch (some elseBranch), _ =>
      .followedBy (.only (.ofTrace condition.steps) .completes)
        (.either (thenBranch.histories []) (elseBranch.histories []))
  | .forEach _ element collection none _, labels =>
      .followedBy (.only (.ofDeclaration element.binding ++ .ofTrace collection.steps) .completes)
        (.Iterated labels element.binding (.only [] .completes))
  | .forEach _ element collection (some action) _, labels =>
      .followedBy (.only (.ofDeclaration element.binding ++ .ofTrace collection.steps) .completes)
        (.Iterated labels element.binding (action.histories []))
  | .labeled _ label body, labels =>
      .leaving label.node (body.histories (label.node :: labels))
  | .breakTo _ label, _ => .only [] (.breaks (label.map Spanned.node))
  | .continueTo _ label, _ => .only [] (.continues (label.map Spanned.node))
  | .returnWith _ none, _ => .only [] .returns
  | .returnWith _ (some value), _ => .only (.ofTrace value.steps) .returns
  | .empty _, _ => .only [] .completes

/-- The histories of statements in order. -/
def Stmt.allHistories :
    List Stmt → Histories
  | [] => .only [] .completes
  | stmt :: rest => .followedBy (stmt.histories []) (Stmt.allHistories rest)

end

mutual

/-- What is done in the histories of a statement is what its executions do. -/
theorem Stmt.does_histories :
    ∀ (stmt : Stmt) (labels : List String),
      (stmt.histories labels).Does (stmt.behaviour labels)
  | .localVar _ decl, labels => by
      simp only [histories, behaviour]
      exact .declared _ _ _
  | .expr _ value, labels | .returnWith _ (some value), labels => by
      simp only [histories, behaviour]
      exact .steps _ _
  | .block _ stmts _, labels => by
      simp only [histories, behaviour]
      exact Stmt.does_allHistories stmts
  | .branch _ condition thenBranch none, labels => by
      simp only [histories, behaviour]
      exact .followedBy (.steps _ _) (.either (thenBranch.does_histories []) (.steps [] _))
  | .branch _ condition thenBranch (some elseBranch), labels => by
      simp only [histories, behaviour]
      exact .followedBy (.steps _ _)
        (.either (thenBranch.does_histories []) (elseBranch.does_histories []))
  | .forEach _ element collection none _, labels => by
      simp only [histories, behaviour]
      exact .followedBy (.declared _ _ _) (.iterated labels element.binding (.steps [] _))
  | .forEach _ element collection (some action) _, labels => by
      simp only [histories, behaviour]
      exact .followedBy (.declared _ _ _)
        (.iterated labels element.binding (action.does_histories []))
  | .labeled _ label body, labels => by
      simp only [histories, behaviour]
      exact .leaving label.node (body.does_histories (label.node :: labels))
  | .breakTo .., labels | .continueTo .., labels | .returnWith _ none, labels
  | .empty _, labels => by
      simp only [histories, behaviour]
      exact .steps [] _

theorem Stmt.does_allHistories :
    ∀ (stmts : List Stmt), (Stmt.allHistories stmts).Does (Stmt.allBehaviour stmts)
  | [] => by
      simp only [allHistories, allBehaviour]
      exact .steps [] _
  | stmt :: rest => by
      simp only [allHistories, allBehaviour]
      exact .followedBy (stmt.does_histories []) (Stmt.does_allHistories rest)

end

end LoopLowering
