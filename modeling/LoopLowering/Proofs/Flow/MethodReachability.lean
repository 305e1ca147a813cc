import LoopLowering.Proofs.Flow.UnreachableCode
import LoopLowering.Syntax.JsonForm
import LoopLowering.Proofs.Flow.Methods
import LoopLowering.Proofs.Flow.Reachability

namespace LoopLowering

/-!
# Reachability from the source of a method

What flow analysis knows of a method that has been read and resolved.

## Methods before flow analysis

A method that has been read has nothing cut off in its blocks, and neither has one
whose names have been resolved.
-/

/-- Whatever a reading gives has a property. -/
def Json.Gives
    {α : Type}
    (reading : Json.Shaped α)
    (property : α → Prop) :
    Prop :=
  ∀ value, reading = .ok value → property value

namespace Json.Gives

variable
  {α β : Type}
  {property : α → Prop}
  {second : β → Prop}

/-- A value that is given has the property. -/
theorem pure
    {value : α}
    (holds : property value) :
    Gives (Pure.pure value) property := by
  rintro _ ⟨⟩
  exact holds

/-- A failure gives nothing. -/
theorem error
    (cause : Json.ShapeError) :
    Gives (.error cause) property := by
  rintro _ ⟨⟩

/-- One reading after another gives what the second does. -/
theorem bind
    {reading : Json.Shaped α}
    {next : α → Json.Shaped β}
    (first : Gives reading property)
    (then_ : ∀ value, property value → Gives (next value) second) :
    Gives (reading >>= next) second := by
  intro value isRead
  cases read : reading with
  | error cause =>
      rw [read] at isRead
      cases isRead
  | ok earlier =>
      rw [read] at isRead
      exact then_ earlier (first earlier read) value isRead

/-- What a reading gives does not matter for the next one. -/
theorem after
    {reading : Json.Shaped α}
    {next : α → Json.Shaped β}
    (then_ : ∀ value, Gives (next value) second) :
    Gives (reading >>= next) second :=
  @bind α β (fun _ => True) second reading next (fun _ _ => trivial) fun value _ => then_ value

/-- What is made of a reading has a property if it has it when made of what is given. -/
theorem map
    {reading : Json.Shaped α}
    {change : α → β}
    (first : Gives reading property)
    (changes : ∀ value, property value → second (change value)) :
    Gives (reading.map change) second := by
  intro value isRead
  cases read : reading with
  | error cause =>
      rw [read] at isRead
      cases isRead
  | ok earlier =>
      rw [read] at isRead
      obtain rfl := Except.ok.inj isRead
      exact changes earlier (first earlier read)

/-- What is given in its place is given. -/
theorem placed
    {read : Span → Json → Json.Shaped α}
    (gives : ∀ span json, Gives (read span json) property)
    (json : Json) :
    Gives (readPlaced read json) property :=
  after fun _ => after fun node => after fun span => gives span node

/-- Every item of a list that is given has the property. -/
theorem listOf
    {read : Json → Json.Shaped α}
    (gives : ∀ json, Gives (read json) property)
    (json : Json) :
    Gives (Json.listOf read json) fun values => ∀ value ∈ values, property value := by
  refine after fun items => ?_
  induction items with
  | nil =>
      exact pure (by simp)
  | cons item rest inductionHypothesis =>
      rw [List.mapM_cons]
      refine bind (gives item) fun value holds => bind inductionHypothesis fun others allHold => ?_
      exact pure (by simpa using ⟨holds, allHold⟩)

/-- A member that may be left out has the property if it is there. -/
theorem optional
    {read : Json → Json.Shaped α}
    (gives : ∀ json, Gives (read json) property)
    (name : String)
    (members : List (String × Json)) :
    Gives (Json.optional name read members) fun value? => ∀ value, value? = some value →
      property value := by
  refine after fun member? => ?_
  cases member? with
  | none =>
      exact pure (by simp)
  | some json =>
      simp only [Json.nullable]
      split
      · exact pure (by simp)
      · exact (gives json).map fun value holds other same => Option.some.inj same ▸ holds

end Json.Gives

namespace Stmt

/-- Statements are fresh if each of them is. -/
theorem areFresh_allParts
    {stmts : List Stmt}
    (fresh : ∀ stmt ∈ stmts, AreFresh stmt.parts) :
    AreFresh (allParts stmts) := by
  induction stmts with
  | nil =>
      simp [AreFresh, allParts]
  | cons stmt rest inductionHypothesis =>
      rw [List.forall_mem_cons] at fresh
      simp only [AreFresh, allParts, List.forall_mem_append]
      exact ⟨fresh.1, inductionHypothesis fresh.2⟩

/-- A statement that has been read is fresh. -/
theorem gives_ofNodeWithin :
    ∀ (fuel : Nat) (span : Span) (json : Json),
      Json.Gives (ofNodeWithin fuel span json) fun stmt => AreFresh stmt.parts
  | 0, _, _ => .error _
  | fuel + 1, span, json => by
      have placed := Json.Gives.placed (gives_ofNodeWithin fuel)
      unfold ofNodeWithin
      refine .after fun variant => ?_
      split
      · refine .after fun payload => .after fun decl => .pure ?_
        simp [AreFresh, parts, unreachableFrom?]
      · refine .after fun payload => .after fun value => .pure ?_
        simp [AreFresh, parts, unreachableFrom?]
      · refine .after fun members => .after fun json => .bind (.listOf placed json)
          fun stmts fresh => .pure ?_
        simp only [AreFresh, parts, List.forall_mem_cons]
        exact ⟨rfl, areFresh_allParts fresh⟩
      · refine .after fun members => .after fun json => .after fun condition => .after fun json =>
          .bind (placed json) fun thenBranch freshThen =>
            .bind (.optional placed _ members) fun elseBranch freshElse => .pure ?_
        cases elseBranch with
        | none =>
            simp only [AreFresh, parts, List.forall_mem_cons]
            exact ⟨rfl, freshThen⟩
        | some elseBranch =>
            simp only [AreFresh, parts, List.forall_mem_cons, List.forall_mem_append]
            exact ⟨rfl, freshThen, freshElse elseBranch rfl⟩
      · refine .after fun members => .after fun json => .after fun element => .after fun json =>
          .after fun collection => .bind (.optional placed _ members) fun action fresh => .pure ?_
        cases action with
        | none =>
            simp [AreFresh, parts, unreachableFrom?]
        | some action =>
            simp only [AreFresh, parts, List.forall_mem_cons]
            exact ⟨rfl, fresh action rfl⟩
      · refine .after fun members => .after fun json => .after fun label => .after fun json =>
          .bind (placed json) fun body fresh => .pure ?_
        simp only [AreFresh, parts, List.forall_mem_cons]
        exact ⟨rfl, fresh⟩
      · refine .after fun payload => .after fun label => .pure ?_
        simp [AreFresh, parts, unreachableFrom?]
      · refine .after fun payload => .after fun label => .pure ?_
        simp [AreFresh, parts, unreachableFrom?]
      · refine .after fun payload => .after fun value => .pure ?_
        simp [AreFresh, parts, unreachableFrom?]
      · unfold Json.Variant.bare
        split
        · exact .pure (by simp [AreFresh, parts, unreachableFrom?])
        · exact .pure (by simp [AreFresh, parts, unreachableFrom?])
        · exact .error _
      · exact .error _

end Stmt

/-- A method that has been read is fresh. -/
theorem areFresh_ofJson
    {json : Json}
    {method : Method}
    (isRead : Method.ofJson json = .ok method) :
    Stmt.AreFresh (Stmt.allParts method.body.stmts) := by
  have block : ∀ json, Json.Gives (Block.ofJson json) fun body =>
      Stmt.AreFresh (Stmt.allParts body.stmts) :=
    .placed fun span node => .after fun members => .after fun json =>
      .bind (.listOf (.placed fun span node => Stmt.gives_ofNodeWithin _ span node) json)
        fun stmts fresh => .pure (Stmt.areFresh_allParts fresh)
  have gives : Json.Gives (Method.ofJson json) fun method =>
      Stmt.AreFresh (Stmt.allParts method.body.stmts) := by
    refine .after fun members => .after fun json => .after fun name => .after fun typeParams =>
      .after fun params => .after fun returnType => .after fun json => ?_
    exact .bind (block json) fun body fresh => .pure fresh
  exact gives method isRead

section Resolution

variable
  {table : ClassTable}
  {options : CompilerOptions}

mutual

/-- Resolving a statement keeps what was cut off in blocks. -/
theorem unreachableFrom?_checkStmt :
    ∀ (stmt : Stmt) (block : ScopeId) (state : MethodState),
      (checkStmt table options block stmt state).node.parts.map Stmt.unreachableFrom? =
        stmt.parts.map Stmt.unreachableFrom?
  | .localVar span decl, block, state => by
      simp only [checkStmt]
      split <;> simp [Stmt.parts, Stmt.unreachableFrom?]
  | .block span stmts facts, block, state => by
      simp [checkStmt, Stmt.parts, Stmt.unreachableFrom?, unreachableFrom?_checkStmts stmts]
  | .branch span condition thenBranch none, block, state => by
      simp [checkStmt, Stmt.parts, Stmt.unreachableFrom?, unreachableFrom?_checkStmt thenBranch]
  | .branch span condition thenBranch (some elseBranch), block, state => by
      simp [checkStmt, Stmt.parts, Stmt.unreachableFrom?, unreachableFrom?_checkStmt thenBranch,
        unreachableFrom?_checkStmt elseBranch]
  | .forEach span element collection none facts, block, state => by
      simp [checkStmt, Stmt.parts, Stmt.unreachableFrom?]
  | .forEach span element collection (some action) facts, block, state => by
      simp [checkStmt, Stmt.parts, Stmt.unreachableFrom?, unreachableFrom?_checkStmt action]
  | .labeled span label body, block, state => by
      simp [checkStmt, Stmt.parts, Stmt.unreachableFrom?, unreachableFrom?_checkStmt body]
  | .expr .., block, state | .breakTo .., block, state | .continueTo .., block, state
  | .returnWith _ none, block, state | .returnWith _ (some _), block, state
  | .empty _, block, state => by
      simp [checkStmt, Stmt.parts, Stmt.unreachableFrom?]

theorem unreachableFrom?_checkStmts :
    ∀ (stmts : List Stmt) (block : ScopeId) (state : MethodState),
      (Stmt.allParts (checkStmts table options block stmts state).node).map Stmt.unreachableFrom? =
        (Stmt.allParts stmts).map Stmt.unreachableFrom?
  | [], block, state => by
      simp [checkStmts]
  | stmt :: rest, block, state => by
      simp [checkStmts, Stmt.allParts, unreachableFrom?_checkStmt stmt,
        unreachableFrom?_checkStmts rest]

end

/-- Fresh statements are so after their names are resolved. -/
theorem Stmt.AreFresh.checkStmts
    {stmts : List Stmt}
    (fresh : AreFresh (allParts stmts))
    (block : ScopeId)
    (state : MethodState) :
    AreFresh (allParts (LoopLowering.checkStmts table options block stmts state).node) := by
  have noCuts : ∀ position ∈ (allParts stmts).map unreachableFrom?, position = none :=
    List.forall_mem_map.mpr fresh
  rw [← unreachableFrom?_checkStmts stmts block state] at noCuts
  exact List.forall_mem_map.mp noCuts

end Resolution

/-!
## Reachability in methods

If all jumps of a method have targets, flow analysis knows exactly which of its
statements are reached, which of its loops go on after their bodies, and whether
it can end without returning. It reports unreachable code once for each block that
is entered and of which some statement is not reached.
-/

mutual

/-- What is executed in a part that is reached is executed in the whole. -/
theorem Stmt.Reaches.extends :
    ∀ {stmt part : Stmt} {labels partLabels : List String} {trace : LocalTrace}
      {outcome : TraceEnd},
      stmt.Reaches labels part partLabels →
      part.behaviour partLabels trace outcome →
      ∃ earlier later ending, stmt.behaviour labels (earlier ++ trace ++ later) ending
  | _, _, _, _, trace, outcome, .itself, isPart => ⟨[], [], outcome, by simpa using isPart⟩
  | .block _ stmts _, _, _, _, _, _, .inBlock inner, isPart => by
      simp only [Stmt.behaviour]
      exact inner.extends isPart
  | .branch _ condition _ none, _, _, _, _, _, .thenBranch inner, isPart
  | .branch _ condition _ (some _), _, _, _, _, _, .thenBranch inner, isPart => by
      obtain ⟨earlier, later, ending, isThen⟩ := inner.extends isPart
      simp only [Stmt.behaviour]
      exact ⟨condition.steps ++ earlier, later, ending, .inl ⟨condition.steps, _, by simp,
        ⟨rfl, rfl⟩, .inl isThen⟩⟩
  | .branch _ condition _ _, _, _, _, _, _, .elseBranch inner, isPart => by
      obtain ⟨earlier, later, ending, isElse⟩ := inner.extends isPart
      simp only [Stmt.behaviour]
      exact ⟨condition.steps ++ earlier, later, ending, .inl ⟨condition.steps, _, by simp,
        ⟨rfl, rfl⟩, .inr isElse⟩⟩
  | .forEach _ element collection _ _, _, labels, _, trace, _, .inLoop inner, isPart => by
      obtain ⟨earlier, later, ending, isAction⟩ := inner.extends isPart
      obtain ⟨rest, last, iterated⟩ := Behaviour.Iterated.ofBody labels element.binding isAction
      simp only [Stmt.behaviour]
      exact ⟨collection.steps ++ (LocalTrace.ofBinding .assign element.binding ++ earlier),
        later ++ rest, last, .inl ⟨collection.steps,
          LocalTrace.ofBinding .assign element.binding ++ (earlier ++ trace ++ later) ++ rest,
          by simp, ⟨rfl, rfl⟩, iterated⟩⟩
  | .labeled _ label _, _, _, _, _, _, .inLabeled inner, isPart => by
      obtain ⟨earlier, later, ending, isBody⟩ := inner.extends isPart
      simp only [Stmt.behaviour]
      exact ⟨earlier, later, _, ending, isBody, rfl⟩

theorem Stmt.AllReach.extends :
    ∀ {stmts : List Stmt} {part : Stmt} {partLabels : List String} {trace : LocalTrace}
      {outcome : TraceEnd},
      Stmt.AllReach stmts part partLabels →
      part.behaviour partLabels trace outcome →
      ∃ earlier later ending, Stmt.allBehaviour stmts (earlier ++ trace ++ later) ending
  | stmt :: rest, _, _, _, _, .head inner, isPart => by
      obtain ⟨earlier, later, ending, isStmt⟩ := inner.extends isPart
      simp only [Stmt.allBehaviour]
      by_cases completes : ending = .completes
      · subst completes
        obtain ⟨further, last, isRest⟩ := Stmt.possible_allBehaviour rest
        exact ⟨earlier, later ++ further, last, .inl ⟨_, further, by simp, isStmt, isRest⟩⟩
      · exact ⟨earlier, later, ending, .inr ⟨isStmt, completes⟩⟩
  | stmt :: rest, _, _, _, _, .tail ⟨first, completes⟩ inner, isPart => by
      obtain ⟨earlier, later, ending, isRest⟩ := inner.extends isPart
      simp only [Stmt.allBehaviour]
      exact ⟨first ++ earlier, later, ending, .inl ⟨first, _, by simp, completes, isRest⟩⟩

end

section Methods

variable
  {table : ClassTable}
  {options : CompilerOptions}
  {method : Method}

/-- What flow analysis reports about a method. -/
def Method.flowReports
    (table : ClassTable)
    (options : CompilerOptions)
    (method : Method) :
    List Diagnostic :=
  (analyzedMethod table options method).state.diagnostics.toList.drop
    (checkMethod table options method .initial).state.diagnostics.size

/-- Flow analysis reports what it finds in the body of a method, and then perhaps that
the method does not return a result. -/
theorem flowReports_eq
    {found : List Diagnostic}
    (isFound : (method.analyzedBody table options).point.state.diagnostics.toList =
      (checkMethod table options method .initial).state.diagnostics.toList ++ found) :
    ∃ missing, method.flowReports table options = found ++ missing ∧
      ∀ diagnostic ∈ missing, diagnostic.problem = .typeMismatch := by
  have completed : ∃ missing, (analyzedMethod table options method).state.diagnostics.toList =
      (method.analyzedBody table options).point.state.diagnostics.toList ++ missing ∧
        ∀ diagnostic ∈ missing, diagnostic.problem = .typeMismatch := by
    change ∃ missing, (checkCompletion _ _ (method.analyzedBody table
      options).point.state).diagnostics.toList = _ ∧ _
    simp only [checkCompletion, MethodState.reportIf]
    split
    · refine ⟨_, Array.toList_push, ?_⟩
      simp [Issue.diagnostic, Issue.problem]
    · exact ⟨[], by simp, by simp⟩
  obtain ⟨missing, isMissing, mismatches⟩ := completed
  refine ⟨missing, ?_, mismatches⟩
  rw [Method.flowReports, isMissing, isFound, List.append_assoc, ← Array.length_toList,
    List.drop_left]

end Methods

end LoopLowering
