import LoopLowering.Proofs.Code.PartPaths
import LoopLowering.Proofs.Code.References

namespace LoopLowering

/-!
# Branches back in the code of statements

The code of a statement branches back once for each loop that comes back for another
element, to the branch target of the action of that loop, and nowhere else. The
branch of an inner loop comes before those of the loops around it.
-/

namespace CodeStream

/-- Branch targets that are made between two times, each of them listed once. -/
structure MakesEach
    (before after : CodeStream)
    (labels : List Label) :
    Prop where
  nodup : labels.Nodup
  isMade : ∀ label ∈ labels, before.labels.size ≤ label ∧ label < after.labels.size

namespace MakesEach

variable
  {before code after : CodeStream}
  {first second : List Label}

theorem nil
    (before after : CodeStream) :
    MakesEach before after [] :=
  ⟨.nil, by simp⟩

/-- More branch targets may be made before and after. -/
theorem widen
    {inner last : CodeStream}
    (makes : MakesEach inner last first)
    (started : before.labels.size ≤ inner.labels.size)
    (ended : last.labels.size ≤ after.labels.size) :
    MakesEach before after first :=
  ⟨makes.nodup, fun label member =>
    ⟨Nat.le_trans started (makes.isMade label member).1,
      Nat.lt_of_lt_of_le (makes.isMade label member).2 ended⟩⟩

theorem append
    (earlier : MakesEach before code first)
    (later : MakesEach code after second)
    (grows : before.labels.size ≤ code.labels.size)
    (goesOn : code.labels.size ≤ after.labels.size) :
    MakesEach before after (first ++ second) := by
  refine ⟨List.nodup_append.mpr ⟨earlier.nodup, later.nodup, ?_⟩, fun label member => ?_⟩
  · intro label inFirst other inSecond
    exact Nat.ne_of_lt (Nat.lt_of_lt_of_le (earlier.isMade label inFirst).2
      (later.isMade other inSecond).1)
  · rcases List.mem_append.mp member with inFirst | inSecond
    · exact (earlier.widen (Nat.le_refl _) goesOn).isMade label inFirst
    · exact (later.widen grows (Nat.le_refl _)).isMade label inSecond

end MakesEach

end CodeStream

namespace JumpTarget

variable
  {code : CodeStream}
  {targets : List JumpTarget}
  {wanted : Option String}
  {label : Label}

/-- A break goes to a branch target that is still to be placed. -/
theorem isOpen_ofBreak
    (areOpen : ∀ target ∈ targets, target.IsOpenIn code)
    (found : JumpTarget.ofBreak targets wanted = .ok label) :
    code.IsOpen label := by
  simp only [ofBreak] at found
  split at found
  · next other isFound =>
      obtain rfl := Except.ok.inj found
      obtain ⟨target, member, isLabel⟩ := List.exists_of_findSome?_eq_some isFound
      have isOpen := areOpen target member
      cases target with
      | loop onBreak onContinue =>
          simp only [breakLabel?, Option.ite_none_right_eq_some, Option.some.injEq] at isLabel
          exact isLabel.2 ▸ isOpen.1
      | label name onBreak labelsLoop =>
          simp only [breakLabel?, Option.ite_none_right_eq_some, Option.some.injEq] at isLabel
          exact isLabel.2 ▸ isOpen
  · cases found

/-- The statement inside another one is among those around. -/
theorem mem_of_insideOf?
    {test : JumpTarget → Bool}
    {found : JumpTarget} :
    ∀ {targets : List JumpTarget} {inside : Option JumpTarget},
      insideOf? test inside targets = some found →
      inside = some found ∨ found ∈ targets
  | [], inside, isFound => by
      cases isFound
  | target :: outer, inside, isFound => by
      simp only [insideOf?] at isFound
      split at isFound
      · exact .inl isFound
      · rcases mem_of_insideOf? isFound with isTarget | further
        · exact .inr (Option.some.inj isTarget ▸ List.mem_cons_self)
        · exact .inr (List.mem_cons_of_mem target further)

/-- The loop that a continue goes on with is among the statements around. -/
theorem mem_of_continued?
    {found : JumpTarget}
    (isFound : continued? targets wanted = some found) :
    found ∈ targets := by
  cases wanted with
  | none =>
      exact List.mem_of_find?_eq_some isFound
  | some name =>
      rcases mem_of_insideOf? isFound with isNone | member
      · cases isNone
      · exact member

/-- A continue goes to a branch target that is still to be placed. -/
theorem isOpen_ofContinue
    (areOpen : ∀ target ∈ targets, target.IsOpenIn code)
    (found : JumpTarget.ofContinue targets wanted = .ok label) :
    code.IsOpen label := by
  simp only [ofContinue] at found
  split at found
  · next other isFound =>
      obtain rfl := Except.ok.inj found
      obtain ⟨target, isContinued, isLabel⟩ := Option.bind_eq_some_iff.mp isFound
      have isOpen := areOpen target (mem_of_continued? isContinued)
      cases target with
      | loop onBreak onContinue =>
          exact isOpen.2 _ isLabel
      | label name onBreak labelsLoop =>
          cases isLabel
  · cases found

end JumpTarget

namespace CodeContext

open CodeStream

/-- Whether a loop over an array does nothing with its elements, so that only its
collection is evaluated. -/
def isDeadLoop
    (context : CodeContext)
    (element : LocalDecl)
    (action : Option Stmt)
    (facts : LoopFacts) :
    Bool :=
  facts.classification.strategy?.any LoopStrategy.isArray && Stmt.isEmptyAction action &&
    !element.binding.any context.hasSlot

/-- Whether a statement is a loop whose code comes back for another element. -/
def comesBack
    (context : CodeContext) :
    Stmt → Bool
  | .forEach _ element _ action facts =>
      facts.continues && !context.isDeadLoop element action facts
  | _ => false

/-- The branch target of the action of a loop that is generated. -/
def actionLabel?
    (context : CodeContext)
    (site : CodeSite) :
    Option Label :=
  match site.stmt with
  | .forEach _ element collection action facts =>
      (context.plan? element action facts site.scope).bind fun plan =>
        (context.openBody plan collection site.code).toOption.map fun opened => opened.1.action
  | _ => none

/-- The branch target of the action of the loop at the end of a path. -/
def actionAlong?
    (context : CodeContext)
    (site : CodeSite)
    (path : List TreeStep) :
    Option Label :=
  (context.siteAlong? path site).bind context.actionLabel?

/-- The branch target of the action of a loop among statements. -/
def actionAmong?
    (context : CodeContext)
    (targets : List JumpTarget)
    (scope : ScopeId)
    (stmts : List Stmt)
    (limit : Option Nat)
    (code : CodeStream)
    (entry : Nat × List TreeStep) :
    Option Label :=
  (context.itemSite? targets scope stmts limit code entry.1).bind fun site =>
    context.actionAlong? site entry.2

variable
  {context : CodeContext}
  {strict : Bool}

/-- A planned loop is dead if nothing but its collection is evaluated. -/
theorem isIdle_of_plan?
    {element : LocalDecl}
    {action : Option Stmt}
    {facts : LoopFacts}
    {outer : ScopeId}
    {plan : LoopPlan}
    (plans : context.plan? element action facts outer = some plan) :
    context.isIdle plan = context.isDeadLoop element action facts ∧
      plan.continues = facts.continues := by
  unfold plan? at plans
  split at plans
  · next isResolved isScope isBound =>
      cases plans
      simp [isIdle, isDeadLoop, isResolved, isBound, LoopClassification.strategy?,
        LoopClassification.resolution?, Bool.and_comm, Bool.and_left_comm]
  · cases plans

/-- No loop stands in an empty action. -/
theorem pathsTo_emptyAction
    {action : Stmt}
    (isEmpty : Stmt.isEmptyAction (some action) = true) :
    action.pathsTo context.comesBack = [] := by
  cases action with
  | block span stmts facts =>
      cases stmts with
      | nil => rfl
      | cons stmt rest => cases isEmpty
  | empty span => rfl
  | _ => cases isEmpty

/-- Loops in a part of a statement have the same branch targets when they are looked at
from the statement. -/
theorem map_actionAlong?
    {site child : CodeSite}
    {step : TreeStep}
    (isChild : context.childSite? site step = some child)
    (paths : List (List TreeStep)) :
    (paths.map fun path => step :: path).map (context.actionAlong? site) =
      paths.map (context.actionAlong? child) := by
  simp [actionAlong?, siteAlong?, isChild]

/-- What the code of a statement branches back to: the actions of the loops that come
back, inner loops before those around them. -/
structure TurnsBack
    (context : CodeContext)
    (site : CodeSite)
    (after : CodeStream)
    (back : List Label) :
    Prop where
  written : Written context.scope site.code back after
  makes : MakesEach site.code after back
  actions : back.map some =
    (site.stmt.pathsTo context.comesBack).map (context.actionAlong? site)

/-- Code without branches back turns back nowhere if there is no loop that does. -/
theorem TurnsBack.ofWritten
    {site : CodeSite}
    {after : CodeStream}
    (written : Written context.scope site.code [] after)
    (noLoops : site.stmt.pathsTo context.comesBack = []) :
    context.TurnsBack site after [] :=
  ⟨written, .nil _ _, by rw [noLoops]; rfl⟩

section Loops

variable
  {span : Span}
  {element : LocalDecl}
  {collection : Expr}
  {action : Option Stmt}
  {facts : LoopFacts}
  {targets : List JumpTarget}
  {outer : ScopeId}
  {plan : LoopPlan}
  {code after : CodeStream}

/-- A loop that is reached is dead, so that only its collection is evaluated, or it has
the pieces of a loop. -/
theorem dead_or_iterates
    {pushAction : JumpTarget → ScopeId → CodeStep}
    (plans : context.plan? element action facts outer = some plan)
    (reachable : facts.reachable = true)
    (looped : context.pushLoop span element collection action facts outer pushAction code =
      .ok after) :
    (context.isIdle plan = true ∧
        ∃ ran, context.pushExpr collection false code = .ok ran ∧ ran.SameCode after) ∨
      (context.isIdle plan = false ∧ ∃ left, left.SameCode after ∧
        Nonempty (context.Iteration plan collection (fun target =>
          if !Stmt.isEmptyAction action && facts.actionReachable then pushAction target plan.scope
          else .ok) code left)) := by
  rw [pushLoop_of_plan? plans, if_pos reachable, pushPlanned, ← isIdle] at looped
  cases idle : context.isIdle plan with
  | true =>
      simp only [idle, if_true, bind_eq_ok, pure_eq_ok] at looped
      obtain ⟨done, isDone, rfl⟩ := looped
      simp only [pushEffects, bind_eq_ok, pure_eq_ok] at isDone
      obtain ⟨ran, isRan, rfl⟩ := isDone
      have ended : ran.SameCode (ran.exitScope context.scope plan.scope) := ⟨rfl, rfl⟩
      exact .inl ⟨rfl, ran, isRan,
        (ended.trans (sameCode_settleRanges context plan _)).trans (markSource_same _ _ _)⟩
  | false =>
      simp only [idle, Bool.false_eq_true, if_false, bind_eq_ok, pure_eq_ok] at looped
      obtain ⟨left, isLeft, rfl⟩ := looped
      exact .inr ⟨rfl, left, markSource_same _ _ _, exists_iteration isLeft⟩

/-- The code of a loop turns back where its body does, and to its own action if it comes
back. -/
theorem Iteration.turnsBack
    {body : JumpTarget → CodeStep}
    {back : List Label}
    (span : Span)
    (targets : List JumpTarget)
    (iteration : context.Iteration plan collection body code after)
    (plans : context.plan? element action facts outer = some plan)
    (busy : context.isIdle plan = false)
    (complete : ∀ target, (body target).Appends)
    (written : Written context.scope iteration.fetched back iteration.ran)
    (makes : MakesEach iteration.fetched iteration.ran back) :
    Written context.scope code
        (back ++ if facts.continues then [iteration.labels.action] else []) after ∧
      MakesEach code after (back ++ if facts.continues then [iteration.labels.action] else []) ∧
      (Stmt.pathHere context.comesBack (.forEach span element collection action facts)).map
          (context.actionAlong? ⟨.forEach span element collection action facts, targets, outer,
            code⟩) =
        (if facts.continues then [iteration.labels.action] else []).map some := by
  obtain ⟨isDead, continues⟩ := isIdle_of_plan? plans
  have whole := iteration.written complete written
  rw [continues] at whole
  have isAction : context.actionLabel? ⟨.forEach span element collection action facts, targets,
      outer, code⟩ = some iteration.labels.action := by
    simp [actionLabel?, plans, iteration.openBody, Except.toOption]
  refine ⟨whole, ?_, ?_⟩
  · have started := iteration.appends_started.labelCount
    have opened := (iteration.appends_entered.isOpen iteration.labels.action (by simp)).1
    have made := (iteration.appends_entered.isOpen_label iteration.labels.action (by simp)).1
    have fetched : iteration.entered.labels.size ≤ iteration.fetched.labels.size := by
      simpa [place] using (appends_fetchElement iteration.isFetched).labelCount
    have ran := (complete _ iteration.isRan).labelCount
    have ended := (iteration.extends_ran complete).labelCount
    cases facts.continues with
    | false =>
        rw [if_neg Bool.false_ne_true, List.append_nil]
        exact makes.widen (by omega) ended
    | true =>
        rw [if_pos rfl]
        refine ⟨List.nodup_append.mpr ⟨makes.nodup, by simp, ?_⟩, fun label member => ?_⟩
        · intro label inBody other isAction
          rw [List.mem_singleton.mp isAction]
          exact Nat.ne_of_gt (Nat.lt_of_lt_of_le (Nat.lt_of_lt_of_le made fetched)
            (makes.isMade label inBody).1)
        · rcases List.mem_append.mp member with inBody | isAction
          · exact (makes.widen (by omega) ended).isMade label inBody
          · rw [List.mem_singleton.mp isAction]
            exact ⟨Nat.le_trans started opened, Nat.lt_of_lt_of_le made
              (Nat.le_trans fetched (Nat.le_trans ran ended))⟩
  · rw [busy] at isDead
    simp only [Stmt.pathHere, comesBack, ← isDead, Bool.not_false, Bool.and_true]
    cases facts.continues <;> simp [actionAlong?, siteAlong?, isAction]

end Loops

mutual

/-- The code of a resolved statement that runs turns back once for each of its loops
that come back. -/
theorem exists_turnsBack :
    ∀ {stmt : Stmt} {block first : Nat} {frames : List JumpFrame} {before : VarSet}
        {exit : FlowExit} {targets : List JumpTarget} {scope : ScopeId}
        {code after : CodeStream},
      context.Resolved strict stmt block first →
      context.Runs stmt frames before exit →
      (∀ target ∈ targets, target.IsOpenIn code) →
      context.pushStmt stmt targets scope code = .ok after →
      ∃ back, context.TurnsBack ⟨stmt, targets, scope, code⟩ after back
  | .localVar span decl, block, first, frames, before, exit, targets, scope, code, after, resolved,
      runs, areOpen, pushed => by
      simp only [pushStmt, bind_eq_ok, pure_eq_ok] at pushed
      obtain ⟨done, isDone, rfl⟩ := pushed
      refine ⟨[], .ofWritten (Written.sameCode ?_ (markSource_same _ _ _)) rfl⟩
      simp only [pushDeclaration] at isDone
      split at isDone
      · exact Except.ok.inj isDone ▸ .refl
      · cases isDone
      · exact written_assignSimple (written_pushExpr context _) isDone
  | .expr span value, block, first, frames, before, exit, targets, scope, code, after, resolved,
      runs, areOpen, pushed => by
      simp only [pushStmt, bind_eq_ok, pure_eq_ok] at pushed
      obtain ⟨done, isDone, rfl⟩ := pushed
      exact ⟨[], .ofWritten ((written_pushExpr context value false isDone).sameCode
        (markSource_same _ _ _)) rfl⟩
  | .block span stmts facts, block, first, frames, before, exit, targets, scope, code, after,
      resolved, runs, areOpen, pushed => by
      simp only [Resolved] at resolved
      obtain ⟨inner, -, -, resolvedStmts⟩ := resolved
      simp only [Runs] at runs
      simp only [pushStmt, bind_eq_ok, pure_eq_ok, runs.1] at pushed
      obtain ⟨ran, isRan, rfl⟩ := pushed
      obtain ⟨back, written, makes, actions⟩ :=
        exists_allTurnBack resolvedStmts runs.2 areOpen isRan
      have sameCode := (sameCode_leaveBlock context (facts.scope.getD scope) scope ran).trans
        (markSource_same code.position span _)
      refine ⟨back, written.sameCode sameCode, makes.widen (Nat.le_refl _)
        (Nat.le_of_eq (congrArg Array.size sameCode.2).symm), actions.trans ?_⟩
      simp [Stmt.pathsTo, Stmt.pathHere, comesBack, actionAmong?, actionAlong?, siteAlong?,
        childSite?, runs.1, Function.comp_def, Option.bind_assoc]
  | .branch span condition thenBranch none, block, first, frames, before, exit, targets, scope,
      code, after, resolved, runs, areOpen, pushed => by
      simp only [Resolved] at resolved
      simp only [Runs] at runs
      simp only [pushStmt, bind_eq_ok, pure_eq_ok] at pushed
      obtain ⟨tested, isTested, done, isDone, rfl⟩ := pushed
      have labeled := (Appends.refl code).addLabel
      have opened := labeled.trans (appends_branchOn context condition false _ isTested)
      have thenAppends := appends_pushStmt context thenBranch targets scope isDone
      obtain ⟨back, written, makes, actions⟩ := exists_turnsBack resolved.2 runs.2.1
        (fun target member => (areOpen target member).later fun _ => opened.staysOpen) isDone
      have enters : Written context.scope code [] tested :=
        Written.refl.addLabel.followedBy
          (written_branchOn (labeled.isOpen code.nextLabel (by simp)).2 isTested)
      have elseOpen := ((opened.trans thenAppends).isOpen code.nextLabel (by simp)).2
      refine ⟨back, ((enters.trans written).place elseOpen).sameCode (markSource_same _ _ _),
        makes.widen opened.labelCount ?_, actions.trans ?_⟩
      · rw [(markSource_same _ _ _).2]
        simp [place]
      · have isChild : context.childSite? ⟨.branch span condition thenBranch none, targets, scope,
            code⟩ .thenBranch = some ⟨thenBranch, targets, scope, tested⟩ := by
          simp [childSite?, isTested, Except.toOption]
        simp only [Stmt.pathsTo, Stmt.pathHere, comesBack, Bool.false_eq_true, if_false,
          List.append_nil, map_actionAlong? isChild]
  | .branch span condition thenBranch (some elseBranch), block, first, frames, before, exit,
      targets, scope, code, after, resolved, runs, areOpen, pushed => by
      simp only [Resolved] at resolved
      simp only [Runs] at runs
      simp only [pushStmt, bind_eq_ok, pure_eq_ok] at pushed
      obtain ⟨tested, isTested, thenDone, isThenDone, done, isDone, rfl⟩ := pushed
      have labeled := (Appends.refl code).addLabel
      have opened := labeled.trans (appends_branchOn context condition false _ isTested)
      have thenAppends := opened.trans
        (appends_pushStmt context thenBranch targets scope isThenDone)
      obtain ⟨thenBack, thenWritten, thenMakes, thenActions⟩ := exists_turnsBack resolved.2.1
        runs.2.1 (fun target member => (areOpen target member).later fun _ => opened.staysOpen)
        isThenDone
      have enters : Written context.scope code [] tested :=
        Written.refl.addLabel.followedBy
          (written_branchOn (labeled.isOpen code.nextLabel (by simp)).2 isTested)
      have endLabeled := thenAppends.addLabel
      have endOpen : thenDone.addLabel.IsOpen thenDone.nextLabel :=
        (endLabeled.isOpen thenDone.nextLabel (by simp)).2
      have older : code.nextLabel ≠ thenDone.nextLabel :=
        Nat.ne_of_lt (Array.getElem?_eq_some_iff.mp
          (thenAppends.isOpen code.nextLabel (by simp)).2).1
      have left : Written context.scope code thenBack
            (if thenDone.addLabel.isTerminated = true then thenDone.addLabel
              else thenDone.addLabel.emit (.goto thenDone.nextLabel)) ∧
          Appends [thenDone.nextLabel, code.nextLabel] code
            (if thenDone.addLabel.isTerminated = true then thenDone.addLabel
              else thenDone.addLabel.emit (.goto thenDone.nextLabel)) := by
        split
        · exact ⟨(enters.trans thenWritten).addLabel, endLabeled⟩
        · exact ⟨(enters.trans thenWritten).addLabel.branch endOpen (by rfl), endLabeled.emit _⟩
      have elseEntered := left.2.placeAmong code.nextLabel [thenDone.nextLabel] (by simp) (by
        intro other
        simp only [List.mem_cons, List.not_mem_nil, or_false]
        constructor
        · rintro rfl
          exact ⟨.inl rfl, older.symm⟩
        · rintro ⟨rfl | rfl, different⟩
          · rfl
          · exact absurd rfl different)
      obtain ⟨elseBack, elseWritten, elseMakes, elseActions⟩ := exists_turnsBack resolved.2.2
        runs.2.2 (fun target member => (areOpen target member).later fun _ =>
          elseEntered.staysOpen) isDone
      have elseAppends := appends_pushStmt context elseBranch targets scope isDone
      have doneOpen := ((elseEntered.trans elseAppends).isOpen thenDone.nextLabel (by simp)).2
      have elseSize : thenDone.labels.size ≤ (CodeStream.place code.nextLabel
          (if thenDone.addLabel.isTerminated = true then thenDone.addLabel
            else thenDone.addLabel.emit (.goto thenDone.nextLabel))).labels.size := by
        split <;> simp [place, addLabel, emit]
      refine ⟨thenBack ++ elseBack, (((left.1.place
        (left.2.isOpen code.nextLabel (by simp)).2).trans elseWritten).place doneOpen).sameCode
          (markSource_same _ _ _), ?_, ?_⟩
      · have thenMade := thenMakes.widen opened.labelCount (Nat.le_refl thenDone.labels.size)
        have both := thenMade.append (elseMakes.widen elseSize (Nat.le_refl _))
          thenAppends.labelCount (Nat.le_trans elseSize elseAppends.labelCount)
        refine both.widen (Nat.le_refl _) ?_
        rw [(markSource_same _ _ _).2]
        simp [place]
      · have isThen : context.childSite? ⟨.branch span condition thenBranch (some elseBranch),
            targets, scope, code⟩ .thenBranch = some ⟨thenBranch, targets, scope, tested⟩ := by
          simp [childSite?, isTested, Except.toOption]
        have isElse : context.childSite? ⟨.branch span condition thenBranch (some elseBranch),
            targets, scope, code⟩ .elseBranch = some ⟨elseBranch, targets, scope,
              CodeStream.place code.nextLabel
                (if thenDone.addLabel.isTerminated = true then thenDone.addLabel
                  else thenDone.addLabel.emit (.goto thenDone.nextLabel))⟩ := by
          simp [childSite?, isTested, isThenDone, Except.toOption]
        simp only [Stmt.pathsTo, Stmt.pathHere, comesBack, Bool.false_eq_true, if_false,
          List.append_nil, List.map_append, map_actionAlong? isThen, map_actionAlong? isElse,
          thenActions, elseActions]
  | .forEach span element collection none facts, block, first, frames, before, exit, targets,
      scope, code, after, resolved, runs, areOpen, pushed => by
      obtain ⟨inner, resolution, head⟩ := resolved.loopHead
      obtain ⟨plan, plans, -, -⟩ := head.exists_plan? none scope
      simp only [Runs] at runs
      simp only [pushStmt, bind_eq_ok, pure_eq_ok] at pushed
      obtain ⟨done, isDone, rfl⟩ := pushed
      rcases dead_or_iterates plans runs.1.reachable isDone with ⟨idle, ran, isRan, sameCode⟩ |
        ⟨busy, left, same, ⟨iteration⟩⟩
      · refine ⟨[], .ofWritten ((written_pushExpr context collection false isRan).sameCode
          (sameCode.trans (markSource_same _ _ _))) ?_⟩
        simp [Stmt.pathsTo, Stmt.pathHere, comesBack, ← (isIdle_of_plan? plans).1, idle]
      · have isRan : iteration.fetched = iteration.ran := Except.ok.inj iteration.isRan
        obtain ⟨written, makes, actions⟩ := iteration.turnsBack span targets
          plans busy (fun _ _ _ ran => Except.ok.inj ran ▸ .refl _) (isRan ▸ .refl) (.nil _ _)
        have sameCode := same.trans (markSource_same code.position span done)
        exact ⟨_, written.sameCode sameCode, makes.widen (Nat.le_refl _)
          (Nat.le_of_eq (congrArg Array.size sameCode.2).symm), actions.symm⟩
  | .forEach span element collection (some action) facts, block, first, frames, before, exit,
      targets, scope, code, after, resolved, runs, areOpen, pushed => by
      simp only [Resolved] at resolved
      obtain ⟨inner, resolution, head, resolvedAction⟩ := resolved
      obtain ⟨plan, plans, -, -⟩ := head.exists_plan? (some action) scope
      simp only [Runs] at runs
      obtain ⟨enters, -, acts⟩ := runs
      simp only [pushStmt, bind_eq_ok, pure_eq_ok] at pushed
      obtain ⟨done, isDone, rfl⟩ := pushed
      rcases dead_or_iterates plans enters.reachable isDone with ⟨idle, ran, isRan, sameCode⟩ |
        ⟨busy, left, same, ⟨iteration⟩⟩
      · have isEmpty : Stmt.isEmptyAction (some action) = true := by
          rw [(isIdle_of_plan? plans).1] at idle
          simp only [isDeadLoop, Bool.and_eq_true] at idle
          exact idle.1.2
        refine ⟨[], .ofWritten ((written_pushExpr context collection false isRan).sameCode
          (sameCode.trans (markSource_same _ _ _))) ?_⟩
        simp [Stmt.pathsTo, Stmt.pathHere, comesBack, ← (isIdle_of_plan? plans).1, idle,
          pathsTo_emptyAction isEmpty]
      · have complete : ∀ target : JumpTarget, CodeStep.Appends
            (if !Stmt.isEmptyAction (some action) && facts.actionReachable then
              context.pushStmt action (target :: targets) plan.scope else .ok) := by
          intro target
          split
          · exact appends_pushStmt context action _ _
          · exact fun ran => Except.ok.inj ran ▸ .refl _
        have bodyTurns : ∃ back, Written context.scope iteration.fetched back iteration.ran ∧
            MakesEach iteration.fetched iteration.ran back ∧
            back.map some = ((action.pathsTo context.comesBack).map fun path => .body :: path).map
              (context.actionAlong? ⟨.forEach span element collection (some action) facts, targets,
                scope, code⟩) := by
          have isRan := iteration.isRan
          split at isRan
          · next generated =>
              have isChild : context.childSite? ⟨.forEach span element collection (some action)
                  facts, targets, scope, code⟩ .body = some ⟨action,
                    .loop iteration.labels.exit iteration.labels.next :: targets, plan.scope,
                    iteration.fetched⟩ := by
                simp only [Bool.and_eq_true] at generated
                simp [childSite?, enters.reachable, generated, plans, iteration.openBody,
                  Except.toOption]
              simp only [Bool.and_eq_true, Bool.not_eq_true'] at generated
              obtain ⟨isBlock, -⟩ | ⟨-, actionRuns⟩ := acts
              · simp [Stmt.isEmptyAction, isBlock] at generated
              · obtain ⟨back, written, makes, actions⟩ := exists_turnsBack resolvedAction actionRuns
                  (List.forall_mem_cons.mpr ⟨iteration.isOpenIn_fetched, fun target member =>
                    (areOpen target member).later iteration.isOpen_fetched⟩) isRan
                exact ⟨back, written, makes, by rw [map_actionAlong? isChild, actions]⟩
          · next omitted =>
              have isEmpty : Stmt.isEmptyAction (some action) = true := by
                rcases acts with ⟨isBlock, -⟩ | ⟨actionReached, -⟩
                · simp [Stmt.isEmptyAction, isBlock]
                · simpa [actionReached] using omitted
              rw [← Except.ok.inj isRan]
              exact ⟨[], .refl, .nil _ _, by rw [pathsTo_emptyAction isEmpty]; rfl⟩
        obtain ⟨bodyBack, bodyWritten, bodyMakes, bodyActions⟩ := bodyTurns
        obtain ⟨written, makes, actions⟩ := iteration.turnsBack span targets
          plans busy complete bodyWritten bodyMakes
        have sameCode := same.trans (markSource_same code.position span done)
        refine ⟨_, written.sameCode sameCode, makes.widen (Nat.le_refl _)
          (Nat.le_of_eq (congrArg Array.size sameCode.2).symm), ?_⟩
        simp only [Stmt.pathsTo, List.map_append, bodyActions, actions]
  | .labeled span label body, block, first, frames, before, exit, targets, scope, code, after,
      resolved, runs, areOpen, pushed => by
      simp only [Resolved] at resolved
      simp only [Runs] at runs
      simp only [pushStmt, bind_eq_ok, pure_eq_ok] at pushed
      obtain ⟨done, isDone, rfl⟩ := pushed
      have labeled := (Appends.refl code).addLabel
      have bodyAppends := appends_pushStmt context body _ scope isDone
      have targetOpen : (JumpTarget.label label.node code.nextLabel body.isLoop).IsOpenIn
          code.addLabel := (labeled.isOpen code.nextLabel (by simp)).2
      obtain ⟨back, written, makes, actions⟩ := exists_turnsBack resolved runs
        (List.forall_mem_cons.mpr ⟨targetOpen, fun target member =>
          (areOpen target member).later fun _ => labeled.staysOpen⟩) isDone
      have breakOpen := ((labeled.trans bodyAppends).isOpen code.nextLabel (by simp)).2
      have begins : Written context.scope code [] code.addLabel := Written.refl.addLabel
      refine ⟨back, ((begins.trans written).place breakOpen).sameCode (markSource_same _ _ _),
        makes.widen labeled.labelCount ?_, actions.trans ?_⟩
      · rw [(markSource_same _ _ _).2]
        simp [place]
      · have isChild : context.childSite? ⟨.labeled span label body, targets, scope, code⟩ .body =
            some ⟨body, .label label.node code.nextLabel body.isLoop :: targets, scope,
              code.addLabel⟩ := rfl
        simp only [Stmt.pathsTo, Stmt.pathHere, comesBack, Bool.false_eq_true, if_false,
          List.append_nil, map_actionAlong? isChild]
  | .breakTo span label, block, first, frames, before, exit, targets, scope, code, after, resolved,
      runs, areOpen, pushed => by
      simp only [pushStmt, bind_eq_ok, pure_eq_ok] at pushed
      obtain ⟨target, isTarget, rfl⟩ := pushed
      exact ⟨[], .ofWritten ((Written.refl.branch (JumpTarget.isOpen_ofBreak areOpen isTarget)
        (by rfl)).sameCode (markSource_same _ _ _)) rfl⟩
  | .continueTo span label, block, first, frames, before, exit, targets, scope, code, after,
      resolved, runs, areOpen, pushed => by
      simp only [pushStmt, bind_eq_ok, pure_eq_ok] at pushed
      obtain ⟨target, isTarget, rfl⟩ := pushed
      exact ⟨[], .ofWritten ((Written.refl.branch (JumpTarget.isOpen_ofContinue areOpen isTarget)
        (by rfl)).sameCode (markSource_same _ _ _)) rfl⟩
  | .returnWith span none, block, first, frames, before, exit, targets, scope, code, after,
      resolved, runs, areOpen, pushed => by
      simp only [pushStmt, Except.ok.injEq] at pushed
      subst pushed
      exact ⟨[], .ofWritten ((Written.refl.emit (by trivial) (by rfl)).sameCode
        (markSource_same _ _ _)) rfl⟩
  | .returnWith span (some value), block, first, frames, before, exit, targets, scope, code, after,
      resolved, runs, areOpen, pushed => by
      simp only [pushStmt, bind_eq_ok, pure_eq_ok] at pushed
      obtain ⟨done, isDone, rfl⟩ := pushed
      simp only [pushReturn, bind_eq_ok, pure_eq_ok] at isDone
      obtain ⟨evaluated, isEvaluated, rfl⟩ := isDone
      exact ⟨[], .ofWritten ((((written_pushExpr context _ true isEvaluated).plainly
        (.convertAssigned .refl _ _ _)).emit (by trivial) (by rfl)).sameCode
          (markSource_same _ _ _)) rfl⟩
  | .empty span, block, first, frames, before, exit, targets, scope, code, after, resolved, runs,
      areOpen, pushed => by
      simp only [pushStmt, Except.ok.injEq] at pushed
      exact ⟨[], pushed ▸ .ofWritten .refl rfl⟩

theorem exists_allTurnBack :
    ∀ {stmts : List Stmt} {block first : Nat} {frames : List JumpFrame} {before : VarSet}
        {exit : FlowExit} {targets : List JumpTarget} {scope : ScopeId}
        {code after : CodeStream},
      context.AllResolved strict stmts block first →
      context.AllRun stmts frames before exit →
      (∀ target ∈ targets, target.IsOpenIn code) →
      context.pushStmts stmts none targets scope code = .ok after →
      ∃ back, Written context.scope code back after ∧ MakesEach code after back ∧
        back.map some = (Stmt.allPathsTo context.comesBack stmts).map
          (context.actionAmong? targets scope stmts none code)
  | [], block, first, frames, before, exit, targets, scope, code, after, resolved, runs, areOpen,
      pushed => by
      simp only [pushStmts, Except.ok.injEq] at pushed
      exact pushed ▸ ⟨[], .refl, .nil _ _, rfl⟩
  | stmt :: rest, block, first, frames, before, exit, targets, scope, code, after, resolved, runs,
      areOpen, pushed => by
      simp only [AllResolved] at resolved
      simp only [AllRun] at runs
      obtain ⟨middle, headRuns, ends, goesOn⟩ := runs
      obtain ⟨done, isDone, ran⟩ := (pushStmts_cons_eq_ok (by simp)).mp pushed
      have appends := appends_pushStmt context stmt targets scope isDone
      obtain ⟨headBack, headWritten, headMakes, headActions⟩ :=
        exists_turnsBack resolved.1 headRuns areOpen isDone
      have restTurns : ∃ back, Written context.scope done back after ∧ MakesEach done after back ∧
          back.map some = (Stmt.allPathsTo context.comesBack rest).map
            (context.actionAmong? targets scope rest none done) := by
        cases middle with
        | none =>
            obtain rfl := ends rfl
            simp only [pushStmts, Except.ok.injEq] at ran
            exact ran ▸ ⟨[], .refl, .nil _ _, rfl⟩
        | some set =>
            exact exists_allTurnBack resolved.2 (goesOn set rfl)
              (fun target member => (areOpen target member).later fun _ => appends.staysOpen) ran
      obtain ⟨restBack, restWritten, restMakes, restActions⟩ := restTurns
      have restAppends := appends_pushStmts context rest _ targets scope ran
      refine ⟨headBack ++ restBack, headWritten.trans restWritten,
        headMakes.append restMakes appends.labelCount restAppends.labelCount, ?_⟩
      simp [Stmt.allPathsTo, headActions, restActions, actionAmong?, itemSite?, isDone,
        Except.toOption, Function.comp_def]

end

end CodeContext

end LoopLowering
