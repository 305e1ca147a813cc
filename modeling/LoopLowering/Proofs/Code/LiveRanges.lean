import LoopLowering.Proofs.Code.OpenedRanges
import LoopLowering.Proofs.Code.Statements
import LoopLowering.Proofs.Resolution.NestedStatements

namespace LoopLowering

/-!
# Ranges of locals

While code is generated in a block scope, every open range is that of a local which
the scope sees. Locals that share slots are never seen together, so the range of the
one has ended before that of the other starts.
-/

namespace MethodScope

/-- The slots of two locals overlap. -/
def SharesSlots
    (scope : MethodScope)
    (id other : Nat) :
    Prop :=
  ∃ slot otherSlot, (scope.localAt id).slot = some slot ∧
    (scope.localAt other).slot = some otherSlot ∧
    slot.toNat < otherSlot.toNat + (scope.localAt other).width.toNat ∧
    otherSlot.toNat < slot.toNat + (scope.localAt id).width.toNat

/-- Locals that some block scope sees together do not share slots. -/
def SeparatesLocals
    (scope : MethodScope) :
    Prop :=
  ∀ block id other : Nat,
    scope.Sees block scope.locals.size id →
    scope.Sees block scope.locals.size other →
    scope.SharesSlots id other →
    id = other

end MethodScope

namespace CodeStream

/-- While code is generated in a block scope, the open ranges are those of locals
that the scope sees, and of two locals that share slots the range of the first has
ended before that of the second starts. -/
structure Ranged
    (scope : MethodScope)
    (block : Nat)
    (code : CodeStream) :
    Prop where
  started : ∀ range ∈ code.ranges.toList, range.start ≤ code.position
  ended : ∀ range ∈ code.ranges.toList, ∀ stop, range.stop = some stop → stop ≤ code.position
  visible : ∀ range ∈ code.ranges.toList, range.stop = none →
    scope.Sees block scope.locals.size range.id
  apart : code.ranges.toList.Pairwise fun earlier later =>
    scope.SharesSlots earlier.id later.id → ∃ stop, earlier.stop = some stop ∧ stop ≤ later.start

namespace Ranged

variable
  {scope : MethodScope}
  {block : Nat}
  {code after : CodeStream}

/-- At first there are no ranges. -/
theorem empty
    (scope : MethodScope)
    (block : Nat) :
    CodeStream.empty.Ranged scope block :=
  ⟨by simp [CodeStream.empty], by simp [CodeStream.empty], by simp [CodeStream.empty],
    by simp [CodeStream.empty]⟩

theorem append
    (ranged : code.Ranged scope block)
    (same : after.ranges = code.ranges)
    (further : code.position ≤ after.position) :
    after.Ranged scope block where
  started := fun range member =>
    Nat.le_trans (ranged.started range (same ▸ member)) further
  ended := fun range member stop isStop =>
    Nat.le_trans (ranged.ended range (same ▸ member) stop isStop) further
  visible := fun range member => ranged.visible range (same ▸ member)
  apart := same ▸ ranged.apart

/-- An instruction may be appended. -/
theorem emit
    (ranged : code.Ranged scope block)
    (instruction : Instruction) :
    (code.emit instruction).Ranged scope block :=
  ranged.append rfl (by simp)

/-- A branch target may be made. -/
theorem addLabel
    (ranged : code.Ranged scope block) :
    code.addLabel.Ranged scope block :=
  ranged.append rfl (Nat.le_refl _)

/-- A branch target may be placed. -/
theorem place
    (ranged : code.Ranged scope block)
    (label : Label) :
    (code.place label).Ranged scope block :=
  ranged.append rfl (Nat.le_refl _)

/-- The range of a local that the scope sees may be opened: the open ranges are those
of locals that the scope sees as well. -/
theorem openLocal
    (separates : scope.SeparatesLocals)
    (ranged : code.Ranged scope block)
    {id : LocalId}
    (sees : scope.Sees block scope.locals.size id) :
    (code.openLocal scope id).Ranged scope block := by
  simp only [CodeStream.openLocal]
  split
  · next opens =>
      simp only [Bool.and_eq_true, Bool.not_eq_true', isLive, Array.any_eq_false,
        LiveRange.isOpenAnd] at opens
      obtain ⟨-, notLive⟩ := opens
      refine ⟨?_, ?_, ?_, ?_⟩
      · simp only [Array.toList_push, List.mem_append, List.mem_singleton]
        rintro range (member | rfl)
        · exact ranged.started range member
        · exact Nat.le_refl _
      · simp only [Array.toList_push, List.mem_append, List.mem_singleton]
        rintro range (member | rfl) stop isStop
        · exact ranged.ended range member stop isStop
        · cases isStop
      · simp only [Array.toList_push, List.mem_append, List.mem_singleton]
        rintro range (member | rfl) isOpen
        · exact ranged.visible range member isOpen
        · exact sees
      · rw [Array.toList_push, List.pairwise_append]
        refine ⟨ranged.apart, List.pairwise_singleton _ _, ?_⟩
        intro earlier member later isLater shares
        obtain rfl := List.mem_singleton.mp isLater
        cases isStop : earlier.stop with
        | some stop =>
            exact ⟨stop, rfl, ranged.ended earlier member stop isStop⟩
        | none =>
            have same := separates _ _ _ (ranged.visible earlier member isStop) sees shares
            obtain ⟨index, inRanges, isEarlier⟩ := List.mem_iff_getElem.mp member
            have other := notLive index (by simpa using inRanges)
            simp only [← Array.getElem_toList, isEarlier, isStop] at other
            simp [same] at other
  · exact ranged

/-- Ranges may be closed. -/
theorem closeWhere
    (ranged : code.Ranged scope block)
    (closes : LocalId → Bool) :
    (code.closeWhere closes).Ranged scope block := by
  refine ⟨?_, ?_, ?_, ?_⟩
  · intro range member
    simp only [CodeStream.closeWhere, Array.toList_map, List.mem_map] at member
    obtain ⟨earlier, isEarlier, rfl⟩ := member
    have started := ranged.started earlier isEarlier
    split <;> exact started
  · intro range member stop isStop
    simp only [CodeStream.closeWhere, Array.toList_map, List.mem_map] at member
    obtain ⟨earlier, isEarlier, rfl⟩ := member
    split at isStop
    · obtain rfl := Option.some.inj isStop
      exact Nat.le_refl _
    · exact ranged.ended earlier isEarlier stop isStop
  · intro range member isOpen
    simp only [CodeStream.closeWhere, Array.toList_map, List.mem_map] at member
    obtain ⟨earlier, isEarlier, rfl⟩ := member
    split at isOpen
    · cases isOpen
    · next stays =>
        rw [if_neg stays]
        exact ranged.visible earlier isEarlier isOpen
  · simp only [CodeStream.closeWhere, Array.toList_map, List.pairwise_map]
    refine ranged.apart.imp ?_
    intro earlier later apart shares
    have shared : scope.SharesSlots earlier.id later.id := by
      split at shares <;> split at shares <;> exact shares
    obtain ⟨stop, isStop, before⟩ := apart shared
    have closed : earlier.isOpenAnd closes = false := by
      simp [LiveRange.isOpenAnd, isStop]
    refine ⟨stop, by simp [closed, isStop], ?_⟩
    split <;> exact before

/-- Code that opens ranges of locals which the scope sees may follow. -/
theorem opensOnly
    (separates : scope.SeparatesLocals)
    (ranged : code.Ranged scope block)
    (opens : OpensOnly scope (scope.Sees block scope.locals.size) code after) :
    after.Ranged scope block := by
  induction opens with
  | refl =>
      exact ranged
  | append _ same further inductionHypothesis =>
      exact inductionHypothesis.append same further
  | openLocal _ sees inductionHypothesis =>
      exact inductionHypothesis.openLocal separates sees
  | closeWhere _ closes inductionHypothesis =>
      exact inductionHypothesis.closeWhere closes

/-- A scope inside another one sees more. -/
theorem enter
    (wellFormed : scope.WellFormed)
    {inner : Nat}
    (parent : (scope.block inner).parent = some block)
    (ranged : code.Ranged scope block) :
    code.Ranged scope inner where
  started := ranged.started
  ended := ranged.ended
  visible := by
    intro range member isOpen
    obtain ⟨known, around⟩ := ranged.visible range member isOpen
    refine ⟨known, ?_⟩
    rw [wellFormed.enclosing_eq inner, parent]
    exact List.mem_cons_of_mem _ around
  apart := ranged.apart

/-- When a scope is left, the ranges of its locals are closed, so that the open ones
are of locals that the scope around it sees. -/
theorem exit
    (wellFormed : scope.WellFormed)
    {inner : Nat}
    (parent : (scope.block inner).parent = some block)
    (ranged : code.Ranged scope inner) :
    (code.exitScope scope inner).Ranged scope block := by
  have closed := ranged.closeWhere fun id => scope.isWithin (scope.localAt id).scope inner
  refine ⟨closed.started, closed.ended, ?_, closed.apart⟩
  intro range member isOpen
  obtain ⟨known, around⟩ := closed.visible range member isOpen
  refine ⟨known, ?_⟩
  rw [wellFormed.enclosing_eq inner, parent] at around
  rcases List.mem_cons.mp around with atHome | outside
  · simp only [exitScope, CodeStream.closeWhere, Array.toList_map, List.mem_map] at member
    obtain ⟨earlier, -, rfl⟩ := member
    split at isOpen
    · cases isOpen
    · next stays =>
        rw [if_neg stays] at atHome
        have within : scope.isWithin (scope.localAt earlier.id).scope inner = true := by
          rw [MethodScope.isWithin, List.contains_iff_mem, atHome]
          exact wellFormed.mem_enclosing_self inner
        simp [LiveRange.isOpenAnd, isOpen, within] at stays
  · exact outside

/-- Code may be attributed to a source range. -/
theorem markSource
    (ranged : code.Ranged scope block)
    (start : Nat)
    (span : Span) :
    (code.markSource start span).Ranged scope block := by
  simp only [CodeStream.markSource]
  split
  · exact ranged.append rfl (Nat.le_refl _)
  · exact ranged

end Ranged

/-- Locals whose ranges follow the flow states of a scope are visible there. -/
theorem sees_of_followsFlow
    {scope : MethodScope}
    {block id : Nat}
    (known : id < scope.locals.size)
    (follows : followsFlow scope block id = true) :
    scope.Sees block scope.locals.size id := by
  simp only [followsFlow, Bool.and_eq_true] at follows
  exact ⟨known, by simpa [MethodScope.isWithin] using follows.2⟩

end CodeStream

/-- A step of code generation in a block scope keeps the ranges of locals that share
slots apart. -/
def CodeStep.KeepsRanged
    (step : CodeStep)
    (scope : MethodScope)
    (block : Nat) :
    Prop :=
  ∀ {code after : CodeStream},
    code.Ranged scope block → step code = .ok after → after.Ranged scope block

namespace CodeContext

open CodeStream

variable
  {context : CodeContext}

/-- The code of a declaration keeps ranges apart. -/
theorem keepsRanged_pushDeclaration
    (separates : context.scope.SeparatesLocals)
    {decl : LocalDecl}
    {block : Nat}
    (bound : ∀ id, decl.binding = some id →
      context.scope.Sees block context.scope.locals.size id)
    (sees : ∀ value, decl.initial = some value →
      context.scope.SeesAssigned block context.scope.locals.size value.steps) :
    CodeStep.KeepsRanged (context.pushDeclaration decl) context.scope block := by
  intro code after ranged declared
  simp only [pushDeclaration] at declared
  split at declared
  · exact Except.ok.inj declared ▸ ranged
  · cases declared
  · next value id isInitial isBound =>
      exact ranged.opensOnly separates (opensOnly_assignSimple (bound id isBound)
        (fun wanted => opensOnly_pushExpr value wanted (sees value isInitial)) declared)

section Loops

variable
  {plan : LoopPlan}

/-- The locals of a planned loop are visible in its scope, which lies in the one
around the loop. -/
structure NestsPlan
    (context : CodeContext)
    (plan : LoopPlan)
    (collection : Expr) :
    Prop where
  parent : (context.scope.block plan.scope).parent = some plan.outer
  element : context.scope.Sees plan.scope context.scope.locals.size plan.element
  collection : context.scope.SeesAssigned plan.scope context.scope.locals.size collection.steps
  synthetics : ∀ id ∈ plan.resolution.strategy.synthetics,
    context.scope.Sees plan.scope context.scope.locals.size id

/-- Leaving a loop closes the ranges of its locals, and sets those around it. -/
theorem ranged_leaveLoop
    (separates : context.scope.SeparatesLocals)
    (wellFormed : context.scope.WellFormed)
    (parent : (context.scope.block plan.scope).parent = some plan.outer)
    {code : CodeStream}
    (inside : code.Ranged context.scope plan.scope) :
    (context.settleRanges plan (code.exitScope context.scope plan.scope)).Ranged context.scope
      plan.outer :=
  (inside.exit wellFormed parent).opensOnly separates
    (opensOnly_settleRanges (fun _ known follows => sees_of_followsFlow known follows) _)

/-- The code of a loop that only evaluates its collection keeps ranges apart. -/
theorem keepsRanged_pushEffects
    (separates : context.scope.SeparatesLocals)
    (wellFormed : context.scope.WellFormed)
    {collection : Expr}
    (nests : context.NestsPlan plan collection) :
    CodeStep.KeepsRanged (context.pushEffects plan collection) context.scope plan.outer := by
  intro code after ranged pushed
  simp only [pushEffects, bind_eq_ok, pure_eq_ok] at pushed
  obtain ⟨ran, isRan, rfl⟩ := pushed
  exact ranged_leaveLoop separates wellFormed nests.parent
    ((ranged.enter wellFormed nests.parent).opensOnly separates
      (opensOnly_pushExpr collection false nests.collection isRan))

/-- The code of a loop that does something keeps ranges apart if that of its body
does. -/
theorem keepsRanged_pushIteration
    (separates : context.scope.SeparatesLocals)
    (wellFormed : context.scope.WellFormed)
    {collection : Expr}
    {body : JumpTarget → CodeStep}
    (nests : context.NestsPlan plan collection)
    (keeps : ∀ target, (body target).KeepsRanged context.scope plan.scope) :
    CodeStep.KeepsRanged (context.pushIteration plan collection body) context.scope plan.outer := by
  intro code after ranged iterated
  obtain ⟨iteration⟩ := exists_iteration iterated
  have pushed := (ranged.enter wellFormed nests.parent).opensOnly separates
    (opensOnly_pushExpr collection true nests.collection iteration.isPushed)
  have started := pushed.opensOnly separates
    (opensOnly_startLoop nests.synthetics iteration.isStarted)
  have labeled : iteration.labeled.Ranged context.scope plan.scope := by
    have made := congrArg Prod.snd iteration.isLabeled
    simp only [LoopLabels.made] at made
    split at made
    · exact made ▸ started.addLabel.addLabel.addLabel.addLabel
    · exact made ▸ started.addLabel.addLabel.addLabel
  have entered := labeled.opensOnly separates (opensOnly_enterLoop iteration.isEntered)
  have fetched := (entered.place _).opensOnly separates
    (opensOnly_fetchElement nests.element
      (fun id known follows => sees_of_followsFlow known follows) iteration.isFetched)
  have closed := (keeps _ fetched iteration.isRan).opensOnly separates
    (opensOnly_closeBody plan iteration.ran)
  have repeated : iteration.repeated.Ranged context.scope plan.scope := by
    have isRepeated := iteration.isRepeated
    split at isRepeated
    · exact closed.opensOnly separates (opensOnly_testAtBottom isRepeated)
    · exact (pure_eq_ok.mp isRepeated) ▸ closed
  rw [← iteration.isAfter]
  exact (ranged_leaveLoop separates wellFormed nests.parent (repeated.closeWhere _)).place _

/-- The code of a loop by its plan keeps ranges apart if that of its body does. -/
theorem keepsRanged_pushPlanned
    (separates : context.scope.SeparatesLocals)
    (wellFormed : context.scope.WellFormed)
    {span : Span}
    {collection : Expr}
    {body : JumpTarget → CodeStep}
    (nests : context.NestsPlan plan collection)
    (keeps : ∀ target, (body target).KeepsRanged context.scope plan.scope) :
    CodeStep.KeepsRanged (context.pushPlanned plan span collection body) context.scope
      plan.outer := by
  intro code after ranged planned
  simp only [pushPlanned] at planned
  split at planned
  · simp only [bind_eq_ok, pure_eq_ok] at planned
    obtain ⟨done, isDone, rfl⟩ := planned
    exact (keepsRanged_pushEffects separates wellFormed nests ranged isDone).markSource _ _
  · simp only [bind_eq_ok, pure_eq_ok] at planned
    obtain ⟨done, isDone, rfl⟩ := planned
    exact (keepsRanged_pushIteration separates wellFormed nests keeps ranged isDone).markSource _ _

end Loops

/-- The code of a loop keeps ranges apart if that of its action does. -/
theorem keepsRanged_pushLoop
    (separates : context.scope.SeparatesLocals)
    (wellFormed : context.scope.WellFormed)
    {span : Span}
    {element : LocalDecl}
    {collection : Expr}
    {action : Option Stmt}
    {facts : LoopFacts}
    {outer inner : Nat}
    {pushAction : JumpTarget → ScopeId → CodeStep}
    (nests : context.scope.NestsLoop element collection facts outer inner)
    (keeps : ∀ target, (pushAction target inner).KeepsRanged context.scope inner) :
    CodeStep.KeepsRanged
      (context.pushLoop span element collection action facts outer pushAction) context.scope
      outer := by
  intro code after ranged looped
  simp only [pushLoop, nests.scope] at looped
  split at looped
  · split at looped
    · exact Except.ok.inj looped ▸ ranged
    · cases looped
    · cases looped
    · cases looped
    · next resolution scope id classified isScope isBound =>
        obtain rfl := Option.some.inj isScope
        refine keepsRanged_pushPlanned separates wellFormed
          ⟨nests.parent, nests.element id isBound, nests.collection,
            nests.synthetics resolution classified⟩ (fun target => ?_) ranged looped
        intro before ran inside isRan
        split at isRan
        · exact keeps target inside isRan
        · exact Except.ok.inj isRan ▸ inside
  · exact Except.ok.inj looped ▸ ranged

mutual

/-- The code of a statement keeps ranges apart. -/
theorem keepsRanged_pushStmt
    (separates : context.scope.SeparatesLocals)
    (wellFormed : context.scope.WellFormed) :
    ∀ {stmt : Stmt} {targets : List JumpTarget} {block : Nat},
      context.scope.Nests stmt block →
      (context.pushStmt stmt targets block).KeepsRanged context.scope block
  | .localVar span decl, _, block, nests, code, after, ranged, pushed => by
      rw [MethodScope.Nests] at nests
      simp only [pushStmt, bind_eq_ok, pure_eq_ok] at pushed
      obtain ⟨done, isDone, rfl⟩ := pushed
      exact (keepsRanged_pushDeclaration separates nests.1 nests.2 ranged isDone).markSource _ _
  | .expr span value, _, block, nests, code, after, ranged, pushed => by
      rw [MethodScope.Nests] at nests
      simp only [pushStmt, bind_eq_ok, pure_eq_ok] at pushed
      obtain ⟨done, isDone, rfl⟩ := pushed
      exact (ranged.opensOnly separates (opensOnly_pushExpr value false nests isDone)).markSource
        _ _
  | .block span stmts facts, targets, block, nests, code, after, ranged, pushed => by
      rw [MethodScope.Nests] at nests
      obtain ⟨inner, isScope, parent, inside⟩ := nests
      simp only [pushStmt, isScope, Option.getD_some, bind_eq_ok, pure_eq_ok] at pushed
      obtain ⟨ran, isRan, rfl⟩ := pushed
      have different : inner ≠ block := Nat.ne_of_gt (wellFormed.parentOlder parent)
      have left := (keepsRanged_pushStmts separates wellFormed inside
        (ranged.enter wellFormed parent) isRan).exit wellFormed parent
      rw [leaveBlock, if_neg different]
      exact left.markSource _ _
  | .branch span condition thenBranch none, targets, block, nests, code, after, ranged,
      pushed => by
      rw [MethodScope.Nests] at nests
      simp only [pushStmt, bind_eq_ok, pure_eq_ok] at pushed
      obtain ⟨tested, isTested, done, isDone, rfl⟩ := pushed
      have condition := ranged.opensOnly separates
        (OpensOnly.refl.addLabel.trans (opensOnly_branchOn nests.1 isTested))
      have left := keepsRanged_pushStmt separates wellFormed nests.2 condition isDone
      exact (left.place _).markSource _ _
  | .branch span condition thenBranch (some elseBranch), targets, block, nests, code, after,
      ranged, pushed => by
      rw [MethodScope.Nests] at nests
      simp only [pushStmt, bind_eq_ok, pure_eq_ok] at pushed
      obtain ⟨tested, isTested, thenDone, isThenDone, done, isDone, rfl⟩ := pushed
      have condition := ranged.opensOnly separates
        (OpensOnly.refl.addLabel.trans (opensOnly_branchOn nests.1 isTested))
      have thenLeft := keepsRanged_pushStmt separates wellFormed nests.2.1 condition isThenDone
      have left : (if thenDone.addLabel.isTerminated = true then thenDone.addLabel
          else thenDone.addLabel.emit (.goto thenDone.nextLabel)).Ranged context.scope block := by
        split
        · exact thenLeft.addLabel
        · exact thenLeft.addLabel.emit _
      have elseLeft := keepsRanged_pushStmt separates wellFormed nests.2.2
        (left.place _) isDone
      exact (elseLeft.place _).markSource _ _
  | .forEach span element collection none facts, targets, block, nests, code, after, ranged,
      pushed => by
      rw [MethodScope.Nests] at nests
      obtain ⟨inner, loop⟩ := nests
      simp only [pushStmt, bind_eq_ok, pure_eq_ok] at pushed
      obtain ⟨done, isDone, rfl⟩ := pushed
      refine CodeStream.Ranged.markSource ?_ _ _
      refine keepsRanged_pushLoop separates wellFormed loop (fun target => ?_) ranged isDone
      intro before ran inside isRan
      exact Except.ok.inj isRan ▸ inside
  | .forEach span element collection (some action) facts, targets, block, nests, code, after,
      ranged, pushed => by
      rw [MethodScope.Nests] at nests
      obtain ⟨inner, loop, inside⟩ := nests
      simp only [pushStmt, bind_eq_ok, pure_eq_ok] at pushed
      obtain ⟨done, isDone, rfl⟩ := pushed
      exact (keepsRanged_pushLoop separates wellFormed loop
        (fun target => keepsRanged_pushStmt separates wellFormed inside) ranged
        isDone).markSource _ _
  | .labeled span label body, targets, block, nests, code, after, ranged, pushed => by
      rw [MethodScope.Nests] at nests
      simp only [pushStmt, bind_eq_ok, pure_eq_ok] at pushed
      obtain ⟨done, isDone, rfl⟩ := pushed
      have left := keepsRanged_pushStmt separates wellFormed nests
        ranged.addLabel isDone
      exact (left.place _).markSource _ _
  | .breakTo span label, targets, block, _, code, after, ranged, pushed
  | .continueTo span label, targets, block, _, code, after, ranged, pushed => by
      simp only [pushStmt, bind_eq_ok, pure_eq_ok] at pushed
      obtain ⟨target, -, rfl⟩ := pushed
      exact (ranged.emit _).markSource _ _
  | .returnWith span none, targets, block, _, code, after, ranged, pushed => by
      simp only [pushStmt, Except.ok.injEq] at pushed
      exact pushed ▸ (ranged.emit _).markSource _ _
  | .returnWith span (some value), targets, block, nests, code, after, ranged, pushed => by
      rw [MethodScope.Nests] at nests
      simp only [pushStmt, pushReturn, bind_eq_ok, pure_eq_ok] at pushed
      obtain ⟨done, ⟨valued, isPushed, rfl⟩, rfl⟩ := pushed
      have opens := (opensOnly_pushExpr value true nests isPushed).plainly
        (.convertAssigned .refl context.table (context.exprType value) context.state.returnType)
      exact ((ranged.opensOnly separates opens).emit _).markSource _ _
  | .empty span, targets, block, _, code, after, ranged, pushed => by
      simp only [pushStmt, Except.ok.injEq] at pushed
      exact pushed ▸ ranged

theorem keepsRanged_pushStmts
    (separates : context.scope.SeparatesLocals)
    (wellFormed : context.scope.WellFormed) :
    ∀ {stmts : List Stmt} {limit : Option Nat} {targets : List JumpTarget} {block : Nat},
      context.scope.NestsAll stmts block →
      (context.pushStmts stmts limit targets block).KeepsRanged context.scope block
  | [], limit, targets, block, _, code, after, ranged, pushed => by
      simp only [pushStmts, Except.ok.injEq] at pushed
      exact pushed ▸ ranged
  | stmt :: rest, limit, targets, block, nests, code, after, ranged, pushed => by
      rw [MethodScope.NestsAll] at nests
      by_cases stops : limit = some 0
      · subst stops
        simp only [pushStmts, Except.ok.injEq] at pushed
        exact pushed ▸ ranged
      · obtain ⟨done, isDone, ran⟩ := (pushStmts_cons_eq_ok stops).mp pushed
        exact keepsRanged_pushStmts separates wellFormed nests.2
          (keepsRanged_pushStmt separates wellFormed nests.1 ranged isDone) ran

end

/-- Opening the ranges of parameters keeps ranges apart. -/
theorem keepsRanged_openParams
    (separates : context.scope.SeparatesLocals)
    {block : Nat} :
    ∀ {params : List Param},
      (∀ param ∈ params, ∀ id, param.binding = some id →
        context.scope.Sees block context.scope.locals.size id) →
      CodeStep.KeepsRanged (context.openParams params) context.scope block
  | [], _, code, after, ranged, opened => by
      simp only [openParams, Except.ok.injEq] at opened
      exact opened ▸ ranged
  | param :: rest, sees, code, after, ranged, opened => by
      simp only [openParams] at opened
      split at opened
      · cases opened
      · next id isBound =>
          exact keepsRanged_openParams separates
            (fun other member => sees other (List.mem_cons_of_mem _ member))
            (ranged.openLocal separates (sees param List.mem_cons_self id isBound)) opened

end CodeContext

end LoopLowering
