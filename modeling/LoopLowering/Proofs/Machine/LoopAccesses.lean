import LoopLowering.Proofs.Code.Relowering
import LoopLowering.Proofs.Code.SyntheticSlots
import LoopLowering.Proofs.Machine.ClosedCode

namespace LoopLowering

/-!
# Accesses to the locals of loops

The code of a loop has steps of its own around its collection and its body: it starts,
tests, fetches elements and comes back. Each step loads, stores and increments locals
that are known beforehand. Of the locals that the loop introduces, these are the ones that
flow analysis marks when it leaves the loop, and the ones that have slots.
-/

/-- What code does with a local. -/
inductive LocalAccess where
  | load (id : LocalId)
  | store (id : LocalId)
  | increment (id : LocalId)
  deriving Repr, DecidableEq

namespace LocalAccess

/-- The local that is accessed. -/
def id :
    LocalAccess → LocalId
  | .load id | .store id | .increment id => id

/-- An instruction is what an access to a local takes, in the slot of the local. -/
def IsBy
    (scope : MethodScope)
    (access : LocalAccess)
    (instruction : Instruction) :
    Prop :=
  ∃ slot, (scope.localAt access.id).slot = some slot ∧
    match access with
    | .load id => instruction = .load (CodeStream.kindOf scope id) slot
    | .store id => instruction = .store (CodeStream.kindOf scope id) slot
    | .increment _ => ∃ delta, instruction = .increment slot delta

end LocalAccess

namespace CodeStream

variable
  {scope : MethodScope}
  {before code after : CodeStream}
  {made : List LocalAccess}

/-- Between two times, locals were accessed in order, and nothing else was written that
uses a slot. -/
inductive Accesses
    (scope : MethodScope)
    (before : CodeStream) :
    List LocalAccess → CodeStream → Prop where
  | refl : Accesses scope before [] before
  | load {made : List LocalAccess} {code after : CodeStream} {id : LocalId} :
      Accesses scope before made code → code.load scope id = .ok after →
        Accesses scope before (made ++ [.load id]) after
  | store {made : List LocalAccess} {code after : CodeStream} {id : LocalId} {keep : Bool} :
      Accesses scope before made code → code.store scope id keep = .ok after →
        Accesses scope before (made ++ [.store id]) after
  | increment {made : List LocalAccess} {code after : CodeStream} {id : LocalId}
      {delta : Int16} :
      Accesses scope before made code → code.increment scope id delta = .ok after →
        Accesses scope before (made ++ [.increment id]) after
  | emit {made : List LocalAccess} {code : CodeStream} {instruction : Instruction} :
      Accesses scope before made code → instruction.usesSlot = false →
        Accesses scope before made (code.emit instruction)
  | sameInstructions {made : List LocalAccess} {code after : CodeStream} :
      Accesses scope before made code → after.instructions = code.instructions →
        Accesses scope before made after

/-- Plain code accesses no locals. -/
theorem Accesses.plainly
    (accesses : Accesses scope before made code)
    (plainly : code.Plainly after) :
    Accesses scope before made after := by
  induction plainly with
  | refl =>
      exact accesses
  | emit _ plain inductionHypothesis =>
      exact inductionHypothesis.emit (Instruction.usesSlot_of_isPlain plain).1

/-- The instructions that were written and use slots are those that the accesses take,
one for each of them. -/
theorem Accesses.exists_added
    (accesses : Accesses scope before made after) :
    ∃ added, after.instructions.toList = before.instructions.toList ++ added ∧
      List.Forall₂ (LocalAccess.IsBy scope) made (added.filter Instruction.usesSlot) := by
  induction accesses with
  | refl =>
      exact ⟨[], by simp, .nil⟩
  | @load _ _ _ id _ isLoaded inductionHypothesis =>
      obtain ⟨added, written, areBy⟩ := inductionHypothesis
      obtain ⟨slot, isSlot, rfl⟩ := load_eq_ok.mp isLoaded
      refine ⟨added ++ [.load (kindOf scope id) slot], by simp [CodeStream.emit, written], ?_⟩
      rw [List.filter_append]
      exact List.rel_append areBy (.cons ⟨slot, isSlot, rfl⟩ .nil)
  | @store made code _ id keep _ isStored inductionHypothesis =>
      obtain ⟨added, written, areBy⟩ := inductionHypothesis
      obtain ⟨slot, isSlot, rfl⟩ := store_eq_ok.mp isStored
      have isCopied : ∃ copies : List Instruction,
          (code.copied (kindOf scope id) keep).instructions.toList =
            code.instructions.toList ++ copies ∧ copies.filter Instruction.usesSlot = [] := by
        cases keep with
        | false =>
            exact ⟨[], by simp [CodeStream.copied], rfl⟩
        | true =>
            cases isWide : (kindOf scope id).isWide with
            | false => exact ⟨[.dup], by simp [CodeStream.copied, isWide, CodeStream.emit], rfl⟩
            | true => exact ⟨[.dup2], by simp [CodeStream.copied, isWide, CodeStream.emit], rfl⟩
      obtain ⟨copies, isCopied, noSlots⟩ := isCopied
      refine ⟨added ++ (copies ++ [.store (kindOf scope id) slot]), ?_, ?_⟩
      · rw [(openLocal_same scope id _).1]
        simp [CodeStream.emit, isCopied, written]
      · rw [List.filter_append, List.filter_append, noSlots]
        exact List.rel_append areBy (.cons ⟨slot, isSlot, rfl⟩ .nil)
  | @increment _ _ _ _ delta _ isIncremented inductionHypothesis =>
      obtain ⟨added, written, areBy⟩ := inductionHypothesis
      obtain ⟨slot, isSlot, rfl⟩ := increment_eq_ok.mp isIncremented
      refine ⟨added ++ [.increment slot delta], by simp [CodeStream.emit, written], ?_⟩
      rw [List.filter_append]
      exact List.rel_append areBy (.cons ⟨slot, isSlot, _, rfl⟩ .nil)
  | @emit _ _ instruction _ usesNone inductionHypothesis =>
      obtain ⟨added, written, areBy⟩ := inductionHypothesis
      refine ⟨added ++ [instruction], by simp [CodeStream.emit, written], ?_⟩
      simpa [usesNone] using areBy
  | sameInstructions _ same inductionHypothesis =>
      obtain ⟨added, written, areBy⟩ := inductionHypothesis
      exact ⟨added, by rw [same, written], areBy⟩

end CodeStream

namespace CodeContext

open CodeStream

variable
  {context : CodeContext}
  {plan : LoopPlan}
  {code after : CodeStream}

/-- Starting a loop keeps the collection, and where it is needed the bound and the
index. -/
def startAccesses
    (plan : LoopPlan) :
    List LocalAccess :=
  match plan.resolution.strategy with
  | .array index bound source =>
      .store source :: if plan.continues then [.store bound, .store index] else []
  | .rawIterable iterator _ | .genericIterable iterator _ => [.store iterator]

/-- Entering a loop that never comes back asks its iterator for an element. -/
def entryAccesses
    (plan : LoopPlan) :
    List LocalAccess :=
  if plan.continues then
    []
  else
    match plan.resolution.strategy with
    | .array .. => []
    | .rawIterable iterator _ | .genericIterable iterator _ => [.load iterator]

/-- Fetching an element stores it if it exists. -/
def fetchAccesses
    (context : CodeContext)
    (plan : LoopPlan) :
    List LocalAccess :=
  match plan.resolution.strategy with
  | .array index _ source =>
      if context.hasSlot plan.element then
        .load source :: ((if context.hasSlot index then [.load index] else []) ++
          [.store plan.element])
      else
        []
  | .rawIterable iterator _ | .genericIterable iterator _ =>
      .load iterator :: if context.hasSlot plan.element then [.store plan.element] else []

/-- Coming back moves on and tests. -/
def bottomAccesses
    (context : CodeContext)
    (plan : LoopPlan) :
    List LocalAccess :=
  if plan.continues then
    match plan.resolution.strategy with
    | .array index bound _ =>
        (if !plan.hasEmptyAction || context.hasSlot plan.element then [.increment index] else []) ++
          [.load index, .load bound]
    | .rawIterable iterator _ | .genericIterable iterator _ => [.load iterator]
  else
    []

/-- The accesses of the steps of a loop in order. A loop that is dead has none. -/
def loopAccesses
    (context : CodeContext)
    (plan : LoopPlan) :
    List LocalAccess :=
  if context.isIdle plan then
    []
  else
    startAccesses plan ++ entryAccesses plan ++ context.fetchAccesses plan ++
      context.bottomAccesses plan

/-- Around the code of its collection and its body, the code of a loop accesses locals
in order: in its start, its entry, its fetch of an element, and the test at its bottom.
Before, between and after these steps it only places branch targets and ends ranges. -/
inductive AccessesLocals
    (context : CodeContext)
    (plan : LoopPlan)
    (collection : Expr)
    (body : JumpTarget → CodeStep)
    (code after : CodeStream) :
    List LocalAccess → Prop where
  | idle {ran : CodeStream} :
      context.isIdle plan = true →
      context.pushExpr collection false code = .ok ran →
      ran.SameCode after →
      AccessesLocals context plan collection body code after []
  | busy {left : CodeStream} {starts enters fetches tests : List LocalAccess}
      (iteration : context.Iteration plan collection body code left) :
      context.isIdle plan = false →
      left.SameCode after →
      Accesses context.scope iteration.pushed starts iteration.started →
      Accesses context.scope iteration.labeled enters iteration.entered →
      Accesses context.scope (iteration.entered.place iteration.labels.action) fetches
        iteration.fetched →
      Accesses context.scope (context.closeBody plan iteration.ran) tests iteration.repeated →
      AccessesLocals context plan collection body code after
        (starts ++ enters ++ fetches ++ tests)

/-- The test of an iterator loads the iterator. -/
theorem accesses_testIterator
    {before : CodeStream}
    {made : List LocalAccess}
    (accesses : Accesses context.scope before made code)
    {iterator : LocalId}
    {condition : Condition}
    {label : Label}
    (tested : context.testIterator iterator condition label code = .ok after) :
    Accesses context.scope before (made ++ [.load iterator]) after := by
  simp only [testIterator, bind_eq_ok, pure_eq_ok] at tested
  obtain ⟨loaded, isLoaded, rfl⟩ := tested
  exact ((accesses.load isLoaded).emit rfl).emit rfl

/-- What is accessed when a loop is started. -/
theorem accesses_startLoop
    (started : context.startLoop plan code = .ok after) :
    Accesses context.scope code (startAccesses plan) after := by
  cases strategy : plan.resolution.strategy with
  | array index bound source =>
      simp only [startLoop, strategy, bind_eq_ok] at started
      obtain ⟨stored, isStored, started⟩ := started
      have first := Accesses.refl.store isStored
      simp only [startAccesses, strategy]
      cases continues : plan.continues with
      | true =>
          simp only [continues, if_true, bind_eq_ok] at started
          obtain ⟨bounded, isBounded, indexed⟩ := started
          exact (((first.emit rfl).store isBounded).emit rfl).store indexed
      | false =>
          simp only [continues, Bool.false_eq_true, if_false, pure_eq_ok] at started
          exact started ▸ first
  | rawIterable iterator receiver | genericIterable iterator receiver =>
      simp only [startLoop, strategy] at started
      simp only [startAccesses, strategy]
      exact (Accesses.refl.emit rfl).store started

/-- What is accessed when a loop is entered. -/
theorem accesses_enterLoop
    {labels : LoopLabels}
    (sameShape : labels.next.isSome = plan.continues)
    (entered : context.enterLoop plan labels code = .ok after) :
    Accesses context.scope code (entryAccesses plan) after := by
  simp only [enterLoop] at entered
  split at entered
  · next next isNext =>
      have continues : plan.continues = true := by
        rw [← sameShape, isNext]
        rfl
      rw [entryAccesses, if_pos continues, ← Except.ok.inj entered]
      exact Accesses.refl.emit rfl
  · next isNext =>
      have once : plan.continues = false := by
        rw [← sameShape, isNext]
        rfl
      have placed : Accesses context.scope code [] (code.place labels.test) :=
        Accesses.refl.sameInstructions rfl
      simp only [entryAccesses, once, Bool.false_eq_true, if_false]
      cases strategy : plan.resolution.strategy with
      | array index bound source =>
          simp only [testAtTop, strategy, bind_eq_ok, pure_eq_ok] at entered
          obtain ⟨tested, rfl, rfl⟩ := entered
          exact ((placed.emit rfl).emit rfl).sameInstructions (markSource_same _ _ _).1
      | rawIterable iterator receiver | genericIterable iterator receiver =>
          simp only [testAtTop, strategy, bind_eq_ok, pure_eq_ok] at entered
          obtain ⟨tested, isTested, rfl⟩ := entered
          exact (accesses_testIterator placed isTested).sameInstructions (markSource_same _ _ _).1

/-- Binding the loop variable stores it. -/
theorem accesses_bindElement
    {before : CodeStream}
    {made : List LocalAccess}
    (accesses : Accesses context.scope before made code)
    (bound : context.bindElement plan code = .ok after) :
    Accesses context.scope before (made ++ [.store plan.element]) after := by
  simp only [bindElement, bind_eq_ok, pure_eq_ok] at bound
  obtain ⟨stored, isStored, rfl⟩ := bound
  have isBound := accesses.store isStored
  split
  · exact isBound.sameInstructions (openAssigned_same _ _ _ _).1
  · exact isBound

/-- What is accessed when an array element is fetched. -/
theorem accesses_fetchIndexed
    {index source : LocalId}
    (fetched : context.fetchIndexed plan index source code = .ok after) :
    Accesses context.scope code
      (.load source :: if context.hasSlot index then [.load index] else []) after := by
  obtain ⟨loaded, indexed, isLoaded, isIndexed, rfl⟩ := fetchIndexed_eq_ok.mp fetched
  have first := Accesses.refl.load isLoaded
  have both : Accesses context.scope code
      (.load source :: if context.hasSlot index then [.load index] else []) indexed := by
    cases indexSlot : context.hasSlot index with
    | true =>
        rw [if_pos indexSlot] at isIndexed
        exact first.load isIndexed
    | false =>
        simp only [indexSlot, Bool.false_eq_true, if_false, pure_eq_ok] at isIndexed
        exact isIndexed ▸ first.emit rfl
  exact (both.emit rfl).plainly (Plainly.refl.convertElement _ _)

/-- What is accessed when an element is fetched from an iterator. -/
theorem accesses_fetchIterated
    {iterator : LocalId}
    (fetched : context.fetchIterated plan iterator code = .ok after) :
    Accesses context.scope code [.load iterator] after := by
  simp only [fetchIterated, bind_eq_ok, pure_eq_ok] at fetched
  obtain ⟨loaded, isLoaded, rfl⟩ := fetched
  have first : Accesses context.scope code [.load iterator]
      (loaded.emit (context.iteratorCall "next" .object)) := (Accesses.refl.load isLoaded).emit rfl
  split
  · exact first
  · split
    · exact first.emit rfl
    · exact (first.emit rfl).plainly (Plainly.refl.convertElement _ _)

/-- What is accessed when an element is fetched. -/
theorem accesses_fetchElement
    (fetched : context.fetchElement plan code = .ok after) :
    Accesses context.scope code (context.fetchAccesses plan) after := by
  cases strategy : plan.resolution.strategy with
  | array index bound source =>
      simp only [fetchElement, strategy] at fetched
      simp only [fetchAccesses, strategy]
      cases elementSlot : context.hasSlot plan.element with
      | true =>
          simp only [elementSlot, if_true, bind_eq_ok] at fetched
          obtain ⟨element, isElement, bound⟩ := fetched
          exact accesses_bindElement (accesses_fetchIndexed isElement) bound
      | false =>
          simp only [elementSlot, Bool.false_eq_true, if_false, pure_eq_ok] at fetched
          exact fetched ▸ .refl
  | rawIterable iterator receiver | genericIterable iterator receiver =>
      simp only [fetchElement, strategy, bind_eq_ok] at fetched
      obtain ⟨element, isElement, bound⟩ := fetched
      simp only [fetchAccesses, strategy]
      cases elementSlot : context.hasSlot plan.element with
      | true =>
          rw [if_pos elementSlot] at bound
          exact accesses_bindElement (accesses_fetchIterated isElement) bound
      | false =>
          simp only [elementSlot, Bool.false_eq_true, if_false, pure_eq_ok] at bound
          exact bound ▸ (accesses_fetchIterated isElement).emit rfl

/-- What is accessed when a loop comes back for another element. -/
theorem accesses_testAtBottom
    {labels : LoopLabels}
    {next : Label}
    (continues : plan.continues = true)
    (tested : context.testAtBottom plan labels next code = .ok after) :
    Accesses context.scope code (context.bottomAccesses plan) after := by
  have placed : Accesses context.scope code [] (code.place next) :=
    Accesses.refl.sameInstructions rfl
  rw [bottomAccesses, if_pos continues]
  cases strategy : plan.resolution.strategy with
  | array index bound source =>
      obtain ⟨moved, indexed, bounded, isMoved, isIndexed, isBounded, rfl⟩ :=
        (testAtBottom_array_eq_ok strategy).mp tested
      have moves : Accesses context.scope code
          (if !plan.hasEmptyAction || context.hasSlot plan.element then [.increment index] else [])
          moved := by
        cases touched : !plan.hasEmptyAction || context.hasSlot plan.element with
        | true =>
            rw [if_pos touched] at isMoved
            exact placed.increment isMoved
        | false =>
            simp only [touched, Bool.false_eq_true, if_false, pure_eq_ok] at isMoved
            exact isMoved ▸ placed
      have testPlaced : Accesses context.scope code
          (if !plan.hasEmptyAction || context.hasSlot plan.element then [.increment index] else [])
          (moved.place labels.test) := moves.sameInstructions rfl
      have tests := (testPlaced.load isIndexed).load isBounded
      rw [List.append_assoc] at tests
      have branched : Accesses context.scope code _
          (bounded.emit (.branchIfInts .lt labels.action)) := tests.emit rfl
      exact branched.sameInstructions (markSource_same _ _ _).1
  | rawIterable iterator receiver | genericIterable iterator receiver =>
      simp only [testAtBottom, strategy, bind_eq_ok, pure_eq_ok] at tested
      obtain ⟨found, isFound, rfl⟩ := tested
      have testPlaced : Accesses context.scope code []
          ((code.place next).place labels.test) := placed.sameInstructions rfl
      exact (accesses_testIterator testPlaced isFound).sameInstructions (markSource_same _ _ _).1

/-- The code of a loop that is not dead accesses locals in its steps. -/
theorem Iteration.accessesLocals
    {collection : Expr}
    {body : JumpTarget → CodeStep}
    {left : CodeStream}
    (iteration : context.Iteration plan collection body code left)
    (busy : context.isIdle plan = false)
    (same : left.SameCode after) :
    context.AccessesLocals plan collection body code after (context.loopAccesses plan) := by
  have numbers := (LoopLabels.numbers iteration.isLabeled).2.2.2
  have sameShape : iteration.labels.next.isSome = plan.continues := by
    rw [numbers]
    cases plan.continues <;> rfl
  have tests : Accesses context.scope (context.closeBody plan iteration.ran)
      (context.bottomAccesses plan) iteration.repeated := by
    have isRepeated := iteration.isRepeated
    split at isRepeated
    · next next isNext =>
        exact accesses_testAtBottom (by rw [← sameShape, isNext]; rfl) isRepeated
    · next isNext =>
        have once : plan.continues = false := by
          rw [← sameShape, isNext]
          rfl
        rw [pure_eq_ok] at isRepeated
        rw [bottomAccesses, once, ← isRepeated]
        exact .refl
  rw [loopAccesses, busy]
  exact .busy iteration busy same (accesses_startLoop iteration.isStarted)
    (accesses_enterLoop sameShape iteration.isEntered) (accesses_fetchElement iteration.isFetched)
    tests

/-- The locals of a strategy that are accessed in the steps of a loop are those that the
loop needs, if the index of an array has a slot only where it is needed. -/
theorem mem_loopAccesses_iff
    (notElement : plan.element ∉ plan.resolution.strategy.synthetics)
    (once : ∀ index bound source, plan.resolution.strategy = .array index bound source →
      context.hasSlot index = true → plan.continues = true)
    {id : LocalId}
    (introduced : id ∈ plan.resolution.strategy.synthetics) :
    (∃ access ∈ context.loopAccesses plan, access.id = id) ↔
      plan.resolution.strategy.needs (!plan.hasEmptyAction || context.hasSlot plan.element)
        plan.continues id = true := by
  have other : plan.element ≠ id := fun same => notElement (same ▸ introduced)
  cases strategy : plan.resolution.strategy with
  | array index bound source =>
      have indexSlot := once index bound source strategy
      have isOne : id = index ∨ id = bound ∨ id = source := by
        simpa [strategy, LoopStrategy.synthetics] using introduced
      cases touched : !plan.hasEmptyAction || context.hasSlot plan.element with
      | false =>
          have idle : context.isIdle plan = true := by
            simpa [isIdle, strategy, LoopStrategy.isArray] using touched
          simp [loopAccesses, idle, LoopStrategy.needs]
      | true =>
          have busy : context.isIdle plan = false := by
            cases isEmpty : plan.hasEmptyAction <;> simp_all [isIdle]
          cases continues : plan.continues with
          | true =>
              refine iff_of_true ?_ (by rcases isOne with rfl | rfl | rfl <;> simp [LoopStrategy.needs])
              refine ⟨.store id, ?_, rfl⟩
              rcases isOne with rfl | rfl | rfl <;>
                simp [loopAccesses, busy, startAccesses, strategy, continues]
          | false =>
              have noIndex : context.hasSlot index = false := by
                simpa [continues] using indexSlot
              have accesses : context.loopAccesses plan = .store source ::
                  if context.hasSlot plan.element then [.load source, .store plan.element]
                  else [] := by
                simp [loopAccesses, busy, startAccesses, entryAccesses, fetchAccesses,
                  bottomAccesses, strategy, continues, noIndex]
              cases elementSlot : context.hasSlot plan.element <;>
                simp [accesses, elementSlot, LocalAccess.id, LoopStrategy.needs, other,
                  @eq_comm LocalId source id]
  | rawIterable iterator receiver | genericIterable iterator receiver =>
      rw [strategy] at introduced
      obtain rfl := List.mem_singleton.mp introduced
      simp [loopAccesses, isIdle, strategy, startAccesses, LoopStrategy.isArray, LocalAccess.id,
        LoopStrategy.needs]

/-- A part of a statement that code generation gets to is a part of the statement. -/
theorem parts_itemSite
    {targets : List JumpTarget}
    {scope : ScopeId}
    {site : CodeSite} :
    ∀ {stmts : List Stmt} {limit : Option Nat} {code : CodeStream} {index : Nat},
      context.itemSite? targets scope stmts limit code index = some site →
      site.stmt.parts ⊆ Stmt.allParts stmts
  | [], limit, code, index, isSite => by
      simp [itemSite?] at isSite
  | stmt :: rest, limit, code, index, isSite => by
      rcases limit with _ | _ | limit
      case some.zero =>
        simp [itemSite?] at isSite
      all_goals
        rw [Stmt.allParts]
        cases index with
        | zero =>
            simp only [itemSite?, Option.some.injEq] at isSite
            subst isSite
            exact List.subset_append_left _ _
        | succ index =>
            simp only [itemSite?, Option.bind_eq_some_iff] at isSite
            obtain ⟨done, -, isSite⟩ := isSite
            exact List.subset_append_of_subset_right _ (parts_itemSite isSite)

/-- A part of a statement that code generation gets to has its parts in common with the
statement. -/
theorem parts_childSite
    {site child : CodeSite}
    {step : TreeStep}
    (isChild : context.childSite? site step = some child) :
    child.stmt.parts ⊆ site.stmt.parts := by
  obtain ⟨stmt, targets, scope, code⟩ := site
  unfold childSite? at isChild
  split at isChild
  · next span stmts facts index isStmt =>
      subst isStmt
      exact List.subset_cons_of_subset _ (parts_itemSite isChild)
  · next span condition thenBranch elseBranch isStmt =>
      subst isStmt
      obtain ⟨tested, -, rfl⟩ := Option.map_eq_some_iff.mp isChild
      cases elseBranch with
      | none => exact List.subset_cons_self _ _
      | some elseBranch =>
          exact List.subset_cons_of_subset _ (List.subset_append_left _ _)
  · next span condition thenBranch elseBranch isStmt =>
      subst isStmt
      obtain ⟨tested, -, isChild⟩ := Option.bind_eq_some_iff.mp isChild
      obtain ⟨thenDone, -, rfl⟩ := Option.map_eq_some_iff.mp isChild
      exact List.subset_cons_of_subset _ (List.subset_append_right _ _)
  · next span element collection action facts isStmt =>
      subst isStmt
      split at isChild
      · obtain ⟨plan, -, isChild⟩ := Option.bind_eq_some_iff.mp isChild
        obtain ⟨opened, -, rfl⟩ := Option.map_eq_some_iff.mp isChild
        exact List.subset_cons_self _ _
      · cases isChild
  · next span label body isStmt =>
      subst isStmt
      obtain rfl := Option.some.inj isChild
      exact List.subset_cons_self _ _
  · cases isChild

/-- A part that code generation gets to along a path has its parts in common with the
statement that the path starts at. -/
theorem parts_siteAlong :
    ∀ {path : List TreeStep} {site last : CodeSite},
      context.siteAlong? path site = some last →
      last.stmt.parts ⊆ site.stmt.parts
  | [], site, last, isLast => by
      obtain rfl := Option.some.inj isLast
      exact List.Subset.refl _
  | step :: path, site, last, isLast => by
      simp only [siteAlong?, Option.bind_eq_some_iff] at isLast
      obtain ⟨child, isChild, isLast⟩ := isLast
      exact List.Subset.trans (parts_siteAlong isLast) (parts_childSite isChild)

/-- A loop is generated by its plan. -/
theorem pushStmt_forEach
    {span : Span}
    {element : LocalDecl}
    {collection : Expr}
    {action : Option Stmt}
    {facts : LoopFacts}
    {targets : List JumpTarget}
    {scope : ScopeId}
    (pushed : context.pushStmt (.forEach span element collection action facts) targets scope code =
      .ok after) :
    ∃ pushAction done, context.pushLoop span element collection action facts scope pushAction
        code = .ok done ∧ done.SameCode after := by
  cases action with
  | none | some action =>
      simp only [pushStmt, bind_eq_ok, pure_eq_ok] at pushed
      obtain ⟨done, isDone, rfl⟩ := pushed
      exact ⟨_, done, isDone, markSource_same _ _ _⟩

end CodeContext

/-- A local before flow analysis has left any loop: one that the compiler introduced is
not marked as used. -/
def LocalVariable.unmarked
    (entry : LocalVariable) :
    LocalVariable :=
  if entry.isSynthetic then { entry with isUsed := false } else entry

/-- The locals of a method before flow analysis has left any loop. -/
def MethodScope.unmarked
    (scope : MethodScope) :
    MethodScope :=
  { scope with locals := scope.locals.map LocalVariable.unmarked }

/-- Marks are removed local by local. -/
theorem MethodScope.localAt_unmarked
    (scope : MethodScope)
    (id : Nat) :
    scope.unmarked.localAt id = (scope.localAt id).unmarked := by
  simp only [localAt, unmarked, Array.getElem?_map]
  cases scope.locals[id]? with
  | none => rfl
  | some entry => rfl

namespace CodeContext

/-- The plan of a loop at a place. -/
def loopPlan?
    (context : CodeContext)
    (site : CodeSite) :
    Option LoopPlan :=
  match site.stmt with
  | .forEach _ element _ action facts => context.plan? element action facts site.scope
  | _ => none

/-- Whether flow analysis marks a local when it leaves a loop. -/
def marksLocal
    (context : CodeContext)
    (options : CompilerOptions)
    (element : LocalDecl)
    (action : Option Stmt)
    (facts : LoopFacts)
    (id : LocalId) :
    Bool :=
  ((markSynthetics options facts.classification (Stmt.isEmptyAction action) element.binding
    facts.continues context.scope.unmarked).localAt id).isUsed

variable
  {strict : Bool}
  {context : CodeContext}
  {options : CompilerOptions}
  {element : LocalDecl}
  {collection : Expr}
  {facts : LoopFacts}
  {outer first inner : Nat}
  {resolution : LoopResolution}

/-- When a loop is left, flow analysis marks the locals that the loop needs. -/
theorem LoopHead.marksLocal_eq
    (head : context.LoopHead strict element collection facts outer first inner resolution)
    (allots : context.Allots options)
    (action : Option Stmt)
    {id : Nat}
    (introduced : id ∈ resolution.strategy.synthetics) :
    context.marksLocal options element action facts id =
      resolution.strategy.needs (context.touchesElements element action) facts.continues id := by
  obtain ⟨ty, -, iterates⟩ := head.iterated
  obtain ⟨-, -, entry, introduces⟩ := iterates.introduces id introduced
  have known : id < context.scope.unmarked.locals.size := by
    simpa [MethodScope.unmarked] using introduces.known
  have isUnmarked : (context.scope.unmarked.localAt id).isUsed = false := by
    have isSynthetic : (context.scope.localAt id).isSynthetic = true := introduces.isSynthetic
    simp [MethodScope.localAt_unmarked, LocalVariable.unmarked, isSynthetic]
  have isSource : (context.scope.localAt first).isSynthetic = false := head.declares.isSource
  have sameExistence : context.scope.unmarked.isMaterialized options.keepUnusedLocals first =
      context.hasSlot first := by
    rw [allots first head.declares.known]
    simp only [MethodScope.isMaterialized, MethodScope.localAt_unmarked, LocalVariable.unmarked,
      isSource, Bool.false_eq_true, if_false]
    rfl
  rw [marksLocal, head.classification, head.binding,
    MethodScope.isUsed_markSynthetics options resolution _ _ _ known, isUnmarked, sameExistence]
  simp [touchesElements, head.binding]

end CodeContext

section Methods

variable
  {table : ClassTable}
  {options : CompilerOptions}
  {method : Method}
  {lowered : LoweredMethod}

/-- In a method without errors whose names are not reserved, the code of each loop
accesses a local that the loop introduces exactly if flow analysis marks the local when it
leaves the loop, and so exactly if the local has a slot. -/
theorem accesses_lowerMethod
    {unit : CompilationUnit}
    (declared : ClassTable.ofUnit unit = .ok table)
    (unreserved : method.isUnreserved = true)
    (isLowered : lowerMethod table options method = .ok lowered)
    (noErrors : lowered.hasErrors = false) :
    ∃ opened, (loweringContext table options method).openParams lowered.method.params .empty =
        .ok opened ∧
      ∀ (item : Nat) (path : List TreeStep) (site : CodeSite) (span : Span) (element : LocalDecl)
          (collection : Expr) (action : Option Stmt) (facts : LoopFacts),
        (loweringContext table options method).methodSite? lowered.method opened item path =
          some site →
        site.stmt = .forEach span element collection action facts →
        ∃ plan after,
          (loweringContext table options method).loopPlan? site = some plan ∧
          (loweringContext table options method).pushStmt site.stmt site.targets site.scope
            site.code = .ok after ∧
          (∃ body, (loweringContext table options method).AccessesLocals plan collection body
            site.code after ((loweringContext table options method).loopAccesses plan)) ∧
          ∀ id ∈ plan.resolution.strategy.synthetics,
            ((∃ access ∈ (loweringContext table options method).loopAccesses plan,
                access.id = id) ↔
              (loweringContext table options method).marksLocal options element action facts id =
                true) ∧
            (loweringContext table options method).marksLocal options element action facts id =
              (lowered.scope.localAt id).isUsed ∧
            (lowered.scope.localAt id).slot.isSome = (lowered.scope.localAt id).isUsed := by
  have tableSound := ClassTable.ofUnit_sound unit.isAllowed_lenient declared
  obtain ⟨clean, sameScope, code, -, generated⟩ := exists_code_lowerMethod isLowered noErrors
  have resolved := (resolved_analyzedBody tableSound method.isAllowed_lenient clean).1
  have runs := (runs_body tableSound method.isAllowed_lenient clean).2
  obtain ⟨opened, isOpened, pushes⟩ := CodeContext.pushes_methodSite generated
  rw [method_lowerMethod isLowered, sameScope]
  refine ⟨opened, isOpened, ?_⟩
  rintro item path ⟨stmt, targets, scope, before⟩ span element collection action facts isSite rfl
  have isPart : .forEach span element collection action facts ∈
      Stmt.allParts (method.analyzedBody table options).nodes := by
    simp only [CodeContext.methodSite?, Option.bind_eq_some_iff] at isSite
    obtain ⟨begun, isBegun, isSite⟩ := isSite
    refine CodeContext.parts_itemSite isBegun (CodeContext.parts_siteAlong isSite ?_)
    cases action <;> simp [Stmt.parts]
  obtain ⟨outer, first, inner, resolution, assigned, head, enters⟩ :=
    CodeContext.entersHeads_of_allRun resolved runs _ isPart
  obtain ⟨plan, plans, isResolution, isElement⟩ := head.exists_plan? action scope
  obtain ⟨after, pushed⟩ := pushes item path _ isSite
  have sameFacts := CodeContext.isIdle_of_plan? plans
  have sameEmpty := CodeContext.hasEmptyAction_of_plan? plans
  have touches : (!plan.hasEmptyAction || (loweringContext table options method).hasSlot
      plan.element) = (loweringContext table options method).touchesElements element action := by
    simp [CodeContext.touchesElements, sameEmpty, isElement, head.binding]
  refine ⟨plan, after, plans, pushed, ?_, fun id introduced => ?_⟩
  · obtain ⟨pushAction, done, looped, same⟩ := CodeContext.pushStmt_forEach pushed
    rcases CodeContext.dead_or_iterates plans enters.reachable looped with
      ⟨idle, ran, isRan, sameRan⟩ | ⟨busy, left, sameLeft, ⟨iteration⟩⟩
    · refine ⟨fun _ => .ok, ?_⟩
      rw [CodeContext.loopAccesses, if_pos idle]
      exact .idle idle isRan (sameRan.trans same)
    · exact ⟨_, iteration.accessesLocals busy (sameLeft.trans same)⟩
  · rw [isResolution] at introduced
    obtain ⟨isNeeded, slotted⟩ := hasSlot_synthetic tableSound method.isAllowed_lenient clean
      unreserved isPart head.classification introduced
    have marks := head.marksLocal_eq (fun _ => CodeContext.hasSlot_loweringContext) action introduced
    have once : ∀ index bound source, plan.resolution.strategy = .array index bound source →
        (loweringContext table options method).hasSlot index = true → plan.continues = true := by
      intro index bound source strategy indexSlot
      rw [isResolution] at strategy
      obtain ⟨ty, -, iterates⟩ := head.iterated
      have isIndex : index ∈ resolution.strategy.synthetics := by
        simp [strategy, LoopStrategy.synthetics]
      obtain ⟨indexNeeded, indexSlotted⟩ := hasSlot_synthetic tableSound
        method.isAllowed_lenient clean unreserved isPart head.classification isIndex
      rw [indexSlotted, indexNeeded] at indexSlot
      simp only [strategy, LoopStrategy.needs, (iterates.ne_of_array strategy).1, Bool.and_eq_true,
        Bool.or_eq_true, beq_iff_eq, false_or] at indexSlot
      exact sameFacts.2.trans indexSlot.2.1
    have accessed := CodeContext.mem_loopAccesses_iff
      (by rw [isElement, isResolution]; exact head.notMem_synthetics) once
      (by rw [isResolution]; exact introduced)
    rw [touches, isResolution, sameFacts.2, ← marks] at accessed
    exact ⟨accessed, marks.trans isNeeded.symm, slotted⟩

/-- A loop that is left at once and does not use its elements stores the array that it
iterates over. So the array has a slot, and the index and the bound have none. -/
theorem breaksFirst_accesses :
    ∃ lowered opened site plan,
      ClassTable.ofUnit ⟨"Main", none, [], [], []⟩ = .ok .builtin ∧
      Method.breaksFirst.isUnreserved = true ∧
      lowerMethod .builtin .standard .breaksFirst = .ok lowered ∧
      lowered.hasErrors = false ∧
      (loweringContext .builtin .standard .breaksFirst).methodSite? lowered.method opened 0 [] =
        some site ∧
      (loweringContext .builtin .standard .breaksFirst).loopPlan? site = some plan ∧
      plan.resolution.strategy = .array 2 3 4 ∧
      (loweringContext .builtin .standard .breaksFirst).loopAccesses plan = [.store 4] ∧
      (lowered.scope.localAt 2).slot.isSome = false ∧
      (lowered.scope.localAt 3).slot.isSome = false ∧
      (lowered.scope.localAt 4).slot.isSome = true := by
  have declared : ClassTable.ofUnit ⟨"Main", none, [], [], []⟩ = .ok .builtin := rfl
  have unreserved : Method.breaksFirst.isUnreserved = true := by
    decide +kernel
  have evaluated : (lowerMethod .builtin .standard .breaksFirst).toOption.any (fun lowered =>
      !lowered.hasErrors && ((loweringContext .builtin .standard .breaksFirst).openParams
        lowered.method.params .empty).toOption.any (fun opened =>
          ((loweringContext .builtin .standard .breaksFirst).methodSite? lowered.method opened 0
            []).any (fun site =>
              ((loweringContext .builtin .standard .breaksFirst).loopPlan? site).any (fun plan =>
                decide (plan.resolution.strategy = .array 2 3 4) &&
                  decide ((loweringContext .builtin .standard .breaksFirst).loopAccesses plan =
                    [.store 4]))))) = true := by
    decide +kernel
  cases isLowered : lowerMethod .builtin .standard .breaksFirst with
  | error cause =>
      rw [isLowered] at evaluated
      cases evaluated
  | ok lowered =>
      simp only [isLowered, Except.toOption, Option.any_some, Bool.and_eq_true,
        Bool.not_eq_true'] at evaluated
      obtain ⟨noErrors, evaluated⟩ := evaluated
      obtain ⟨opened, isOpened, accesses⟩ :=
        accesses_lowerMethod declared unreserved isLowered noErrors
      simp only [isOpened, Option.any_some, Option.any_eq_true, Bool.and_eq_true,
        decide_eq_true_eq] at evaluated
      obtain ⟨site, isSite, plan, plans, strategy, listed⟩ := evaluated
      refine ⟨lowered, opened, site, plan, declared, unreserved, rfl, noErrors, isSite, plans,
        strategy, listed, ?_⟩
      cases isStmt : site.stmt with
      | forEach span element collection action facts =>
          obtain ⟨found, -, isFound, -, -, agree⟩ :=
            accesses 0 [] site span element collection action facts isSite isStmt
          obtain rfl := Option.some.inj (plans.symm.trans isFound)
          have slotted : ∀ id ∈ plan.resolution.strategy.synthetics,
              ((lowered.scope.localAt id).slot.isSome = true ↔ 4 = id) := by
            intro id introduced
            obtain ⟨accessed, marked, hasSlot⟩ := agree id introduced
            rw [hasSlot, ← marked, ← accessed, listed]
            simp [LocalAccess.id]
          simp only [strategy, LoopStrategy.synthetics, List.forall_mem_cons] at slotted
          exact ⟨by simpa using slotted.1, by simpa using slotted.2.1, by simpa using slotted.2.2.1⟩
      | _ =>
          simp [CodeContext.loopPlan?, isStmt] at plans

end Methods

end LoopLowering
