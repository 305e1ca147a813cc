import LoopLowering.Proofs.Flow.Resolved
import LoopLowering.Proofs.Flow.Methods

namespace LoopLowering

/-!
# Marks of loops

A loop that is left marks the locals it introduces and needs. Nothing else marks
them, so that those it does not need stay unused.
-/

/-- Whether the code of a loop needs a local that the loop introduces. A loop over an
array needs none if it does nothing with its elements, and no more than the array if it
never comes back. -/
def LoopStrategy.needs
    (touched continues : Bool)
    (id : LocalId) :
    LoopStrategy → Bool
  | .array index bound source =>
      touched && (id == source || continues && (id == index || id == bound))
  | .rawIterable iterator _ | .genericIterable iterator _ => id == iterator

namespace MethodScope

/-- Marking a local as used marks no other. -/
theorem isUsed_markUsed_eq
    {id : Nat}
    {scope : MethodScope}
    (known : id < scope.locals.size)
    (used : Nat) :
    ((scope.markUsed used).localAt id).isUsed = (id == used || (scope.localAt id).isUsed) := by
  by_cases same : used = id
  · subst same
    simp [isUsed_markUsed known]
  · simp [localAt, markUsed, modifyLocal, Array.getElem?_modify, same, Ne.symm same]

/-- When a loop is left, what it needs is marked and nothing else. -/
theorem isUsed_markSynthetics
    (options : CompilerOptions)
    (resolution : LoopResolution)
    (emptyAction : Bool)
    (element : LocalId)
    (continues : Bool)
    {id : Nat}
    {scope : MethodScope}
    (known : id < scope.locals.size) :
    ((markSynthetics options (.resolved resolution) emptyAction (some element) continues
        scope).localAt id).isUsed =
      (resolution.strategy.needs
          (!emptyAction || scope.isMaterialized options.keepUnusedLocals element) continues id ||
        (scope.localAt id).isUsed) := by
  have sameCount : ∀ (used : Nat) (scope : MethodScope),
      (scope.markUsed used).locals.size = scope.locals.size := by
    simp [markUsed, modifyLocal]
  cases strategy : resolution.strategy with
  | array index bound source =>
      simp only [markSynthetics, LoopClassification.strategy?, LoopClassification.resolution?,
        Option.map_some, strategy]
      generalize (!emptyAction || _) = touched
      cases touched with
      | false =>
          rfl
      | true =>
          cases continues with
          | false =>
              simp [isUsed_markUsed_eq known, LoopStrategy.needs]
          | true =>
              have stored : id < (scope.markUsed source).locals.size := by
                rwa [sameCount]
              have indexed : id < ((scope.markUsed source).markUsed index).locals.size := by
                rwa [sameCount]
              simp only [if_true, isUsed_markUsed_eq indexed, isUsed_markUsed_eq stored,
                isUsed_markUsed_eq known, LoopStrategy.needs, Bool.true_and]
              ac_rfl
  | rawIterable iterator receiver | genericIterable iterator receiver =>
      simp only [markSynthetics, LoopClassification.strategy?, LoopClassification.resolution?,
        Option.map_some, strategy, LoopStrategy.needs]
      exact isUsed_markUsed_eq known iterator

end MethodScope

namespace CodeContext

variable
  {strict : Bool}
  {context : CodeContext}
  {options : CompilerOptions}

/-- The locals that exist in the code are those with reason to. -/
def Allots
    (context : CodeContext)
    (options : CompilerOptions) :
    Prop :=
  ∀ id < context.scope.locals.size,
    context.hasSlot id = (context.localAt id).isMaterialized options.keepUnusedLocals

/-- While flow is analyzed, a local of the source has reason to exist if it exists in
the code. -/
theorem Agrees.isMaterialized_eq
    (allots : context.Allots options)
    {state : MethodState}
    (agrees : context.Agrees state)
    (leads : state.Leads context.state)
    {home id : Nat}
    (declares : context.Declares home id) :
    state.scope.isMaterialized options.keepUnusedLocals id = context.hasSlot id := by
  have persists := leads.scope.persists id (by rw [agrees.count]; exact declares.known)
  have sameUse := agrees.isUsed id declares.isSource
  have sameParam : (context.localAt id).isParam = (state.localAt id).isParam := persists.isParam
  have sameOrigin : (context.localAt id).isSynthetic = (state.localAt id).isSynthetic :=
    persists.isSynthetic
  rw [allots id declares.known]
  change (state.localAt id).isMaterialized options.keepUnusedLocals = _
  simp only [LocalVariable.isMaterialized, sameUse, sameParam, sameOrigin]

/-- Whether the code of a loop does anything with an element: it has an action, or its
element exists in the code. -/
def touchesElements
    (context : CodeContext)
    (element : LocalDecl)
    (action : Option Stmt) :
    Bool :=
  !Stmt.isEmptyAction action || element.binding.any context.hasSlot

/-- The locals that loops introduce, numbered in a range, are not used. -/
def Untouched
    (context : CodeContext)
    (first last : Nat)
    (scope : MethodScope) :
    Prop :=
  ∀ id, context.IntroducedWithin first last id → (scope.localAt id).isUsed = false

/-- What a loop introduces and does not need is in a range and not used. -/
def SparesLocals
    (context : CodeContext)
    (first last : Nat)
    (scope : MethodScope) :
    Stmt → Prop
  | .forEach _ element _ action facts =>
      ∀ resolution : LoopResolution,
        facts.classification = .resolved resolution →
        ∀ id ∈ resolution.strategy.synthetics,
          resolution.strategy.needs (context.touchesElements element action) facts.continues id =
              false →
            context.IntroducedWithin first last id ∧ (scope.localAt id).isUsed = false
  | _ => True

/-- The loops among statements spare the locals they do not need. -/
def AllSpare
    (context : CodeContext)
    (first last : Nat)
    (scope : MethodScope)
    (parts : List Stmt) :
    Prop :=
  ∀ part ∈ parts, context.SparesLocals first last scope part

/-- Locals in a part of a range are untouched if those in the range are, and
what happens outside the part keeps them so. -/
theorem Untouched.part
    {first last touchedFirst touchedLast partFirst partLast : Nat}
    {before after : MethodScope}
    (untouched : context.Untouched first last before)
    (touches : MethodScope.TouchesOnly (context.IntroducedWithin touchedFirst touchedLast)
      before after)
    (firstLe : first ≤ partFirst)
    (lastLe : partLast ≤ last)
    (apart : touchedLast ≤ partFirst ∨ partLast ≤ touchedFirst) :
    context.Untouched partFirst partLast after := by
  intro id within
  rw [touches id fun touched => by
    obtain ⟨atLeast, below, -⟩ := within
    obtain ⟨touchedAtLeast, touchedBelow, -⟩ := touched
    omega]
  exact untouched id (IntroducedWithin.weaken firstLe lastLe id within)

/-- What happens outside a range keeps what is spared in the range. -/
theorem AllSpare.later
    {first last touchedFirst touchedLast firstOfMore lastOfMore : Nat}
    {before after : MethodScope}
    {parts : List Stmt}
    (spare : context.AllSpare first last before parts)
    (touches : MethodScope.TouchesOnly (context.IntroducedWithin touchedFirst touchedLast)
      before after)
    (firstLe : firstOfMore ≤ first)
    (lastLe : last ≤ lastOfMore)
    (apart : touchedLast ≤ first ∨ last ≤ touchedFirst) :
    context.AllSpare firstOfMore lastOfMore after parts := by
  intro part member
  have spares := spare part member
  cases part with
  | forEach span element collection action facts =>
      intro resolution classified id introduced unneeded
      obtain ⟨within, unused⟩ := spares resolution classified id introduced unneeded
      refine ⟨IntroducedWithin.weaken firstLe lastLe id within, ?_⟩
      rw [touches id fun touched => by
        obtain ⟨atLeast, below, -⟩ := within
        obtain ⟨touchedAtLeast, touchedBelow, -⟩ := touched
        omega]
      exact unused
  | _ => trivial

theorem AllSpare.append
    {first last : Nat}
    {scope : MethodScope}
    {parts others : List Stmt}
    (spare : context.AllSpare first last scope parts)
    (othersSpare : context.AllSpare first last scope others) :
    context.AllSpare first last scope (parts ++ others) := by
  intro part member
  rcases List.mem_append.mp member with isPart | isOther
  · exact spare part isPart
  · exact othersSpare part isOther

theorem AllSpare.cons
    {first last : Nat}
    {scope : MethodScope}
    {stmt : Stmt}
    {parts : List Stmt}
    (spares : context.SparesLocals first last scope stmt)
    (spare : context.AllSpare first last scope parts) :
    context.AllSpare first last scope (stmt :: parts) :=
  List.forall_mem_cons.mpr ⟨spares, spare⟩

/-- A loop that is left spares the locals it does not need. -/
theorem sparesLocals_leaveLoop
    (span : Span)
    (allots : context.Allots options)
    {element : LocalDecl}
    {collection : Expr}
    {facts : LoopFacts}
    {outer first inner : Nat}
    {resolution : LoopResolution}
    (head : context.LoopHead strict element collection facts outer first inner resolution)
    (reachable : Bool)
    (entry : LoopEntry)
    (body : LoopBody)
    (agrees : context.Agrees body.finish.state)
    (settles : context.Settles
      (leaveLoop options element (facts.met reachable) entry body).point.state)
    (untouched : context.Untouched first (first + 1 + Stmt.introducedCount facts)
      body.finish.state.scope) :
    context.SparesLocals first (first + 1 + Stmt.introducedCount facts)
      (leaveLoop options element (facts.met reachable) entry body).point.state.scope
      (.forEach span element collection body.action
        (leaveLoop options element (facts.met reachable) entry body).facts) := by
  obtain ⟨ty, -, iterates⟩ := head.iterated
  obtain ⟨-, keepsClassification⟩ :=
    facts_leaveLoop options element (facts.met reachable) entry body
  have sameClassification : (facts.met reachable).classification = facts.classification := rfl
  have leads := (settles.earlier
    (marks_leaveLoop options element (facts.met reachable) entry body).toLeads).leads
  intro found classified id introduced unneeded
  rw [keepsClassification, sameClassification, head.classification] at classified
  obtain rfl := LoopClassification.resolved.inj classified
  have within : context.IntroducedWithin first (first + 1 + Stmt.introducedCount facts) id := by
    rw [head.introducedCount]
    exact IntroducedWithin.weaken (Nat.le_succ first) (Nat.le_refl _) id
      (iterates.introduced id introduced)
  have elementExists := agrees.isMaterialized_eq allots leads head.declares
  refine ⟨within, ?_⟩
  simp only [leaveLoop] at unneeded ⊢
  split at unneeded
  · next record popped =>
      have marked := scope_leaveLoopWith options element (facts.met reachable) entry body record
        { body.finish with jumps := body.finish.jumps.popLoop.2 }
      have known : id < body.finish.state.scope.locals.size := by
        rw [agrees.count]
        exact iterates.known id introduced
      rw [sameClassification, head.classification, head.binding] at marked
      simp only [touchesElements, head.binding, Option.any_some, facts_leaveLoopWith] at unneeded
      rw [marked, MethodScope.isUsed_markSynthetics options resolution _ _ _ known, elementExists,
        untouched id within]
      simpa using unneeded
  · exact untouched id within

mutual

/-- Flow through a resolved statement marks no local that its loops do not need. -/
theorem allSpare_analyzeStmt
    (allots : context.Allots options) :
    ∀ {stmt : Stmt} {block first : Nat},
      context.Resolved strict stmt block first →
      ∀ point : FlowPoint,
        context.Untouched first (first + stmt.localCount) point.state.scope →
        context.Agrees point.state →
        context.Settles (analyzeStmt options stmt point).point.state →
        context.AllSpare first (first + stmt.localCount)
          (analyzeStmt options stmt point).point.state.scope
          (analyzeStmt options stmt point).node.parts
  | .localVar .., block, first, _, point, _, _, _ | .expr .., block, first, _, point, _, _, _
  | .breakTo .., block, first, _, point, _, _, _
  | .continueTo .., block, first, _, point, _, _, _
  | .returnWith _ none, block, first, _, point, _, _, _
  | .returnWith _ (some _), block, first, _, point, _, _, _
  | .empty _, block, first, _, point, _, _, _ => by
      simp [analyzeStmt, Stmt.parts, AllSpare, SparesLocals]
  | .block span stmts facts, block, first, resolved, point, untouched, agrees, settles => by
      rw [Resolved] at resolved
      obtain ⟨inner, -, -, resolvedBody⟩ := resolved
      simp only [Stmt.localCount] at untouched ⊢
      simp only [analyzeStmt, Stmt.parts] at settles ⊢
      exact .cons trivial (allSpare_analyzeStmts allots resolvedBody point untouched agrees settles)
  | .branch span condition thenBranch none, block, first, resolved, point, untouched, agrees,
      settles => by
      rw [Resolved] at resolved
      have tested := (evaluates_analyzeExpr options condition point).scope
      simp only [Stmt.localCount] at untouched ⊢
      simp only [analyzeStmt, Stmt.parts] at settles ⊢
      exact .cons trivial (allSpare_analyzeStmt allots resolved.2 _ (by rw [tested]; exact untouched)
        (agrees.sameScope tested) settles)
  | .branch span condition thenBranch (some elseBranch), block, first, resolved, point, untouched,
      agrees, settles => by
      rw [Resolved] at resolved
      have tested := (evaluates_analyzeExpr options condition point).scope
      have testedAgrees := agrees.sameScope tested
      simp only [Stmt.localCount] at untouched ⊢
      simp only [analyzeStmt, Stmt.parts] at settles ⊢
      rw [← tested] at untouched
      have settlesElse : context.Settles (analyzeStmt options elseBranch
          { (analyzeStmt options thenBranch (analyzeExpr options condition point)).point with
            flow := (analyzeExpr options condition point).flow }).point.state := settles
      have thenMarks := marks_analyzeStmt options thenBranch (analyzeExpr options condition point)
      have elseMarks := marks_analyzeStmt options elseBranch
        { (analyzeStmt options thenBranch (analyzeExpr options condition point)).point with
          flow := (analyzeExpr options condition point).flow }
      have thenTouches := @touchesOnly_analyzeStmt _ _ options _ _ _ resolved.2.1
        (analyzeExpr options condition point)
      have elseTouches := @touchesOnly_analyzeStmt _ _ options _ _ _ resolved.2.2
        { (analyzeStmt options thenBranch (analyzeExpr options condition point)).point with
          flow := (analyzeExpr options condition point).flow }
      have thenSpare := allSpare_analyzeStmt allots resolved.2.1
        (analyzeExpr options condition point)
        (untouched.part (.refl (context.IntroducedWithin 0 0) _) (Nat.le_refl first) (by omega)
          (.inl (Nat.zero_le _))) testedAgrees (settlesElse.earlier elseMarks.toLeads)
      have elseSpare := allSpare_analyzeStmt allots resolved.2.2
        { (analyzeStmt options thenBranch (analyzeExpr options condition point)).point with
          flow := (analyzeExpr options condition point).flow }
        (untouched.part thenTouches (Nat.le_add_right _ _) (by omega) (.inl (Nat.le_refl _)))
        (testedAgrees.later thenMarks thenTouches) settlesElse
      have elseWithin := elseSpare.later (.refl (context.IntroducedWithin 0 0) _)
        (Nat.le_add_right first _) (Nat.le_of_eq (Nat.add_assoc _ _ _)) (.inl (Nat.zero_le _))
      exact .cons trivial ((thenSpare.later elseTouches (Nat.le_refl _) (by omega)
        (.inr (Nat.le_refl _))).append elseWithin)
  | .forEach span element collection none facts, block, first, resolved, point, untouched, agrees,
      settles => by
      rw [Resolved] at resolved
      obtain ⟨inner, resolution, head⟩ := resolved
      have entered := (enters_enterLoop options inner element collection point).scope
      simp only [Stmt.localCount, ← Nat.add_assoc] at untouched ⊢
      simp only [analyzeStmt, head.scope, Stmt.parts] at settles ⊢
      exact .cons (sparesLocals_leaveLoop span allots head _ _ ⟨none, false, false, _⟩
        (agrees.sameScope entered) settles (by rw [entered]; exact untouched)) (by simp [AllSpare])
  | .forEach span element collection (some action) facts, block, first, resolved, point, untouched,
      agrees, settles => by
      rw [Resolved] at resolved
      obtain ⟨inner, resolution, head, resolvedAction⟩ := resolved
      have entered := (enters_enterLoop options inner element collection point).scope
      have bodyAgrees : context.Agrees
          (LoopLowering.enterLoop options inner element collection point).body.state :=
        agrees.sameScope entered
      simp only [Stmt.localCount, ← Nat.add_assoc] at untouched ⊢
      rw [← entered] at untouched
      rw [← head.introducedCount] at resolvedAction
      have leaves := analyzeStmt_forEach options span element collection action point head.scope
      rw [leaves.2] at settles ⊢
      have bodySettles := settles.earlier (marks_leaveLoop options element
        (facts.met point.flow.reachable)
        (LoopLowering.enterLoop options inner element collection point)
        ((LoopLowering.enterLoop options inner element collection point).analyzeBody options
          action)).toLeads
      obtain ⟨analyzed, isAction, finishAgrees, touches, spare⟩ :
          ∃ analyzed, ((LoopLowering.enterLoop options inner element collection
            point).analyzeBody options action).action = some analyzed ∧
          context.Agrees ((LoopLowering.enterLoop options inner element collection
            point).analyzeBody options action).finish.state ∧
          MethodScope.TouchesOnly
            (context.IntroducedWithin (first + 1 + Stmt.introducedCount facts)
              (first + 1 + Stmt.introducedCount facts + action.localCount))
            (LoopLowering.enterLoop options inner element collection point).body.state.scope
            ((LoopLowering.enterLoop options inner element collection point).analyzeBody options
              action).finish.state.scope ∧
          context.AllSpare (first + 1 + Stmt.introducedCount facts)
            (first + 1 + Stmt.introducedCount facts + action.localCount)
            ((LoopLowering.enterLoop options inner element collection point).analyzeBody options
              action).finish.state.scope analyzed.parts := by
        simp only [LoopEntry.analyzeBody] at bodySettles ⊢
        split
        · next skips =>
            refine ⟨action, rfl, bodyAgrees, .refl _ _, ?_⟩
            simp only [skipsAction, Bool.and_eq_true] at skips
            cases action with
            | block span stmts facts =>
                cases stmts with
                | nil =>
                    simp [Stmt.parts, Stmt.allParts, AllSpare, SparesLocals]
                | cons stmt rest =>
                    cases skips.1
            | _ => cases skips.1
        · next enters =>
            rw [if_neg enters] at bodySettles
            split
            · next reached =>
                rw [if_pos reached] at bodySettles
                have actionTouches := @touchesOnly_analyzeStmt _ _ options _ _ _ resolvedAction
                  (LoopLowering.enterLoop options inner element collection point).body
                exact ⟨_, rfl, bodyAgrees.later (marks_analyzeStmt options action _) actionTouches,
                  actionTouches, allSpare_analyzeStmt allots resolvedAction _
                    (untouched.part (.refl (context.IntroducedWithin 0 0) _) (by omega)
                      (Nat.le_refl _) (.inl (Nat.zero_le _))) bodyAgrees bodySettles⟩
            · next unreached =>
                rw [if_neg unreached] at bodySettles
                exact (not_clean_unreachable bodySettles.isClean).elim
      have left := touchesOnly_leaveLoop options head
        (show (facts.met point.flow.reachable).classification = facts.classification from rfl)
        (LoopLowering.enterLoop options inner element collection point)
        ((LoopLowering.enterLoop options inner element collection point).analyzeBody options action)
      have headSpares := sparesLocals_leaveLoop span allots head point.flow.reachable
        (LoopLowering.enterLoop options inner element collection point)
        ((LoopLowering.enterLoop options inner element collection point).analyzeBody options action)
        finishAgrees settles
        (untouched.part touches (Nat.le_refl first) (by omega) (.inr (Nat.le_refl _)))
      rw [isAction] at headSpares
      have headSpare := AllSpare.later
        (AllSpare.cons headSpares (show context.AllSpare _ _ _ [] by simp [AllSpare]))
        (.refl (context.IntroducedWithin 0 0) _) (Nat.le_refl first)
        (Nat.le_add_right _ action.localCount) (.inl (Nat.zero_le _))
      rw [leaves.1, isAction, Stmt.parts]
      exact headSpare.append (spare.later left (by omega) (Nat.le_refl _) (.inl (Nat.le_refl _)))
  | .labeled span label body, block, first, resolved, point, untouched, agrees, settles => by
      rw [Resolved] at resolved
      simp only [Stmt.localCount] at untouched ⊢
      simp only [analyzeStmt, Stmt.parts] at settles ⊢
      refine .cons trivial ?_
      split at settles
      · exact allSpare_analyzeStmt allots resolved _ untouched agrees settles
      · exact allSpare_analyzeStmt allots resolved _ untouched agrees settles

theorem allSpare_analyzeStmts
    (allots : context.Allots options) :
    ∀ {stmts : List Stmt} {block first : Nat},
      context.AllResolved strict stmts block first →
      ∀ point : FlowPoint,
        context.Untouched first (first + Stmt.localCounts stmts) point.state.scope →
        context.Agrees point.state →
        context.Settles (analyzeStmts options stmts point).point.state →
        context.AllSpare first (first + Stmt.localCounts stmts)
          (analyzeStmts options stmts point).point.state.scope
          (Stmt.allParts (analyzeStmts options stmts point).nodes)
  | [], block, first, _, point, _, _, _ => by
      simp [analyzeStmts, Stmt.allParts, AllSpare]
  | stmt :: rest, block, first, resolved, point, untouched, agrees, settles => by
      rw [AllResolved] at resolved
      simp only [Stmt.localCounts] at untouched ⊢
      simp only [analyzeStmts] at settles ⊢
      split at settles
      · next reached =>
          simp only [reached, if_true, Stmt.allParts]
          have headMarks := marks_analyzeStmt options stmt point
          have restMarks := marks_analyzeStmts options rest (analyzeStmt options stmt point).point
          have headTouches := @touchesOnly_analyzeStmt _ _ options _ _ _ resolved.1 point
          have restTouches := @touchesOnly_analyzeStmts _ _ options _ _ _ resolved.2
            (analyzeStmt options stmt point).point
          have headSpare := allSpare_analyzeStmt allots resolved.1 point
            (untouched.part (.refl (context.IntroducedWithin 0 0) _) (Nat.le_refl first) (by omega)
              (.inl (Nat.zero_le _))) agrees (settles.earlier restMarks.toLeads)
          have restSpare := allSpare_analyzeStmts allots resolved.2
            (analyzeStmt options stmt point).point
            (untouched.part headTouches (Nat.le_add_right _ _) (by omega) (.inl (Nat.le_refl _)))
            (agrees.later headMarks headTouches) settles
          have restWithin := restSpare.later (.refl (context.IntroducedWithin 0 0) _)
            (Nat.le_add_right first _) (Nat.le_of_eq (Nat.add_assoc _ _ _)) (.inl (Nat.zero_le _))
          exact (headSpare.later restTouches (Nat.le_refl _) (by omega)
            (.inr (Nat.le_refl _))).append restWithin
      · exact (not_clean_unreachable settles.isClean).elim

end

end CodeContext

end LoopLowering
