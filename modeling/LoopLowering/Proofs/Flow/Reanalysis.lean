import LoopLowering.Proofs.Flow.Reporting
import LoopLowering.Proofs.Resolution.Rebinding

namespace LoopLowering

/-!
# Analyzing a tree again

Flow analysis leaves alone what no path reaches, and so keeps what an earlier run
recorded there. It does so only where code generation does not look: behind the
first statement of a list that no path reaches, and in the empty action of a loop
that is passed over. Everything else is recorded anew, and nothing that was there
before is read.
-/

section Loops

variable
  (options : CompilerOptions)

/-- Whether a body is passed over does not depend on what was recorded in it. -/
theorem skipsAction_unflowed
    (action : Stmt) :
    skipsAction options action.unflowed = skipsAction options action := by
  cases action with
  | block span stmts facts =>
      cases stmts <;> simp only [Stmt.unflowed, Stmt.allUnflowed, skipsAction, Stmt.isEmptyBlock]
  | branch span condition thenBranch elseBranch =>
      cases elseBranch <;> simp only [Stmt.unflowed, skipsAction, Stmt.isEmptyBlock]
  | forEach span element collection action facts =>
      cases action <;> simp only [Stmt.unflowed, skipsAction, Stmt.isEmptyBlock]
  | labeled span label body => simp only [Stmt.unflowed, skipsAction, Stmt.isEmptyBlock]
  | _ => simp only [Stmt.unflowed]

/-- What stands where does not depend on what was recorded. -/
theorem Stmt.span_unflowed
    (stmt : Stmt) :
    stmt.unflowed.span = stmt.span := by
  cases stmt with
  | branch span condition thenBranch elseBranch => cases elseBranch <;> rfl
  | forEach span element collection action facts => cases action <;> rfl
  | _ => simp only [Stmt.unflowed, Stmt.span]

/-- What is a loop does not depend on what was recorded. -/
theorem Stmt.isLoop_unflowed
    (stmt : Stmt) :
    stmt.unflowed.isLoop = stmt.isLoop := by
  cases stmt with
  | branch span condition thenBranch elseBranch => cases elseBranch <;> rfl
  | forEach span element collection action facts => cases action <;> rfl
  | _ => simp only [Stmt.unflowed, Stmt.isLoop]

/-- A loop is left alike whatever was recorded about it, since everything but its
scope and its classification is recorded anew. -/
theorem leaveLoop_unflowed
    (element : LocalDecl)
    (facts : LoopFacts)
    (reachable : Bool)
    (entry : LoopEntry)
    {finish : FlowPoint}
    {record : LoopRecord}
    {rest : JumpStack}
    (isPushed : finish.jumps = .loop record :: rest)
    {action other : Option Stmt}
    (sameEmpty : Stmt.isEmptyAction action = Stmt.isEmptyAction other)
    (analyzed reached : Bool) :
    leaveLoop options element (facts.unflowed.met reachable) entry
        ⟨other, analyzed, reached, finish⟩ =
      leaveLoop options element (facts.met reachable) entry
        ⟨action, analyzed, reached, finish⟩ := by
  have left := leaveLoop_eq options element (facts.met reachable) entry
    ⟨action, analyzed, reached, finish⟩ isPushed
  have otherLeft := leaveLoop_eq options element (facts.unflowed.met reachable) entry
    ⟨other, analyzed, reached, finish⟩ isPushed
  rw [left, otherLeft]
  simp only [leaveLoopWith, sameEmpty]
  rfl

end Loops

/-- Leaving a loop records facts of flow analysis only. -/
theorem unflowed_leaveLoop
    (options : CompilerOptions)
    (element : LocalDecl)
    (facts : LoopFacts)
    (entry : LoopEntry)
    (body : LoopBody) :
    (leaveLoop options element facts entry body).facts.unflowed = facts.unflowed := by
  simp only [leaveLoop]
  split <;> rfl

/-- A statement is analyzed like the same statement with nothing recorded in it. -/
structure Flowed.Renews
    (kept fresh : Flowed Stmt) :
    Prop where
  node : kept.node.SharesCode fresh.node
  point : fresh.point = kept.point

/-- A list of statements is analyzed like the same list with nothing recorded in it. -/
structure FlowedList.Renews
    (kept fresh : FlowedList) :
    Prop where
  nodes : Stmt.AllShareCode kept.unreachableFrom kept.nodes fresh.nodes
  unreachableFrom : fresh.unreachableFrom = kept.unreachableFrom
  point : fresh.point = kept.point

section Statements

variable
  (options : CompilerOptions)

/-- A loop is analyzed whatever was recorded in it if its action is. -/
theorem renews_forEach
    (span : Span)
    (element : LocalDecl)
    (collection : Expr)
    (action : Stmt)
    {facts : LoopFacts}
    {scope : ScopeId}
    (isScope : facts.scope = some scope)
    (actionRenews : ∀ {point : FlowPoint}, point.flow.reachable = true →
      (analyzeStmt options action point).Renews (analyzeStmt options action.unflowed point))
    {point : FlowPoint}
    (reached : point.flow.reachable = true) :
    (analyzeStmt options (.forEach span element collection (some action) facts) point).Renews
      (analyzeStmt options (.forEach span element collection (some action.unflowed) facts.unflowed)
        point) := by
  have unflowedScope : facts.unflowed.scope = some scope := isScope
  obtain ⟨node, finish⟩ :=
    CodeContext.analyzeStmt_forEach options span element collection action point isScope
  obtain ⟨freshNode, freshFinish⟩ :=
    CodeContext.analyzeStmt_forEach options span element collection action.unflowed point
      unflowedScope
  have enters := enters_enterLoop options scope element collection point
  have bodyReached := enters.bodyReachable.trans reached
  obtain ⟨jumps, -, isEntered⟩ := enters.jumps
  cases skips : skipsAction options action with
  | true =>
      -- An empty block that is passed over keeps its facts on both sides.
      obtain ⟨blockSpan, blockFacts, rfl⟩ := exists_of_skipsAction skips
      have left := leaveLoop_unflowed options element facts point.flow.reachable
        (enterLoop options scope element collection point) isEntered
        (show Stmt.isEmptyAction (some (.block blockSpan [] blockFacts)) =
          Stmt.isEmptyAction (some (Stmt.unflowed (.block blockSpan [] blockFacts))) from rfl)
        false false
      simp only [LoopEntry.analyzeBody, skipsAction_unflowed, skips, if_true, left] at *
      refine ⟨?_, freshFinish.trans finish.symm⟩
      rw [node, freshNode, LoopFacts.eq_of_actionReachable (actionReachable_leaveLoop _ _ _ _ _)]
      exact .idleLoop rfl rfl
  | false =>
      have actionAlike := actionRenews bodyReached
      have narrows := narrows_analyzeStmt options action bodyReached
      rw [isEntered] at narrows
      obtain ⟨record, rest, isPushed, -⟩ := narrows.exists_loop
      have left := leaveLoop_unflowed options element facts point.flow.reachable
        (enterLoop options scope element collection point) isPushed
        actionAlike.node.isEmptyAction_eq true true
      simp only [LoopEntry.analyzeBody, skipsAction_unflowed, skips, bodyReached, if_true,
        Bool.false_eq_true, if_false, actionAlike.point, left] at *
      refine ⟨?_, freshFinish.trans finish.symm⟩
      rw [node, freshNode]
      exact .loop actionAlike.node

mutual

/-- A statement that some path reaches is analyzed whatever was recorded in it. -/
theorem renews_analyzeStmt :
    ∀ (stmt : Stmt) {point : FlowPoint},
      Stmt.Scoped stmt.heads →
      point.flow.reachable = true →
      (analyzeStmt options stmt point).Renews (analyzeStmt options stmt.unflowed point)
  | .localVar .., _, _, _ | .expr .., _, _, _ | .breakTo .., _, _, _ | .continueTo .., _, _, _
  | .returnWith .., _, _, _ | .empty _, _, _, _ => by
      simp only [Stmt.unflowed]
      exact ⟨.refl _, rfl⟩
  | .block span stmts facts, point, haveScopes, _ => by
      simp only [Stmt.heads] at haveScopes
      have inner := @renews_analyzeStmts stmts point haveScopes
      simp only [Stmt.unflowed, analyzeStmt, inner.unreachableFrom, inner.point]
      exact ⟨.block inner.nodes, rfl⟩
  | .branch span condition thenBranch none, point, haveScopes, reached => by
      simp only [Stmt.heads] at haveScopes
      have testedReached := (evaluates_analyzeExpr options condition point).reachable.trans reached
      have thenAlike := renews_analyzeStmt thenBranch haveScopes testedReached
      simp only [Stmt.unflowed, analyzeStmt, thenAlike.point]
      exact ⟨.onlyBranch thenAlike.node, rfl⟩
  | .branch span condition thenBranch (some elseBranch), point, haveScopes, reached => by
      simp only [Stmt.heads, Stmt.Scoped, List.forall_mem_append] at haveScopes
      have testedReached := (evaluates_analyzeExpr options condition point).reachable.trans reached
      have thenAlike := renews_analyzeStmt thenBranch haveScopes.1 testedReached
      have elseAlike := @renews_analyzeStmt elseBranch
        { (analyzeStmt options thenBranch (analyzeExpr options condition point)).point with
          flow := (analyzeExpr options condition point).flow } haveScopes.2 testedReached
      simp only [Stmt.unflowed, analyzeStmt, thenAlike.point, elseAlike.point]
      exact ⟨.branch thenAlike.node elseAlike.node, rfl⟩
  | .forEach span element collection none facts, point, haveScopes, reached => by
      simp only [Stmt.heads, Stmt.Scoped, List.forall_mem_singleton] at haveScopes
      obtain ⟨scope, isScope⟩ := haveScopes
      have unflowedScope : facts.unflowed.scope = some scope := isScope
      obtain ⟨jumps, -, isEntered⟩ :=
        (enters_enterLoop options scope element collection point).jumps
      have left := leaveLoop_unflowed options element facts point.flow.reachable
        (enterLoop options scope element collection point) isEntered
        (rfl : Stmt.isEmptyAction none = Stmt.isEmptyAction none) false false
      simp only [Stmt.unflowed, analyzeStmt, isScope, unflowedScope, left]
      exact ⟨.refl _, rfl⟩
  | .forEach span element collection (some action) facts, _, haveScopes, reached => by
      simp only [Stmt.heads, Stmt.Scoped, List.forall_mem_cons] at haveScopes
      obtain ⟨⟨scope, isScope⟩, actionScoped⟩ := haveScopes
      simp only [Stmt.unflowed]
      exact renews_forEach options span element collection action isScope
        (fun bodyReached => renews_analyzeStmt action actionScoped bodyReached) reached
  | .labeled span label body, point, haveScopes, reached => by
      simp only [Stmt.heads] at haveScopes
      have bodyAlike := @renews_analyzeStmt body
        { point with jumps := point.jumps.pushLabel label.node body.isLoop } haveScopes reached
      simp only [Stmt.unflowed, analyzeStmt, Stmt.isLoop_unflowed, bodyAlike.point]
      exact ⟨.labeled bodyAlike.node, rfl⟩

theorem renews_analyzeStmts :
    ∀ (stmts : List Stmt) {point : FlowPoint},
      Stmt.Scoped (Stmt.allHeads stmts) →
      (analyzeStmts options stmts point).Renews
        (analyzeStmts options (Stmt.allUnflowed stmts) point)
  | [], _, _ => by
      simp only [Stmt.allUnflowed, analyzeStmts]
      exact ⟨.nil, rfl, rfl⟩
  | stmt :: rest, point, haveScopes => by
      simp only [Stmt.allHeads, Stmt.Scoped, List.forall_mem_append] at haveScopes
      simp only [Stmt.allUnflowed, analyzeStmts]
      split
      · next reached =>
          have head := renews_analyzeStmt stmt haveScopes.1 reached
          have tail := @renews_analyzeStmts rest (analyzeStmt options stmt point).point haveScopes.2
          simp only [head.point]
          refine ⟨.cons head.node ?_, by rw [tail.unreachableFrom], tail.point⟩
          simpa [Option.map_map, Function.comp_def] using tail.nodes
      · exact ⟨.cut rfl, rfl, by rw [Stmt.span_unflowed]⟩

end

/-- The method after flow analysis is the same in all that code generation reads,
whatever was recorded in it. -/
theorem renews_analyzeMethod
    {method : Method}
    (haveScopes : Stmt.Scoped (Stmt.allHeads method.body.stmts))
    (state : MethodState) :
    (analyzeMethod options method.unflowed state).state =
        (analyzeMethod options method state).state ∧
      (analyzeMethod options method.unflowed state).node =
        { (analyzeMethod options method state).node with
          body := { (analyzeMethod options method state).node.body with
            stmts := (analyzeMethod options method.unflowed state).node.body.stmts } } ∧
      Stmt.AllShareCode (analyzeMethod options method state).node.body.facts.unreachableFrom
        (analyzeMethod options method state).node.body.stmts
        (analyzeMethod options method.unflowed state).node.body.stmts := by
  have body :=
    @renews_analyzeStmts options method.body.stmts (.atBody method.params state) haveScopes
  simp only [analyzeMethod, Method.unflowed, body.unreachableFrom, body.point, true_and]
  exact ⟨rfl, body.nodes⟩

mutual

/-- Flow analysis changes nothing but what is recorded in a statement. -/
theorem cleared_analyzeStmt :
    ∀ (stmt : Stmt) (point : FlowPoint),
      (analyzeStmt options stmt point).node.cleared = stmt.cleared
  | .localVar .., _ | .expr .., _ | .breakTo .., _ | .continueTo .., _ | .returnWith _ none, _
  | .returnWith _ (some _), _ | .empty _, _ => by
      simp only [analyzeStmt]
  | .block span stmts facts, point => by
      simp only [analyzeStmt, Stmt.cleared, cleared_analyzeStmts stmts]
  | .branch span condition thenBranch none, point => by
      simp only [analyzeStmt, Stmt.cleared, cleared_analyzeStmt thenBranch]
  | .branch span condition thenBranch (some elseBranch), point => by
      simp only [analyzeStmt, Stmt.cleared, cleared_analyzeStmt thenBranch,
        cleared_analyzeStmt elseBranch]
  | .forEach span element collection none facts, point => by
      simp only [analyzeStmt]
      split <;> simp only [Stmt.cleared]
  | .forEach span element collection (some action) facts, point => by
      simp only [analyzeStmt]
      split
      · simp only [Stmt.cleared]
      · split
        · simp only [Stmt.cleared]
        · split
          · simp only [Stmt.cleared, cleared_analyzeStmt action]
          · simp only [Stmt.cleared]
  | .labeled span label body, point => by
      simp only [analyzeStmt, Stmt.cleared, cleared_analyzeStmt body]

theorem cleared_analyzeStmts :
    ∀ (stmts : List Stmt) (point : FlowPoint),
      Stmt.allCleared (analyzeStmts options stmts point).nodes = Stmt.allCleared stmts
  | [], _ => by
      simp only [analyzeStmts]
  | stmt :: rest, point => by
      simp only [analyzeStmts]
      split
      · simp only [Stmt.allCleared, cleared_analyzeStmt stmt, cleared_analyzeStmts rest]
      · rfl

end

/-- Flow analysis changes nothing but what is recorded in a method. -/
theorem cleared_analyzeMethod
    (method : Method)
    (state : MethodState) :
    (analyzeMethod options method state).node.cleared = method.cleared := by
  simp only [analyzeMethod, Method.cleared, cleared_analyzeStmts]

mutual

/-- Flow analysis records anew what it records in a statement, and nothing else. -/
theorem unflowed_analyzeStmt :
    ∀ (stmt : Stmt) (point : FlowPoint),
      (analyzeStmt options stmt point).node.unflowed = stmt.unflowed
  | .localVar .., _ | .expr .., _ | .breakTo .., _ | .continueTo .., _ | .returnWith _ none, _
  | .returnWith _ (some _), _ | .empty _, _ => by
      simp only [analyzeStmt]
  | .block span stmts facts, point => by
      simp only [analyzeStmt, Stmt.unflowed, unflowed_analyzeStmts stmts]
      rfl
  | .branch span condition thenBranch none, point => by
      simp only [analyzeStmt, Stmt.unflowed, unflowed_analyzeStmt thenBranch]
  | .branch span condition thenBranch (some elseBranch), point => by
      simp only [analyzeStmt, Stmt.unflowed, unflowed_analyzeStmt thenBranch,
        unflowed_analyzeStmt elseBranch]
  | .forEach span element collection none facts, point => by
      simp only [analyzeStmt]
      split
      · rfl
      · simp only [Stmt.unflowed, unflowed_leaveLoop]
        rfl
  | .forEach span element collection (some action) facts, point => by
      simp only [analyzeStmt]
      split
      · simp only [Stmt.unflowed]
        rfl
      · split
        · simp only [Stmt.unflowed, unflowed_leaveLoop]
          rfl
        · split
          · simp only [Stmt.unflowed, unflowed_leaveLoop, unflowed_analyzeStmt action]
            rfl
          · simp only [Stmt.unflowed, unflowed_leaveLoop]
            rfl
  | .labeled span label body, point => by
      simp only [analyzeStmt, Stmt.unflowed, unflowed_analyzeStmt body]

theorem unflowed_analyzeStmts :
    ∀ (stmts : List Stmt) (point : FlowPoint),
      Stmt.allUnflowed (analyzeStmts options stmts point).nodes = Stmt.allUnflowed stmts
  | [], _ => by
      simp only [analyzeStmts]
  | stmt :: rest, point => by
      simp only [analyzeStmts]
      split
      · simp only [Stmt.allUnflowed, unflowed_analyzeStmt stmt, unflowed_analyzeStmts rest]
      · rfl

end

mutual

/-- The loops of a statement do not depend on what flow analysis records. -/
theorem Stmt.heads_unflowed :
    ∀ stmt : Stmt,
      stmt.unflowed.heads = stmt.heads.map fun head => (head.1, head.2.unflowed)
  | .localVar .. | .expr .. | .breakTo .. | .continueTo .. | .returnWith .. | .empty _ => by
      simp only [Stmt.unflowed, Stmt.heads, List.map_nil]
  | .block _ stmts _ => by
      simp only [Stmt.unflowed, Stmt.heads, allHeads_unflowed stmts]
  | .branch _ _ thenBranch none => by
      simp only [Stmt.unflowed, Stmt.heads, heads_unflowed thenBranch]
  | .branch _ _ thenBranch (some elseBranch) => by
      simp only [Stmt.unflowed, Stmt.heads, heads_unflowed thenBranch,
        heads_unflowed elseBranch, List.map_append]
  | .forEach _ element _ none facts => by
      simp only [Stmt.unflowed, Stmt.heads, List.map_cons, List.map_nil]
  | .forEach _ element _ (some action) facts => by
      simp only [Stmt.unflowed, Stmt.heads, heads_unflowed action, List.map_cons]
  | .labeled _ _ body => by
      simp only [Stmt.unflowed, Stmt.heads, heads_unflowed body]

theorem Stmt.allHeads_unflowed :
    ∀ stmts : List Stmt,
      Stmt.allHeads (Stmt.allUnflowed stmts) =
        (Stmt.allHeads stmts).map fun head => (head.1, head.2.unflowed)
  | [] => by
      simp only [Stmt.allUnflowed, Stmt.allHeads, List.map_nil]
  | stmt :: rest => by
      simp only [Stmt.allUnflowed, Stmt.allHeads, heads_unflowed stmt, allHeads_unflowed rest,
        List.map_append]

end

/-- Flow analysis keeps the block scopes of loops. -/
theorem scoped_analyzeStmt
    {stmt : Stmt}
    (haveScopes : Stmt.Scoped stmt.heads)
    (point : FlowPoint) :
    Stmt.Scoped (analyzeStmt options stmt point).node.heads := by
  have same := congrArg Stmt.heads (unflowed_analyzeStmt options stmt point)
  rw [Stmt.heads_unflowed, Stmt.heads_unflowed] at same
  intro head member
  have recorded : (head.1, head.2.unflowed) ∈
      (analyzeStmt options stmt point).node.heads.map fun head => (head.1, head.2.unflowed) :=
    List.mem_map.mpr ⟨head, member, rfl⟩
  rw [same] at recorded
  obtain ⟨before, isHead, sameHead⟩ := List.mem_map.mp recorded
  have sameFacts : before.2.unflowed = head.2.unflowed := congrArg Prod.snd sameHead
  obtain ⟨scope, isScope⟩ := haveScopes before isHead
  exact ⟨scope, (congrArg LoopFacts.scope sameFacts).symm.trans isScope⟩

/-- A statement that has been analyzed is analyzed again as if it had not been. -/
theorem point_analyzeStmt_again
    {stmt : Stmt}
    (haveScopes : Stmt.Scoped stmt.heads)
    (earlier : FlowPoint)
    {point : FlowPoint}
    (reached : point.flow.reachable = true) :
    (analyzeStmt options (analyzeStmt options stmt earlier).node point).point =
      (analyzeStmt options stmt point).point := by
  have fresh := renews_analyzeStmt options stmt haveScopes reached
  have again := renews_analyzeStmt options (analyzeStmt options stmt earlier).node
    (scoped_analyzeStmt options haveScopes earlier) reached
  rw [unflowed_analyzeStmt] at again
  exact again.point.symm.trans fresh.point

end Statements

end LoopLowering
