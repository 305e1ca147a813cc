import LoopLowering.Code.Statements
import LoopLowering.Proofs.Code.LoopSteps

namespace LoopLowering

/-!
# The code of a statement is complete

Whatever succeeds in generating the code of a statement leaves the branch
targets before it alone and places its own. A method whose body has code
therefore has every branch target placed.
-/

namespace CodeContext

open CodeStream

variable
  {context : CodeContext}
  {code after : CodeStream}

/-- Branching on the value of a condition is a complete piece of code. -/
theorem appends_branchOnValue
    (context : CodeContext)
    (expr : Expr)
    (branchIf : Bool)
    (label : Label) :
    CodeStep.Appends (context.branchOnValue expr branchIf label) := by
  intro code after branched
  simp only [branchOnValue, bind_eq_ok, pure_eq_ok] at branched
  obtain ⟨pushed, isPushed, rfl⟩ := branched
  exact ((appends_pushExpr context expr true isPushed).convertAssigned _ _ _).emit _

/-- Branching on a condition is a complete piece of code. -/
theorem appends_branchOn
    (context : CodeContext)
    (expr : Expr)
    (branchIf : Bool)
    (label : Label) :
    CodeStep.Appends (context.branchOn expr branchIf label) := by
  intro code after branched
  cases expr with
  | boolLit _ value =>
      simp only [branchOn, Except.ok.injEq] at branched
      subst branched
      split
      · exact (Appends.refl code).emit _
      · exact .refl code
  | binary _ op left right =>
      simp only [branchOn] at branched
      split at branched
      · exact appends_branchOnComparison (appends_pushExpr context left true)
          (appends_pushExpr context right true) branched
      · exact appends_branchOnValue _ _ _ _ branched
  | _ =>
      exact appends_branchOnValue _ _ _ _ branched

/-- The code of a declaration is complete. -/
theorem appends_pushDeclaration
    {decl : LocalDecl} :
    CodeStep.Appends (context.pushDeclaration decl) := by
  intro code after declared
  simp only [pushDeclaration] at declared
  split at declared
  · exact Except.ok.inj declared ▸ .refl code
  · cases declared
  · exact appends_assignSimple (appends_pushExpr context _) declared

/-- The code of a return is complete. -/
theorem appends_pushReturn
    {value : Expr} :
    CodeStep.Appends (context.pushReturn value) := by
  intro code after returned
  simp only [pushReturn, bind_eq_ok, pure_eq_ok] at returned
  obtain ⟨pushed, isPushed, rfl⟩ := returned
  exact ((appends_pushExpr context value true isPushed).convertAssigned _ _ _).emit _

/-- Leaving a block adds no code. -/
theorem sameCode_leaveBlock
    (context : CodeContext)
    (inner outer : ScopeId)
    (code : CodeStream) :
    code.SameCode (context.leaveBlock inner outer code) := by
  simp only [leaveBlock]
  split <;> exact ⟨rfl, rfl⟩

/-- Statements within the limit have code if the first one and the others have. -/
theorem pushStmts_cons_eq_ok
    {stmt : Stmt}
    {rest : List Stmt}
    {limit : Option Nat}
    {targets : List JumpTarget}
    {scope : ScopeId}
    (goesOn : limit ≠ some 0) :
    context.pushStmts (stmt :: rest) limit targets scope code = .ok after ↔
      ∃ done, context.pushStmt stmt targets scope code = .ok done ∧
        context.pushStmts rest (limit.map Nat.pred) targets scope done = .ok after := by
  have unfolded : context.pushStmts (stmt :: rest) limit targets scope code =
      (context.pushStmt stmt targets scope code >>=
        context.pushStmts rest (limit.map Nat.pred) targets scope) := by
    match limit, goesOn with
    | none, _ => rfl
    | some (count + 1), _ => rfl
  rw [unfolded, bind_eq_ok]

mutual

/-- The code of a statement is complete. -/
theorem appends_pushStmt
    (context : CodeContext) :
    ∀ (stmt : Stmt) (targets : List JumpTarget) (scope : ScopeId),
      (context.pushStmt stmt targets scope).Appends
  | .localVar span decl, _, _, code, after, pushed => by
      simp only [pushStmt, bind_eq_ok, pure_eq_ok] at pushed
      obtain ⟨done, isDone, rfl⟩ := pushed
      exact (appends_pushDeclaration isDone).sameCode (markSource_same _ _ _)
  | .expr span value, _, _, code, after, pushed => by
      simp only [pushStmt, bind_eq_ok, pure_eq_ok] at pushed
      obtain ⟨done, isDone, rfl⟩ := pushed
      exact (appends_pushExpr context value false isDone).sameCode (markSource_same _ _ _)
  | .block span stmts facts, targets, scope, code, after, pushed => by
      simp only [pushStmt, bind_eq_ok, pure_eq_ok] at pushed
      obtain ⟨ran, isRan, rfl⟩ := pushed
      exact ((appends_pushStmts context stmts _ _ _ isRan).sameCode
        (sameCode_leaveBlock context _ _ _)).sameCode (markSource_same _ _ _)
  | .branch span condition thenBranch none, targets, scope, code, after, pushed => by
      simp only [pushStmt, bind_eq_ok, pure_eq_ok] at pushed
      obtain ⟨tested, isTested, done, isDone, rfl⟩ := pushed
      have opened := (Appends.refl code).addLabel.trans
        (appends_branchOn context condition false _ isTested)
      exact ((opened.trans (appends_pushStmt context thenBranch targets scope isDone)).placeAmong
        code.nextLabel [] (by simp) (by simp)).sameCode (markSource_same _ _ _)
  | .branch span condition thenBranch (some elseBranch), targets, scope, code, after, pushed => by
      simp only [pushStmt, bind_eq_ok, pure_eq_ok] at pushed
      obtain ⟨tested, isTested, thenDone, isThenDone, done, isDone, rfl⟩ := pushed
      have opened := (Appends.refl code).addLabel.trans
        (appends_branchOn context condition false _ isTested)
      have thenAppends := opened.trans
        (appends_pushStmt context thenBranch targets scope isThenDone)
      have older : code.nextLabel ≠ thenDone.nextLabel := by
        have made := Array.getElem?_eq_some_iff.mp (thenAppends.isOpen code.nextLabel (by simp)).2
        exact Nat.ne_of_lt made.1
      have left : Appends [thenDone.nextLabel, code.nextLabel] code
          (if thenDone.addLabel.isTerminated = true then thenDone.addLabel
            else thenDone.addLabel.emit (.goto thenDone.nextLabel)) := by
        split
        · exact thenAppends.addLabel
        · exact thenAppends.addLabel.emit _
      have remain : ∀ other : Nat, other ∈ [thenDone.nextLabel] ↔
          other ∈ [thenDone.nextLabel, code.nextLabel] ∧ other ≠ code.nextLabel := by
        intro other
        simp only [List.mem_cons, List.not_mem_nil, or_false]
        constructor
        · rintro rfl
          exact ⟨.inl rfl, older.symm⟩
        · rintro ⟨rfl | rfl, different⟩
          · rfl
          · exact absurd rfl different
      have elseAppends := (left.placeAmong code.nextLabel [thenDone.nextLabel] (by simp)
        remain).trans (appends_pushStmt context elseBranch targets scope isDone)
      exact (elseAppends.placeAmong thenDone.nextLabel [] (by simp) (by simp)).sameCode
        (markSource_same _ _ _)
  | .forEach span element collection none facts, _, scope, code, after, pushed => by
      simp only [pushStmt, bind_eq_ok, pure_eq_ok] at pushed
      obtain ⟨done, isDone, rfl⟩ := pushed
      refine (appends_pushLoop ?_ isDone).sameCode (markSource_same _ _ _)
      intro target inner before ran isRan
      exact Except.ok.inj isRan ▸ .refl before
  | .forEach span element collection (some action) facts, targets, scope, code, after, pushed => by
      simp only [pushStmt, bind_eq_ok, pure_eq_ok] at pushed
      obtain ⟨done, isDone, rfl⟩ := pushed
      refine (appends_pushLoop ?_ isDone).sameCode (markSource_same _ _ _)
      exact fun target inner => appends_pushStmt context action (target :: targets) inner
  | .labeled span label body, targets, scope, code, after, pushed => by
      simp only [pushStmt, bind_eq_ok, pure_eq_ok] at pushed
      obtain ⟨done, isDone, rfl⟩ := pushed
      exact (((Appends.refl code).addLabel.trans
        (appends_pushStmt context body _ scope isDone)).placeAmong code.nextLabel [] (by simp)
          (by simp)).sameCode (markSource_same _ _ _)
  | .breakTo span label, _, _, code, after, pushed
  | .continueTo span label, _, _, code, after, pushed => by
      simp only [pushStmt, bind_eq_ok, pure_eq_ok] at pushed
      obtain ⟨target, -, rfl⟩ := pushed
      exact ((Appends.refl code).emit _).sameCode (markSource_same _ _ _)
  | .returnWith span none, _, _, code, after, pushed => by
      simp only [pushStmt, Except.ok.injEq] at pushed
      exact pushed ▸ ((Appends.refl code).emit _).sameCode (markSource_same _ _ _)
  | .returnWith span (some value), _, _, code, after, pushed => by
      simp only [pushStmt, bind_eq_ok, pure_eq_ok] at pushed
      obtain ⟨done, isDone, rfl⟩ := pushed
      exact (appends_pushReturn isDone).sameCode (markSource_same _ _ _)
  | .empty _, _, _, code, after, pushed => by
      simp only [pushStmt, Except.ok.injEq] at pushed
      exact pushed ▸ .refl code

theorem appends_pushStmts
    (context : CodeContext) :
    ∀ (stmts : List Stmt) (limit : Option Nat) (targets : List JumpTarget) (scope : ScopeId),
      (context.pushStmts stmts limit targets scope).Appends
  | [], limit, targets, scope, code, after, pushed => by
      simp only [pushStmts, Except.ok.injEq] at pushed
      exact pushed ▸ .refl code
  | stmt :: rest, limit, targets, scope, code, after, pushed => by
      by_cases stops : limit = some 0
      · subst stops
        simp only [pushStmts, Except.ok.injEq] at pushed
        exact pushed ▸ .refl code
      · obtain ⟨done, isDone, ran⟩ := (pushStmts_cons_eq_ok stops).mp pushed
        exact (appends_pushStmt context stmt targets scope isDone).trans
          (appends_pushStmts context rest _ targets scope ran)

end

end CodeContext

end LoopLowering
