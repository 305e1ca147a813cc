import LoopLowering.Proofs.Flow.Arrivals
import LoopLowering.Proofs.Resolution.LoopElements

namespace LoopLowering

/-!
# Reports of unreachable code

Flow analysis only ever adds to the diagnostics of a method. Between two points it
has reported unreachable code once for each list of statements that it has cut
off, and checks at a single point cut nothing off, reach the point that was
reached, and let nothing arrive at the targets of jumps.
-/

namespace MethodState

/-- Between two states there are certain reports of unreachable code, in some order. -/
def Cuts
    (before after : MethodState)
    (cuts : List Diagnostic) :
    Prop :=
  ∃ found, after.diagnostics.toList = before.diagnostics.toList ++ found ∧
    (found.filter (·.problem = .unreachable)).Perm cuts

/-- Between two states no problem of certain kinds is reported. -/
def Spares
    (kinds : Problem → Prop)
    (before after : MethodState) :
    Prop :=
  ∃ found, after.diagnostics.toList = before.diagnostics.toList ++ found ∧
    ∀ diagnostic ∈ found, ¬kinds diagnostic.problem

/-- Between two states no jump is reported that has no target. -/
def JumpsValid
    (before after : MethodState) :
    Prop :=
  before.Spares (· = .invalidJump) after

variable
  {first second third before after : MethodState}
  {cuts further : List Diagnostic}

theorem Cuts.refl
    (state : MethodState) :
    state.Cuts state [] :=
  ⟨[], by simp, by simp⟩

theorem Cuts.trans
    (earlier : first.Cuts second cuts)
    (later : second.Cuts third further) :
    first.Cuts third (cuts ++ further) := by
  obtain ⟨found, isFound, cutsOff⟩ := earlier
  obtain ⟨more, isMore, cutsMore⟩ := later
  refine ⟨found ++ more, ?_, ?_⟩
  · rw [isMore, isFound, List.append_assoc]
  · rw [List.filter_append]
    exact cutsOff.append cutsMore

/-- The order of the reports does not matter. -/
theorem Cuts.perm
    (reported : before.Cuts after cuts)
    (same : cuts.Perm further) :
    before.Cuts after further := by
  obtain ⟨found, isFound, cutsOff⟩ := reported
  exact ⟨found, isFound, cutsOff.trans same⟩

/-- A report is one of unreachable code, or it is another one. -/
theorem cuts_report
    (issue : Issue)
    (span : Span)
    (state : MethodState) :
    state.Cuts (state.report issue span)
      ([issue.diagnostic span].filter (·.problem = .unreachable)) :=
  ⟨[issue.diagnostic span], by simp [report], .refl _⟩

/-- Another report is not one of unreachable code. -/
theorem Cuts.report
    {issue : Issue}
    (other : issue.problem ≠ .unreachable)
    (span : Span)
    (state : MethodState) :
    state.Cuts (state.report issue span) [] := by
  have reported := cuts_report issue span state
  rwa [List.filter_eq_nil_iff.mpr (by simp [Issue.diagnostic, other])] at reported

/-- What is spared two parts is spared either of them. -/
theorem Spares.split
    {kinds : Problem → Prop}
    (spared : first.Spares kinds third)
    (earlier : first.Cuts second cuts)
    (later : second.Cuts third further) :
    first.Spares kinds second ∧ second.Spares kinds third := by
  obtain ⟨all, isAll, noneIs⟩ := spared
  obtain ⟨found, isFound, -⟩ := earlier
  obtain ⟨more, isMore, -⟩ := later
  rw [isMore, isFound, List.append_assoc, List.append_cancel_left_eq] at isAll
  subst isAll
  exact ⟨⟨found, isFound, fun diagnostic member =>
      noneIs diagnostic (List.mem_append_left _ member)⟩,
    more, isMore, fun diagnostic member => noneIs diagnostic (List.mem_append_right _ member)⟩

theorem Spares.mono
    {kinds fewer : Problem → Prop}
    (spared : before.Spares kinds after)
    (less : ∀ problem, fewer problem → kinds problem) :
    before.Spares fewer after := by
  obtain ⟨found, isFound, noneIs⟩ := spared
  exact ⟨found, isFound, fun diagnostic member isKind =>
    noneIs diagnostic member (less _ isKind)⟩

/-- A report is not spared. -/
theorem not_spares_report
    {kinds : Problem → Prop}
    {issue : Issue}
    (isKind : kinds issue.problem)
    (span : Span)
    (state : MethodState) :
    ¬state.Spares kinds (state.report issue span) := by
  rintro ⟨found, isFound, noneIs⟩
  simp only [report, Array.toList_push, List.append_cancel_left_eq] at isFound
  exact noneIs (issue.diagnostic span) (by simp [← isFound]) isKind

/-- If the jumps of two parts are valid, those of either are. -/
theorem JumpsValid.split
    (valid : first.JumpsValid third)
    (earlier : first.Cuts second cuts)
    (later : second.Cuts third further) :
    first.JumpsValid second ∧ second.JumpsValid third :=
  Spares.split valid earlier later

/-- A jump that is reported is not valid. -/
theorem not_jumpsValid_report
    (cause : JumpError)
    (span : Span)
    (state : MethodState) :
    ¬state.JumpsValid (state.report (.jumpInvalid cause) span) :=
  @not_spares_report (· = .invalidJump) (.jumpInvalid cause) rfl span state

end MethodState

namespace FlowPoint

/-- Between two points nothing has happened to the control flow. -/
structure Steady
    (before after : FlowPoint) :
    Prop where
  reachable : after.flow.reachable = before.flow.reachable
  arrives : before.jumps.Arrives after.jumps fun _ => False
  cuts : before.state.Cuts after.state []

namespace Steady

@[refl] theorem refl
    (point : FlowPoint) :
    point.Steady point :=
  ⟨rfl, .refl _, .refl _⟩

theorem trans
    {first second third : FlowPoint}
    (earlier : first.Steady second)
    (later : second.Steady third) :
    first.Steady third :=
  ⟨later.reachable.trans earlier.reachable, (earlier.arrives.trans later.arrives).congr (by simp),
    earlier.cuts.trans later.cuts⟩

/-- Reporting something else does not change the control flow. -/
theorem report
    {issue : Issue}
    (other : issue.problem ≠ .unreachable)
    (span : Span)
    (point : FlowPoint) :
    point.Steady (point.report issue span) :=
  ⟨rfl, .refl _, .report other span point.state⟩

/-- Deferring something changes the targets of jumps, but not the control flow. -/
theorem defer
    {point : FlowPoint}
    {jumps : JumpStack}
    (arrives : point.jumps.Arrives jumps fun _ => False) :
    point.Steady { point with jumps := jumps } :=
  ⟨rfl, arrives, .refl _⟩

/-- Checking a read does not change the control flow. -/
theorem checkReadOf
    (span : Span)
    (binding : Option LocalId)
    (point : FlowPoint) :
    point.Steady (point.checkReadOf span binding) := by
  cases binding with
  | none =>
      exact .refl point
  | some id =>
      simp only [FlowPoint.checkReadOf, checkRead]
      split
      · exact .refl point
      · exact .report (by simp [Issue.problem]) span point

/-- Checking an assignment to a final local does not change the control flow. -/
theorem checkFinal
    (span : Span)
    (id : LocalId)
    (point : FlowPoint) :
    point.Steady (point.checkFinal span id) := by
  simp only [FlowPoint.checkFinal]
  split
  · exact .refl point
  · split
    · exact .report (by simp [Issue.problem]) span point
    · exact .defer (.deferFinal _ _ _ _ _)

/-- Recording an assignment does not change the control flow. -/
theorem assign
    (options : CompilerOptions)
    (id : LocalId)
    (status : NullStatus)
    (point : FlowPoint) :
    point.Steady (point.assign options id status) := by
  simp only [FlowPoint.assign]
  split <;> exact ⟨rfl, .refl _, .refl _⟩

/-- Checking the use of a reference does not change the control flow. -/
theorem checkNull
    (span : Span)
    (id : LocalId)
    (point : FlowPoint) :
    point.Steady (point.checkNull span id) := by
  unfold FlowPoint.checkNull
  split
  · exact .report (by simp [Issue.problem]) span point
  · exact .report (by simp [Issue.problem]) span point
  · exact .refl point
  · exact .defer (.deferNull _ _ _ _ _)

/-- Checking the use of a value as an object does not change the control flow. -/
theorem checkDereference
    (options : CompilerOptions)
    (value : Expr)
    (point : FlowPoint) :
    point.Steady (point.checkDereference options value) := by
  unfold FlowPoint.checkDereference
  split
  · exact .refl point
  · split
    · exact .report (by simp [Issue.problem]) _ point
    · split
      · have checked := Steady.checkNull ‹_› ‹_› point
        exact ⟨checked.reachable, checked.arrives, checked.cuts⟩
      · exact .refl point
    · exact .refl point

/-- Reporting repeated assignments does not change the control flow. -/
theorem settleFinals
    (bodyEnd : FlowState)
    (deferred : List (LocalId × Span)) :
    ∀ (point : FlowPoint), point.Steady (LoopLowering.settleFinals deferred bodyEnd point) := by
  induction deferred with
  | nil =>
      exact .refl
  | cons use rest inductionHypothesis =>
      intro point
      simp only [LoopLowering.settleFinals, List.foldl_cons]
      split
      · exact (Steady.report (by simp [Issue.problem]) use.2 point).trans (inductionHypothesis _)
      · exact inductionHypothesis point

/-- Reporting a use of null does not change the control flow. -/
theorem settleNull
    (onEntry : FlowState)
    (backEdge : Option FlowState)
    (point : FlowPoint)
    (use : LocalId × Span) :
    point.Steady (LoopLowering.settleNull onEntry backEdge point use) := by
  simp only [LoopLowering.settleNull]
  split
  · exact .report (by simp [Issue.problem]) _ point
  · exact .report (by simp [Issue.problem]) _ point
  · exact .report (by simp [Issue.problem]) _ point
  · exact .refl point
  · exact .defer (.deferNull _ _ _ _ _)

/-- Reporting uses of null does not change the control flow. -/
theorem settleNulls
    (onEntry : FlowState)
    (backEdge : Option FlowState)
    (deferred : List (LocalId × Span)) :
    ∀ (point : FlowPoint),
      point.Steady (deferred.foldl (LoopLowering.settleNull onEntry backEdge) point) := by
  induction deferred with
  | nil =>
      exact .refl
  | cons use rest inductionHypothesis =>
      intro point
      exact (Steady.settleNull onEntry backEdge point use).trans (inductionHypothesis _)

end Steady

end FlowPoint

mutual

/-- Flow through an expression does not change the control flow. -/
theorem steady_analyzeExpr
    (options : CompilerOptions) :
    ∀ (expr : Expr) (point : FlowPoint), point.Steady (analyzeExpr options expr point)
  | .intLit .., point | .boolLit .., point | .stringLit .., point | .null _, point => by
      simp only [analyzeExpr]
      exact .refl point
  | .name span ref, point => by
      simp only [analyzeExpr]
      exact .checkReadOf span ref.binding point
  | .newArray _ _ elements, point => by
      simp only [analyzeExpr]
      exact steady_analyzeExprs options elements point
  | .binary _ _ left right, point => by
      simp only [analyzeExpr]
      exact (steady_analyzeExpr options left point).trans (steady_analyzeExpr options right _)
  | .assign _ target op value, point => by
      have read : point.Steady
          (if op.isSome then point.checkReadOf target.span target.node.binding else point) := by
        split
        · exact .checkReadOf target.span target.node.binding point
        · exact .refl point
      have evaluated := read.trans (steady_analyzeExpr options value _)
      simp only [analyzeExpr]
      split
      · exact evaluated
      · exact (evaluated.trans (.checkFinal target.span _ _)).trans (.assign options _ _ _)
  | .call _ _ args, point => by
      simp only [analyzeExpr]
      exact steady_analyzeExprs options args point
  | .methodCall _ receiver _ args, point => by
      simp only [analyzeExpr]
      exact ((steady_analyzeExpr options receiver point).trans
        (.checkDereference options receiver _)).trans (steady_analyzeExprs options args _)

theorem steady_analyzeExprs
    (options : CompilerOptions) :
    ∀ (exprs : List Expr) (point : FlowPoint), point.Steady (analyzeExprs options exprs point)
  | [], point => by
      simp only [analyzeExprs]
      exact .refl point
  | expr :: rest, point => by
      simp only [analyzeExprs]
      exact (steady_analyzeExpr options expr point).trans (steady_analyzeExprs options rest _)

end

/-- Flow through a declaration does not change the control flow. -/
theorem steady_analyzeDecl
    (options : CompilerOptions)
    (decl : LocalDecl)
    (point : FlowPoint) :
    point.Steady (analyzeDecl options decl point) := by
  unfold analyzeDecl
  split
  · exact .refl point
  · next value _ =>
      have evaluated := steady_analyzeExpr options value point
      simp only
      split
      · exact evaluated
      · exact evaluated.trans (.assign options _ _ _)

/-- Entering a loop only adds the loop to the targets of jumps. -/
theorem steady_enterLoop
    (options : CompilerOptions)
    (scope : ScopeId)
    (element : LocalDecl)
    (collection : Expr)
    (point : FlowPoint) :
    ∃ evaluated : FlowPoint, point.Steady evaluated ∧
      (enterLoop options scope element collection point).body.jumps =
        evaluated.jumps.pushLoop scope
          (enterLoop options scope element collection point).before ∧
      evaluated.state.Cuts (enterLoop options scope element collection point).body.state [] :=
  ⟨_, (FlowPoint.Steady.checkDereference options collection point).trans
      ((steady_analyzeDecl options element _).trans (steady_analyzeExpr options collection _)),
    rfl, .refl _⟩

/-- Leaving a loop of which a record is kept does not change the control flow at the
targets around it. -/
theorem steady_leaveLoopWith
    (options : CompilerOptions)
    (element : LocalDecl)
    (facts : LoopFacts)
    (entry : LoopEntry)
    (body : LoopBody)
    (record : LoopRecord)
    (point : FlowPoint) :
    point.jumps.Arrives (leaveLoopWith options element facts entry body record point).point.jumps
        (fun _ => False) ∧
      point.state.Cuts (leaveLoopWith options element facts entry body record point).point.state
        [] := by
  have settles : ∀ (repeats : Bool) (backEdge : FlowState), point.Steady
      (if repeats then settleFinals record.deferredFinals backEdge point else point) := by
    intro repeats backEdge
    cases repeats with
    | false =>
        exact .refl point
    | true =>
        exact .settleFinals backEdge record.deferredFinals point
  let continues := !body.analyzed || body.finish.flow.reachable || record.onContinue.reachable
  let repeats := body.analyzed && continues
  let backEdge := if repeats then body.finish.flow.merge record.onContinue else body.finish.flow
  have settled := settles repeats backEdge
  have marked : point.Steady
      { (if repeats then settleFinals record.deferredFinals backEdge point else point) with
        state := (if repeats then settleFinals record.deferredFinals backEdge point
          else point).state.mapScope (markSynthetics options facts.classification
            (Stmt.isEmptyAction body.action) element.binding continues) } :=
    ⟨settled.reachable, settled.arrives, settled.cuts⟩
  have reported := marked.trans (.settleNulls record.onEntry
    (if continues then some backEdge else none) record.deferredNulls _)
  exact ⟨reported.arrives, reported.cuts⟩

/-- Leaving a loop reports no unreachable code. -/
theorem cuts_leaveLoop
    (options : CompilerOptions)
    (element : LocalDecl)
    (facts : LoopFacts)
    (entry : LoopEntry)
    (body : LoopBody) :
    body.finish.state.Cuts (leaveLoop options element facts entry body).point.state [] := by
  simp only [leaveLoop]
  split
  · exact (steady_leaveLoopWith options element facts entry body _ _).2
  · exact .refl _

namespace Stmt

/-- The position in a block of its first statement that flow analysis did not reach. -/
def unreachableFrom? :
    Stmt → Option Nat
  | .block _ _ facts => facts.unreachableFrom
  | _ => none

/-- Flow analysis has not cut off anything in blocks among statements. -/
def AreFresh
    (parts : List Stmt) :
    Prop :=
  ∀ part ∈ parts, part.unreachableFrom? = none

/-- The report of unreachable code in a list of statements, if there is any. -/
def cutIn
    (stmts : List Stmt)
    (unreachableFrom : Option Nat) :
    Option Diagnostic :=
  unreachableFrom.bind fun index =>
    stmts[index]?.map fun stmt => Issue.unreachableCode.diagnostic stmt.span

/-- The report of unreachable code in a block, if there is any. -/
def cut? :
    Stmt → Option Diagnostic
  | .block _ stmts facts => cutIn stmts facts.unreachableFrom
  | _ => none

@[simp] theorem cutIn_cons
    (stmt : Stmt)
    (stmts : List Stmt)
    (unreachableFrom : Option Nat) :
    cutIn (stmt :: stmts) (unreachableFrom.map (· + 1)) = cutIn stmts unreachableFrom := by
  cases unreachableFrom <;> rfl

/-- A block in which nothing was cut off has no report. -/
theorem AreFresh.cut?_eq
    {parts : List Stmt}
    (fresh : AreFresh parts)
    {part : Stmt}
    (member : part ∈ parts) :
    part.cut? = none := by
  have isNone := fresh part member
  cases part with
  | block span stmts facts =>
      simp only [unreachableFrom?] at isNone
      simp [cut?, cutIn, isNone]
  | _ =>
      rfl

/-- Blocks in which nothing was cut off have no reports. -/
theorem AreFresh.cuts_eq
    {parts : List Stmt}
    (fresh : AreFresh parts) :
    parts.filterMap cut? = [] :=
  List.filterMap_eq_nil_iff.mpr fun _ => fresh.cut?_eq

/-- The reports of a block are those of its statements and its own. -/
theorem perm_cuts_block
    (span : Span)
    (stmts : List Stmt)
    (facts : BlockFacts) :
    ((allParts stmts).filterMap cut? ++ (cutIn stmts facts.unreachableFrom).toList).Perm
      ((parts (.block span stmts facts)).filterMap cut?) := by
  simp only [parts, List.filterMap_cons, cut?]
  split
  · next noCut =>
      simp [noCut]
  · next cut isCut =>
      rw [isCut, Option.toList_some]
      exact List.perm_append_comm

end Stmt

/-- A jump reports no unreachable code. -/
theorem FlowPoint.cuts_jump
    (span : Span)
    (target : Except JumpError JumpStack)
    (point : FlowPoint) :
    point.state.Cuts (point.jump span target).state [] := by
  cases target with
  | ok jumps =>
      exact .refl _
  | error cause =>
      exact .report (by simp [Issue.problem]) span point.state

section Statements

variable
  {options : CompilerOptions}

/-- Flow through the body of a loop reports what flow through the statement does. -/
theorem cuts_analyzeBody
    {action : Stmt}
    {entry : LoopEntry}
    (fresh : Stmt.AreFresh action.parts)
    (reached : entry.body.flow.reachable = true)
    (analyzed : entry.body.state.Cuts (analyzeStmt options action entry.body).point.state
      ((analyzeStmt options action entry.body).node.parts.filterMap Stmt.cut?)) :
    ∃ node, (entry.analyzeBody options action).action = some node ∧
      entry.body.state.Cuts (entry.analyzeBody options action).finish.state
        (node.parts.filterMap Stmt.cut?) := by
  unfold LoopEntry.analyzeBody
  split
  · refine ⟨action, rfl, ?_⟩
    rw [fresh.cuts_eq]
    exact .refl _
  · exact ⟨_, rfl, analyzed⟩

mutual

/-- Flow through a statement reports unreachable code once for each block in which it
cuts something off. -/
theorem cuts_analyzeStmt :
    ∀ {stmt : Stmt} {point : FlowPoint},
      Stmt.AreFresh stmt.parts →
      point.flow.reachable = true →
      point.state.Cuts (analyzeStmt options stmt point).point.state
        ((analyzeStmt options stmt point).node.parts.filterMap Stmt.cut?)
  | .localVar span decl, point, _, _ => by
      simp only [analyzeStmt, Stmt.parts]
      exact (steady_analyzeDecl options decl point).cuts
  | .expr span value, point, _, _ => by
      simp only [analyzeStmt, Stmt.parts]
      exact (steady_analyzeExpr options value point).cuts
  | .block span stmts facts, point, fresh, _ => by
      simp only [Stmt.parts] at fresh
      have inner := @cuts_analyzeStmts stmts point fun part member =>
        fresh part (List.mem_cons_of_mem _ member)
      simp only [analyzeStmt]
      exact inner.perm (Stmt.perm_cuts_block span (analyzeStmts options stmts point).nodes
        { facts with unreachableFrom := (analyzeStmts options stmts point).unreachableFrom })
  | .branch span condition thenBranch none, point, fresh, reached => by
      simp only [Stmt.parts] at fresh
      have tested := steady_analyzeExpr options condition point
      have branch := @cuts_analyzeStmt thenBranch (analyzeExpr options condition point)
        (fun part member => fresh part (List.mem_cons_of_mem _ member))
        (tested.reachable.trans reached)
      simp only [analyzeStmt, Stmt.parts]
      exact tested.cuts.trans branch
  | .branch span condition thenBranch (some elseBranch), point, fresh, reached => by
      simp only [Stmt.parts] at fresh
      have tested := steady_analyzeExpr options condition point
      have testedReached := tested.reachable.trans reached
      have first := @cuts_analyzeStmt thenBranch (analyzeExpr options condition point)
        (fun part member => fresh part (List.mem_cons_of_mem _ (List.mem_append_left _ member)))
        testedReached
      have other := @cuts_analyzeStmt elseBranch
        { (analyzeStmt options thenBranch (analyzeExpr options condition point)).point with
          flow := (analyzeExpr options condition point).flow }
        (fun part member => fresh part (List.mem_cons_of_mem _ (List.mem_append_right _ member)))
        testedReached
      refine (tested.cuts.trans (first.trans other)).perm ?_
      simp only [analyzeStmt, Stmt.parts, List.filterMap_cons, Stmt.cut?, List.filterMap_append,
        List.nil_append]
      exact .refl _
  | .forEach span element collection none facts, point, _, _ => by
      simp only [analyzeStmt]
      split
      · simp only [Stmt.parts]
        exact .refl _
      · next scope _ =>
          obtain ⟨evaluated, steady, -, entered⟩ :=
            steady_enterLoop options scope element collection point
          have left := (steady.cuts.trans entered).trans
            (cuts_leaveLoop options element (facts.met point.flow.reachable)
              (enterLoop options scope element collection point)
              ⟨none, false, false, (enterLoop options scope element collection point).body⟩)
          simp only [Stmt.parts]
          exact left
  | .forEach span element collection (some action) facts, point, fresh, reached => by
      simp only [Stmt.parts] at fresh
      have freshAction : Stmt.AreFresh action.parts := fun part member =>
        fresh part (List.mem_cons_of_mem _ member)
      cases isScope : facts.scope with
      | none =>
          simp only [analyzeStmt, isScope, Stmt.parts, List.filterMap_cons, Stmt.cut?]
          rw [freshAction.cuts_eq]
          exact .refl _
      | some scope =>
          obtain ⟨evaluated, steady, -, entered⟩ :=
            steady_enterLoop options scope element collection point
          have bodyReached := (enters_enterLoop options scope element collection
            point).bodyReachable.trans reached
          obtain ⟨node, isNode, ran⟩ := cuts_analyzeBody freshAction bodyReached
            (@cuts_analyzeStmt action _ freshAction bodyReached)
          have left := ((steady.cuts.trans entered).trans ran).trans
            (cuts_leaveLoop options element (facts.met point.flow.reachable)
              (enterLoop options scope element collection point)
              ((enterLoop options scope element collection point).analyzeBody options action))
          obtain ⟨isStmt, isPoint⟩ :=
            CodeContext.analyzeStmt_forEach options span element collection action point isScope
          rw [isStmt, isPoint, isNode]
          simp only [Stmt.parts, List.filterMap_cons, Stmt.cut?]
          simpa using left
  | .labeled span label body, point, fresh, reached => by
      simp only [Stmt.parts] at fresh
      have inner := @cuts_analyzeStmt body
        { point with jumps := point.jumps.pushLabel label.node body.isLoop }
        (fun part member => fresh part (List.mem_cons_of_mem _ member)) reached
      simp only [analyzeStmt, Stmt.parts]
      split <;> exact inner
  | .breakTo span label, point, _, _ => by
      simp only [analyzeStmt, Stmt.parts]
      exact FlowPoint.cuts_jump span _ point
  | .continueTo span label, point, _, _ => by
      simp only [analyzeStmt, Stmt.parts]
      exact FlowPoint.cuts_jump span _ point
  | .returnWith span none, point, _, _ | .empty span, point, _, _ => by
      simp only [analyzeStmt, Stmt.parts]
      exact .refl _
  | .returnWith span (some value), point, _, _ => by
      simp only [analyzeStmt, Stmt.parts]
      exact (steady_analyzeExpr options value point).cuts

theorem cuts_analyzeStmts :
    ∀ {stmts : List Stmt} {point : FlowPoint},
      Stmt.AreFresh (Stmt.allParts stmts) →
      point.state.Cuts (analyzeStmts options stmts point).point.state
        ((Stmt.allParts (analyzeStmts options stmts point).nodes).filterMap Stmt.cut? ++
          (Stmt.cutIn (analyzeStmts options stmts point).nodes
            (analyzeStmts options stmts point).unreachableFrom).toList)
  | [], point, _ => by
      simp only [analyzeStmts, Stmt.allParts]
      exact .refl _
  | stmt :: rest, point, fresh => by
      simp only [analyzeStmts]
      split
      · next reached =>
          simp only [Stmt.allParts, Stmt.AreFresh, List.mem_append] at fresh
          have head := @cuts_analyzeStmt stmt point (fun part member => fresh part (.inl member))
            reached
          have tail := @cuts_analyzeStmts rest (analyzeStmt options stmt point).point
            fun part member => fresh part (.inr member)
          simp only [Stmt.allParts, List.filterMap_append, Stmt.cutIn_cons, List.append_assoc]
          exact head.trans tail
      · rw [fresh.cuts_eq]
        exact MethodState.cuts_report .unreachableCode stmt.span point.state

end

end Statements

end LoopLowering
