import LoopLowering.Proofs.Flow.Marks
import LoopLowering.Proofs.Flow.Targets

namespace LoopLowering

/-!
# Definite assignment in expressions

An expression reads locals and assigns locals, from left to right. In a method
without errors whatever it reads is assigned before.
-/

/-- A set of locals with the one a name is bound to, if it is bound. -/
def VarSet.insertBinding
    (binding : Option LocalId)
    (set : VarSet) :
    VarSet :=
  match binding with
  | some id => set.insert id
  | none => set

/-- The local a name is bound to is in a set, if it is bound. -/
def VarSet.HasBinding
    (binding : Option LocalId)
    (set : VarSet) :
    Prop :=
  ∀ id, binding = some id → set.contains id = true

mutual

/-- The locals that are assigned after an expression, given those before. -/
def Expr.definite :
    Expr → VarSet → VarSet
  | .intLit .., set | .boolLit .., set | .stringLit .., set | .null _, set | .name .., set => set
  | .newArray _ _ elements, set => Expr.definiteAll elements set
  | .binary _ _ left right, set => right.definite (left.definite set)
  | .assign _ target _ value, set => (value.definite set).insertBinding target.node.binding
  | .call _ _ args, set => Expr.definiteAll args set
  | .methodCall _ receiver _ args, set => Expr.definiteAll args (receiver.definite set)

/-- The locals that are assigned after expressions, given those before. -/
def Expr.definiteAll :
    List Expr → VarSet → VarSet
  | [], set => set
  | expr :: rest, set => Expr.definiteAll rest (expr.definite set)

end

mutual

/-- Every local that an expression reads is assigned before, given the locals
that are assigned before the expression. -/
def Expr.ReadsAssigned :
    Expr → VarSet → Prop
  | .intLit .., _ | .boolLit .., _ | .stringLit .., _ | .null _, _ => True
  | .name _ ref, set => set.HasBinding ref.binding
  | .newArray _ _ elements, set => Expr.AllReadAssigned elements set
  | .binary _ _ left right, set => left.ReadsAssigned set ∧ right.ReadsAssigned (left.definite set)
  | .assign _ target op value, set =>
      (op.isSome = true → set.HasBinding target.node.binding) ∧ value.ReadsAssigned set
  | .call _ _ args, set => Expr.AllReadAssigned args set
  | .methodCall _ receiver _ args, set =>
      receiver.ReadsAssigned set ∧ Expr.AllReadAssigned args (receiver.definite set)

/-- Every local that expressions read is assigned before. -/
def Expr.AllReadAssigned :
    List Expr → VarSet → Prop
  | [], _ => True
  | expr :: rest, set => expr.ReadsAssigned set ∧ Expr.AllReadAssigned rest (expr.definite set)

end

mutual

/-- An expression only assigns further locals. -/
theorem Expr.within_definite :
    ∀ (expr : Expr) (set : VarSet),
      set.Within (expr.definite set)
  | .intLit .., set | .boolLit .., set | .stringLit .., set | .null _, set | .name .., set => by
      simp only [definite]
      exact .refl set
  | .newArray _ _ elements, set => by
      simp only [definite]
      exact within_definiteAll elements set
  | .binary _ _ left right, set => by
      simp only [definite]
      exact (left.within_definite set).trans (right.within_definite _)
  | .assign _ target _ value, set => by
      simp only [definite]
      refine (value.within_definite set).trans ?_
      cases target.node.binding with
      | none =>
          exact .refl _
      | some id =>
          exact VarSet.within_insert id _
  | .call _ _ args, set => by
      simp only [definite]
      exact within_definiteAll args set
  | .methodCall _ receiver _ args, set => by
      simp only [definite]
      exact (receiver.within_definite set).trans (within_definiteAll args _)

theorem Expr.within_definiteAll :
    ∀ (exprs : List Expr) (set : VarSet),
      set.Within (definiteAll exprs set)
  | [], set => by
      simp only [definiteAll]
      exact .refl set
  | expr :: rest, set => by
      simp only [definiteAll]
      exact (expr.within_definite set).trans (within_definiteAll rest _)

end

/-- A bound local is put into both of two sets. -/
theorem VarSet.Within.insertBinding
    {first second : VarSet}
    (within : first.Within second)
    (binding : Option LocalId) :
    (first.insertBinding binding).Within (second.insertBinding binding) := by
  cases binding with
  | none =>
      exact within
  | some id =>
      intro other member
      simp only [VarSet.insertBinding, VarSet.contains_insert, Bool.or_eq_true] at member ⊢
      exact member.imp (within other) (fun same => same)

mutual

/-- Where more is assigned before an expression, more is assigned after it. -/
theorem Expr.definite_mono :
    ∀ (expr : Expr) {first second : VarSet},
      first.Within second →
      (expr.definite first).Within (expr.definite second)
  | .intLit .., _, _, within | .boolLit .., _, _, within | .stringLit .., _, _, within
  | .null _, _, _, within | .name .., _, _, within => by
      simp only [definite]
      exact within
  | .newArray _ _ elements, _, _, within => by
      simp only [definite]
      exact definiteAll_mono elements within
  | .binary _ _ left right, _, _, within => by
      simp only [definite]
      exact right.definite_mono (left.definite_mono within)
  | .assign _ target _ value, _, _, within => by
      simp only [definite]
      exact (value.definite_mono within).insertBinding target.node.binding
  | .call _ _ args, _, _, within => by
      simp only [definite]
      exact definiteAll_mono args within
  | .methodCall _ receiver _ args, _, _, within => by
      simp only [definite]
      exact definiteAll_mono args (receiver.definite_mono within)

theorem Expr.definiteAll_mono :
    ∀ (exprs : List Expr) {first second : VarSet},
      first.Within second →
      (definiteAll exprs first).Within (definiteAll exprs second)
  | [], _, _, within => by
      simp only [definiteAll]
      exact within
  | expr :: rest, _, _, within => by
      simp only [definiteAll]
      exact definiteAll_mono rest (expr.definite_mono within)

end

mutual

theorem Expr.ReadsAssigned.mono :
    ∀ {expr : Expr} {first second : VarSet},
      expr.ReadsAssigned first →
      first.Within second →
      expr.ReadsAssigned second
  | .intLit .., _, _, _, _ | .boolLit .., _, _, _, _ | .stringLit .., _, _, _, _
  | .null _, _, _, _, _ => by
      simp only [Expr.ReadsAssigned]
  | .name _ ref, _, _, reads, within => by
      simp only [Expr.ReadsAssigned] at reads ⊢
      exact fun id bound => within id (reads id bound)
  | .newArray _ _ elements, _, _, reads, within => by
      simp only [Expr.ReadsAssigned] at reads ⊢
      exact reads.mono within
  | .binary _ _ left right, _, _, reads, within => by
      simp only [Expr.ReadsAssigned] at reads ⊢
      exact ⟨reads.1.mono within, reads.2.mono (left.definite_mono within)⟩
  | .assign _ target op value, _, _, reads, within => by
      simp only [Expr.ReadsAssigned] at reads ⊢
      exact ⟨fun operated id bound => within id (reads.1 operated id bound), reads.2.mono within⟩
  | .call _ _ args, _, _, reads, within => by
      simp only [Expr.ReadsAssigned] at reads ⊢
      exact reads.mono within
  | .methodCall _ receiver _ args, _, _, reads, within => by
      simp only [Expr.ReadsAssigned] at reads ⊢
      exact ⟨reads.1.mono within, reads.2.mono (receiver.definite_mono within)⟩

theorem Expr.AllReadAssigned.mono :
    ∀ {exprs : List Expr} {first second : VarSet},
      Expr.AllReadAssigned exprs first →
      first.Within second →
      Expr.AllReadAssigned exprs second
  | [], _, _, _, _ => by
      simp only [Expr.AllReadAssigned]
  | expr :: rest, _, _, reads, within => by
      simp only [Expr.AllReadAssigned] at reads ⊢
      exact ⟨reads.1.mono within, reads.2.mono (expr.definite_mono within)⟩

end

namespace FlowPoint

/-- Between two points, an expression has assigned some locals. -/
structure Evaluates
    (before after : FlowPoint)
    (definite : VarSet) :
    Prop where
  reachable : after.flow.reachable = before.flow.reachable
  definite : after.flow.definite = definite
  jumps : before.jumps.Narrows after.jumps
  scope : after.state.scope = before.state.scope

theorem Evaluates.refl
    (point : FlowPoint) :
    point.Evaluates point point.flow.definite :=
  ⟨rfl, rfl, .refl _, rfl⟩

theorem Evaluates.trans
    {first second third : FlowPoint}
    {middle last : VarSet}
    (earlier : first.Evaluates second middle)
    (later : second.Evaluates third last) :
    first.Evaluates third last where
  reachable := later.reachable.trans earlier.reachable
  definite := later.definite
  jumps := earlier.jumps.trans later.jumps
  scope := later.scope.trans earlier.scope

/-- Checking a read assigns nothing. -/
theorem evaluates_checkReadOf
    (span : Span)
    (binding : Option LocalId)
    (point : FlowPoint) :
    point.Evaluates (point.checkReadOf span binding) point.flow.definite := by
  cases binding with
  | none =>
      exact .refl point
  | some id =>
      simp only [checkReadOf, checkRead]
      split
      · exact .refl point
      · exact ⟨rfl, rfl, .refl _, rfl⟩

/-- A read that is checked without an error is of an assigned local. -/
theorem hasBinding_checkReadOf
    {span : Span}
    {binding : Option LocalId}
    {point : FlowPoint}
    (reached : point.flow.reachable = true)
    (clean : (point.checkReadOf span binding).state.Clean) :
    point.flow.definite.HasBinding binding := by
  intro id bound
  subst bound
  simp only [checkReadOf, checkRead] at clean
  split at clean
  · next assigned =>
      simpa [FlowState.isAssigned, reached] using assigned
  · simp [report, Issue.severity] at clean

/-- Checking an assignment to a final local assigns nothing. -/
theorem evaluates_checkFinal
    (span : Span)
    (id : LocalId)
    (point : FlowPoint) :
    point.Evaluates (point.checkFinal span id) point.flow.definite := by
  simp only [checkFinal]
  split
  · exact .refl point
  · split
    · exact ⟨rfl, rfl, .refl _, rfl⟩
    · exact ⟨rfl, rfl, JumpStack.narrows_deferFinal _ _ _ _ _, rfl⟩

/-- An assignment assigns its target. -/
theorem evaluates_assign
    (options : CompilerOptions)
    (id : LocalId)
    (status : NullStatus)
    (point : FlowPoint) :
    point.Evaluates (point.assign options id status) (point.flow.definite.insert id) := by
  simp only [assign]
  split <;> exact ⟨rfl, rfl, .refl _, rfl⟩

/-- Checking the use of a reference assigns nothing. -/
theorem evaluates_checkNull
    (span : Span)
    (id : LocalId)
    (point : FlowPoint) :
    point.Evaluates (point.checkNull span id) point.flow.definite := by
  simp only [checkNull]
  split
  · exact ⟨rfl, rfl, .refl _, rfl⟩
  · exact ⟨rfl, rfl, .refl _, rfl⟩
  · exact .refl point
  · exact ⟨rfl, rfl, JumpStack.narrows_deferNull _ _ _ _ _, rfl⟩

/-- Checking the use of a value as an object assigns nothing. -/
theorem evaluates_checkDereference
    (options : CompilerOptions)
    (value : Expr)
    (point : FlowPoint) :
    point.Evaluates (point.checkDereference options value) point.flow.definite := by
  simp only [checkDereference]
  split
  · exact .refl point
  · split
    · exact ⟨rfl, rfl, .refl _, rfl⟩
    · split
      · next id _ =>
          have checked := point.evaluates_checkNull ‹_› id
          exact ⟨checked.reachable, checked.definite, checked.jumps, checked.scope⟩
      · exact .refl point
    · exact .refl point

end FlowPoint

mutual

/-- Flow through an expression assigns what the expression assigns. -/
theorem evaluates_analyzeExpr
    (options : CompilerOptions) :
    ∀ (expr : Expr) (point : FlowPoint),
      point.Evaluates (analyzeExpr options expr point) (expr.definite point.flow.definite)
  | .intLit .., point | .boolLit .., point | .stringLit .., point | .null _, point => by
      simp only [analyzeExpr, Expr.definite]
      exact .refl point
  | .name span ref, point => by
      simp only [analyzeExpr, Expr.definite]
      exact point.evaluates_checkReadOf span ref.binding
  | .newArray _ _ elements, point => by
      simp only [analyzeExpr, Expr.definite]
      exact evaluates_analyzeExprs options elements point
  | .binary _ _ left right, point => by
      have first := evaluates_analyzeExpr options left point
      have second := evaluates_analyzeExpr options right (analyzeExpr options left point)
      rw [first.definite] at second
      simp only [analyzeExpr, Expr.definite]
      exact first.trans second
  | .assign _ target op value, point => by
      have read : point.Evaluates
          (if op.isSome then point.checkReadOf target.span target.node.binding else point)
          point.flow.definite := by
        split
        · exact point.evaluates_checkReadOf _ _
        · exact .refl point
      have evaluated := evaluates_analyzeExpr options value
        (if op.isSome then point.checkReadOf target.span target.node.binding else point)
      rw [read.definite] at evaluated
      have both := read.trans evaluated
      simp only [analyzeExpr, Expr.definite]
      cases bound : target.node.binding with
      | none =>
          rw [bound] at both
          exact both
      | some id =>
          rw [bound] at both
          have checked := both.trans (FlowPoint.evaluates_checkFinal target.span id _)
          simp only [VarSet.insertBinding]
          rw [← checked.definite.trans both.definite]
          exact checked.trans (FlowPoint.evaluates_assign options id _ _)
  | .call _ _ args, point => by
      simp only [analyzeExpr, Expr.definite]
      exact evaluates_analyzeExprs options args point
  | .methodCall _ receiver _ args, point => by
      have first := evaluates_analyzeExpr options receiver point
      have used := first.trans
        ((analyzeExpr options receiver point).evaluates_checkDereference options receiver)
      have second := evaluates_analyzeExprs options args
        ((analyzeExpr options receiver point).checkDereference options receiver)
      rw [used.definite, first.definite] at second
      simp only [analyzeExpr, Expr.definite]
      exact used.trans second

theorem evaluates_analyzeExprs
    (options : CompilerOptions) :
    ∀ (exprs : List Expr) (point : FlowPoint),
      point.Evaluates (analyzeExprs options exprs point)
        (Expr.definiteAll exprs point.flow.definite)
  | [], point => by
      simp only [analyzeExprs, Expr.definiteAll]
      exact .refl point
  | expr :: rest, point => by
      have first := evaluates_analyzeExpr options expr point
      have second := evaluates_analyzeExprs options rest (analyzeExpr options expr point)
      rw [first.definite] at second
      simp only [analyzeExprs, Expr.definiteAll]
      exact first.trans second

end

mutual

/-- An expression analyzed without an error reads assigned locals. -/
theorem readsAssigned_analyzeExpr
    {options : CompilerOptions} :
    ∀ {expr : Expr} {point : FlowPoint},
      point.flow.reachable = true →
      (analyzeExpr options expr point).state.Clean →
      expr.ReadsAssigned point.flow.definite
  | .intLit .., point, _, _ | .boolLit .., point, _, _ | .stringLit .., point, _, _
  | .null _, point, _, _ => by
      simp only [Expr.ReadsAssigned]
  | .name span ref, point, reached, clean => by
      simp only [analyzeExpr] at clean
      simp only [Expr.ReadsAssigned]
      exact FlowPoint.hasBinding_checkReadOf reached clean
  | .newArray _ _ elements, point, reached, clean => by
      simp only [analyzeExpr] at clean
      simp only [Expr.ReadsAssigned]
      exact allReadAssigned_analyzeExprs reached clean
  | .binary _ _ left right, point, reached, clean => by
      have first := evaluates_analyzeExpr options left point
      simp only [analyzeExpr] at clean
      simp only [Expr.ReadsAssigned]
      have rightAssigned := readsAssigned_analyzeExpr (first.reachable.trans reached) clean
      rw [first.definite] at rightAssigned
      exact ⟨readsAssigned_analyzeExpr reached ((marks_analyzeExpr options right _).isClean clean),
        rightAssigned⟩
  | .assign _ target op value, point, reached, clean => by
      have evaluatedClean : (analyzeExpr options value
          (if op.isSome then point.checkReadOf target.span target.node.binding
          else point)).state.Clean := by
        simp only [analyzeExpr] at clean
        split at clean
        · exact clean
        · exact (FlowPoint.marks_checkFinal _ _ _).isClean
            ((FlowPoint.marks_assign _ _ _ _).isClean clean)
      have readClean := (marks_analyzeExpr options value _).isClean evaluatedClean
      simp only [Expr.ReadsAssigned]
      cases operated : op.isSome with
      | false =>
          simp only [operated, Bool.false_eq_true, if_false] at evaluatedClean
          exact ⟨nofun, readsAssigned_analyzeExpr reached evaluatedClean⟩
      | true =>
          simp only [operated, if_true] at evaluatedClean readClean
          have read := point.evaluates_checkReadOf target.span target.node.binding
          have valueAssigned :=
            readsAssigned_analyzeExpr (read.reachable.trans reached) evaluatedClean
          rw [read.definite] at valueAssigned
          exact ⟨fun _ => FlowPoint.hasBinding_checkReadOf reached readClean, valueAssigned⟩
  | .call _ _ args, point, reached, clean => by
      simp only [analyzeExpr] at clean
      simp only [Expr.ReadsAssigned]
      exact allReadAssigned_analyzeExprs reached clean
  | .methodCall _ receiver _ args, point, reached, clean => by
      have first := evaluates_analyzeExpr options receiver point
      have used := first.trans
        ((analyzeExpr options receiver point).evaluates_checkDereference options receiver)
      simp only [analyzeExpr] at clean
      simp only [Expr.ReadsAssigned]
      have argsAssigned := allReadAssigned_analyzeExprs (used.reachable.trans reached) clean
      rw [used.definite, first.definite] at argsAssigned
      have usedClean := (marks_analyzeExprs options args _).isClean clean
      exact ⟨readsAssigned_analyzeExpr reached
        ((FlowPoint.marks_checkDereference options receiver _).isClean usedClean), argsAssigned⟩

theorem allReadAssigned_analyzeExprs
    {options : CompilerOptions} :
    ∀ {exprs : List Expr} {point : FlowPoint},
      point.flow.reachable = true →
      (analyzeExprs options exprs point).state.Clean →
      Expr.AllReadAssigned exprs point.flow.definite
  | [], point, _, _ => by
      simp only [Expr.AllReadAssigned]
  | expr :: rest, point, reached, clean => by
      have first := evaluates_analyzeExpr options expr point
      simp only [analyzeExprs] at clean
      simp only [Expr.AllReadAssigned]
      have restAssigned := allReadAssigned_analyzeExprs (first.reachable.trans reached) clean
      rw [first.definite] at restAssigned
      exact ⟨readsAssigned_analyzeExpr reached ((marks_analyzeExprs options rest _).isClean clean),
        restAssigned⟩

end

/-- The locals that are assigned after a declaration, given those before. -/
def LocalDecl.definite
    (decl : LocalDecl)
    (set : VarSet) :
    VarSet :=
  match decl.initial with
  | none => set
  | some value => (value.definite set).insertBinding decl.binding

/-- Every local that the initial value of a declaration reads is assigned
before. -/
def LocalDecl.ReadsAssigned
    (decl : LocalDecl)
    (set : VarSet) :
    Prop :=
  ∀ value, decl.initial = some value → value.ReadsAssigned set

/-- A declaration only assigns further locals. -/
theorem LocalDecl.within_definite
    (decl : LocalDecl)
    (set : VarSet) :
    set.Within (decl.definite set) := by
  simp only [definite]
  cases decl.initial with
  | none =>
      exact .refl set
  | some value =>
      refine (value.within_definite set).trans ?_
      cases decl.binding with
      | none =>
          exact .refl _
      | some id =>
          exact VarSet.within_insert id _

/-- Where more is assigned before a declaration, more is assigned after it. -/
theorem LocalDecl.definite_mono
    (decl : LocalDecl)
    {first second : VarSet}
    (within : first.Within second) :
    (decl.definite first).Within (decl.definite second) := by
  simp only [definite]
  cases decl.initial with
  | none =>
      exact within
  | some value =>
      exact (value.definite_mono within).insertBinding decl.binding

theorem LocalDecl.ReadsAssigned.mono
    {decl : LocalDecl}
    {first second : VarSet}
    (reads : decl.ReadsAssigned first)
    (within : first.Within second) :
    decl.ReadsAssigned second :=
  fun value initial => (reads value initial).mono within

/-- Flow through a declaration assigns what the declaration assigns. -/
theorem evaluates_analyzeDecl
    (options : CompilerOptions)
    (decl : LocalDecl)
    (point : FlowPoint) :
    point.Evaluates (analyzeDecl options decl point) (decl.definite point.flow.definite) := by
  simp only [analyzeDecl, LocalDecl.definite]
  cases decl.initial with
  | none =>
      exact .refl point
  | some value =>
      have evaluated := evaluates_analyzeExpr options value point
      cases decl.binding with
      | none =>
          exact evaluated
      | some id =>
          have assigned := evaluated.trans (FlowPoint.evaluates_assign options id
            (nullStatusOf ((analyzeExpr options value point).flow.assign id) value) _)
          rw [evaluated.definite] at assigned
          exact assigned

/-- A declaration analyzed without an error reads assigned locals. -/
theorem readsAssigned_analyzeDecl
    {options : CompilerOptions}
    {decl : LocalDecl}
    {point : FlowPoint}
    (reached : point.flow.reachable = true)
    (clean : (analyzeDecl options decl point).state.Clean) :
    decl.ReadsAssigned point.flow.definite := by
  intro value initial
  simp only [analyzeDecl, initial] at clean
  split at clean
  · exact readsAssigned_analyzeExpr reached clean
  · exact readsAssigned_analyzeExpr reached ((FlowPoint.marks_assign _ _ _ _).isClean clean)

/-- A loop that is entered has evaluated its collection and assigned its
element. -/
structure LoopEntry.Enters
    (entry : LoopEntry)
    (scope : ScopeId)
    (element : LocalDecl)
    (collection : Expr)
    (point : FlowPoint) :
    Prop where
  beforeReachable : entry.before.reachable = point.flow.reachable
  beforeDefinite : entry.before.definite = element.definite point.flow.definite
  enteredReachable : entry.entered.reachable = point.flow.reachable
  enteredDefinite : entry.entered.definite =
    (collection.definite (element.definite point.flow.definite)).insertBinding element.binding
  bodyReachable : entry.body.flow.reachable = point.flow.reachable
  bodyDefinite : entry.body.flow.definite = entry.entered.definite
  jumps : ∃ jumps, point.jumps.Narrows jumps ∧
    entry.body.jumps = jumps.pushLoop scope entry.before
  scope : entry.body.state.scope = point.state.scope

/-- Entering a loop evaluates its collection and assigns its element. -/
theorem enters_enterLoop
    (options : CompilerOptions)
    (scope : ScopeId)
    (element : LocalDecl)
    (collection : Expr)
    (point : FlowPoint) :
    (enterLoop options scope element collection point).Enters scope element collection point := by
  have used := point.evaluates_checkDereference options collection
  have declared := evaluates_analyzeDecl options element
    (point.checkDereference options collection)
  rw [used.definite] at declared
  have before := used.trans declared
  have evaluated := evaluates_analyzeExpr options collection
    (analyzeDecl options element (point.checkDereference options collection))
  rw [declared.definite] at evaluated
  have both := before.trans evaluated
  simp only [enterLoop]
  cases bound : element.binding with
  | none =>
      exact ⟨before.reachable, before.definite, both.reachable, by
        rw [bound]; exact both.definite, both.reachable, rfl, ⟨_, both.jumps, rfl⟩, both.scope⟩
  | some id =>
      exact ⟨before.reachable, before.definite, both.reachable, by
        rw [bound]; exact congrArg (VarSet.insert id) both.definite, both.reachable, rfl,
        ⟨_, both.jumps, rfl⟩, both.scope⟩

/-- Flow through the body of a loop that has been entered. -/
def LoopEntry.analyzeBody
    (options : CompilerOptions)
    (action : Stmt)
    (entry : LoopEntry) :
    LoopBody :=
  if skipsAction options action then
    ⟨some action, false, false, entry.body⟩
  else if entry.body.flow.reachable then
    let analyzed := analyzeStmt options action entry.body
    ⟨some analyzed.node, true, true, analyzed.point⟩
  else
    ⟨some action, true, false, entry.body.report .unreachableCode action.span⟩

end LoopLowering
