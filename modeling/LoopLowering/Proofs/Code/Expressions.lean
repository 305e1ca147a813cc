import LoopLowering.Proofs.Code.Steps

namespace LoopLowering

/-!
# The code of an expression is complete

Whatever succeeds in generating the code of an expression leaves the branch
targets before it alone and places its own.
-/

namespace CodeContext

open CodeStream

variable
  {context : CodeContext}
  {code after : CodeStream}

/-- Comparing two operands is a complete piece of code. -/
theorem appends_branchOnComparison
    {op : BinOp}
    {left right : Expr}
    {pushLeft pushRight : CodeStep}
    {branchIf : Bool}
    {label : Label}
    (completeLeft : pushLeft.Appends)
    (completeRight : pushRight.Appends)
    (branched : context.branchOnComparison op left right pushLeft pushRight branchIf label code =
      .ok after) :
    Appends [] code after := by
  simp only [branchOnComparison, bind_eq_ok] at branched
  obtain ⟨condition, -, pushed, isPushed, branched⟩ := branched
  have first := completeLeft isPushed
  split at branched
  · simp only [bind_eq_ok, pure_eq_ok] at branched
    obtain ⟨both, isBoth, rfl⟩ := branched
    exact (((first.convertOperand _ _).trans (completeRight isBoth)).convertOperand _ _).branchOnValues
      _ _ _ _
  · simp only [bind_eq_ok, pure_eq_ok] at branched
    obtain ⟨both, isBoth, rfl⟩ := branched
    exact (first.trans (completeRight isBoth)).emit _

/-- Combining two operands is a complete piece of code. -/
theorem appends_pushArithmetic
    {op : BinOp}
    {left right : Expr}
    {pushLeft pushRight : CodeStep}
    (completeLeft : pushLeft.Appends)
    (completeRight : pushRight.Appends)
    (combined : context.pushArithmetic op left right pushLeft pushRight code = .ok after) :
    Appends [] code after := by
  simp only [pushArithmetic] at combined
  split at combined
  · simp only [throw_eq_ok] at combined
  · simp only [bind_eq_ok, pure_eq_ok] at combined
    obtain ⟨pushed, isPushed, both, isBoth, arith, -, rfl⟩ := combined
    exact ((((completeLeft isPushed).convertOperand _ _).trans (completeRight isBoth)).convertOperand
      _ _).emit _

/-- Assigning a value is a complete piece of code. -/
theorem appends_assignSimple
    {id : LocalId}
    {value : Expr}
    {push : (wanted : Bool) → CodeStep}
    {wanted : Bool}
    (complete : ∀ wanted, (push wanted).Appends)
    (assigned : context.assignSimple id value push wanted code = .ok after) :
    Appends [] code after := by
  simp only [assignSimple] at assigned
  split at assigned
  · simp only [bind_eq_ok] at assigned
    obtain ⟨pushed, isPushed, stored⟩ := assigned
    exact ((complete _ isPushed).convertAssigned _ _ _).store stored
  · exact complete _ assigned

/-- Assigning the result of an operator is a complete piece of code. -/
theorem appends_assignOperated
    {id : LocalId}
    {op : BinOp}
    {value : Expr}
    {pushValue : CodeStep}
    {wanted : Bool}
    (complete : pushValue.Appends)
    (assigned : context.assignOperated id op value pushValue wanted code = .ok after) :
    Appends [] code after := by
  simp only [assignOperated] at assigned
  split at assigned
  · simp only [throw_eq_ok] at assigned
  · simp only [throw_eq_ok] at assigned
  · simp only [bind_eq_ok] at assigned
    obtain ⟨loaded, isLoaded, both, isBoth, arith, -, stored⟩ := assigned
    exact ((((((Appends.refl code).load isLoaded).convert _ _).trans
      (complete isBoth)).convertOperand _ _).emit _ |>.convert _ _).store stored

/-- Assigning to a local is a complete piece of code. -/
theorem appends_assign
    {target : NameRef}
    {op : Option BinOp}
    {value : Expr}
    {push : (wanted : Bool) → CodeStep}
    {wanted : Bool}
    (complete : ∀ wanted, (push wanted).Appends)
    (assigned : context.assign target op value push wanted code = .ok after) :
    Appends [] code after := by
  simp only [assign, bind_eq_ok] at assigned
  obtain ⟨id, -, assigned⟩ := assigned
  split at assigned
  · exact appends_assignSimple complete assigned
  · split at assigned
    · simp only [bind_eq_ok] at assigned
      obtain ⟨added, isAdded, assigned⟩ := assigned
      have first := (Appends.refl code).increment isAdded
      split at assigned
      · exact first.load assigned
      · rw [pure_eq_ok] at assigned
        exact assigned ▸ first
    · exact appends_assignOperated (complete true) assigned

/-- Calling a function is a complete piece of code. -/
theorem appends_callFunction
    (context : CodeContext)
    (name : String)
    (info : FunctionInfo)
    (wanted : Bool)
    (code : CodeStream) :
    Appends [] code (context.callFunction name info wanted code) :=
  ((Appends.refl code).emit _).keepResult _ _

/-- Calling a method is a complete piece of code. -/
theorem appends_callMethod
    (context : CodeContext)
    (name : String)
    (found : ClassTable.FoundMethod)
    (wanted : Bool)
    (code : CodeStream) :
    Appends [] code (context.callMethod name found wanted code) := by
  simp only [callMethod]
  refine Appends.keepResult ?_ _ _
  split
  · exact ((Appends.refl code).emit _).emit _
  · exact (Appends.refl code).emit _

mutual

/-- The code of an expression is complete. -/
theorem appends_pushExpr
    (context : CodeContext) :
    ∀ (expr : Expr) (wanted : Bool),
      (context.pushExpr expr wanted).Appends
  | .intLit _ value, wanted, code, after, pushed
  | .boolLit _ value, wanted, code, after, pushed
  | .stringLit _ value, wanted, code, after, pushed
  | .null _, wanted, code, after, pushed => by
      simp only [pushExpr, Except.ok.injEq] at pushed
      subst pushed
      cases wanted
      · exact .refl code
      · exact (Appends.refl code).emit _
  | .name _ ref, wanted, code, after, pushed => by
      cases wanted with
      | false =>
          simp only [pushExpr, Bool.false_eq_true, if_false, Except.ok.injEq] at pushed
          exact pushed ▸ .refl code
      | true =>
          simp only [pushExpr, if_true, bind_eq_ok] at pushed
          obtain ⟨id, -, loaded⟩ := pushed
          exact (Appends.refl code).load loaded
  | .newArray _ component elements, wanted, code, after, pushed => by
      cases wanted with
      | false =>
          simp only [pushExpr, Bool.false_eq_true, if_false] at pushed
          exact appends_runExprs context elements pushed
      | true =>
          simp only [pushExpr, if_true, bind_eq_ok, newArray_eq_ok] at pushed
          obtain ⟨type, -, created, ⟨-, rfl⟩, filled⟩ := pushed
          exact (((Appends.refl code).emit _).emit _).trans
            (appends_fillArray context type elements 0 filled)
  | .binary _ op left right, wanted, code, after, pushed => by
      have completeLeft := appends_pushExpr context left
      have completeRight := appends_pushExpr context right
      cases wanted with
      | false =>
          simp only [pushExpr, Bool.false_eq_true, if_false, bind_eq_ok] at pushed
          obtain ⟨ran, isRan, pushed⟩ := pushed
          exact (completeLeft false isRan).trans (completeRight false pushed)
      | true =>
          simp only [pushExpr, if_true] at pushed
          split at pushed
          · exact (Appends.refl code).testValue (fun label _ _ branched =>
              appends_branchOnComparison (completeLeft true) (completeRight true) branched) pushed
          · exact appends_pushArithmetic (completeLeft true) (completeRight true) pushed
  | .assign _ target op value, wanted, code, after, pushed => by
      have complete := appends_pushExpr context value
      simp only [pushExpr] at pushed
      exact appends_assign complete pushed
  | .call _ function args, wanted, code, after, pushed => by
      simp only [pushExpr] at pushed
      split at pushed
      · cases pushed
      · simp only [bind_eq_ok, pure_eq_ok] at pushed
        obtain ⟨arguments, arePushed, rfl⟩ := pushed
        exact (appends_pushArguments context args _ arePushed).trans
          (appends_callFunction context _ _ _ _)
  | .methodCall _ receiver method args, wanted, code, after, pushed => by
      simp only [pushExpr] at pushed
      split at pushed
      · cases pushed
      · simp only [bind_eq_ok, pure_eq_ok] at pushed
        obtain ⟨object, isPushed, arguments, arePushed, rfl⟩ := pushed
        exact ((appends_pushExpr context receiver true isPushed).trans
          (appends_pushArguments context args _ arePushed)).trans
            (appends_callMethod context _ _ _ _)

theorem appends_runExprs
    (context : CodeContext) :
    ∀ exprs : List Expr,
      CodeStep.Appends (context.runExprs exprs)
  | [], code, after, ran => by
      simp only [runExprs, Except.ok.injEq] at ran
      exact ran ▸ .refl code
  | expr :: rest, code, after, ran => by
      simp only [runExprs, bind_eq_ok] at ran
      obtain ⟨middle, first, remaining⟩ := ran
      exact (appends_pushExpr context expr false first).trans
        (appends_runExprs context rest remaining)

theorem appends_fillArray
    (context : CodeContext)
    (component : Ty) :
    ∀ (exprs : List Expr) (index : Nat),
      CodeStep.Appends (context.fillArray component exprs index)
  | [], index, code, after, filled => by
      simp only [fillArray, Except.ok.injEq] at filled
      exact filled ▸ .refl code
  | expr :: rest, index, code, after, filled => by
      simp only [fillArray, bind_eq_ok] at filled
      obtain ⟨pushed, isPushed, filled⟩ := filled
      exact ((((((Appends.refl code).emit _).emit _).trans
        (appends_pushExpr context expr true isPushed)).convertAssigned _ _ _).emit _).trans
          (appends_fillArray context component rest (index + 1) filled)

theorem appends_pushArguments
    (context : CodeContext) :
    ∀ (exprs : List Expr) (params : List Ty),
      CodeStep.Appends (context.pushArguments exprs params)
  | [], params, code, after, pushed => by
      simp only [pushArguments, Except.ok.injEq] at pushed
      exact pushed ▸ .refl code
  | expr :: rest, [], code, after, pushed => by
      simp only [pushArguments, Except.ok.injEq] at pushed
      exact pushed ▸ .refl code
  | expr :: rest, param :: params, code, after, pushed => by
      simp only [pushArguments, bind_eq_ok] at pushed
      obtain ⟨first, isPushed, pushed⟩ := pushed
      exact ((appends_pushExpr context expr true isPushed).convertAssigned _ _ _).trans
        (appends_pushArguments context rest params pushed)

end

end CodeContext

end LoopLowering
