import LoopLowering.Flow.FlowPoint

namespace LoopLowering

/-!
# Flow through expressions

Operands are evaluated from left to right. A read requires an earlier
assignment, and a call on an object requires that the object is not null.
-/

mutual

/-- Flow through an expression. -/
def analyzeExpr
    (options : CompilerOptions) :
    Expr → FlowPoint → FlowPoint
  | .intLit .., point | .boolLit .., point | .stringLit .., point | .null _, point => point
  | .name span ref, point => point.checkReadOf span ref.binding
  | .newArray _ _ elements, point => analyzeExprs options elements point
  | .binary _ _ left right, point => analyzeExpr options right (analyzeExpr options left point)
  | .assign _ target op value, point =>
      let read := if op.isSome then point.checkReadOf target.span target.node.binding else point
      let evaluated := analyzeExpr options value read
      match target.node.binding with
      | none => evaluated
      | some id =>
          let checked := evaluated.checkFinal target.span id
          checked.assign options id (nullStatusOf (checked.flow.assign id) value)
  | .call _ _ args, point => analyzeExprs options args point
  | .methodCall _ receiver _ args, point =>
      analyzeExprs options args
        ((analyzeExpr options receiver point).checkDereference options receiver)

/-- Flow through expressions from left to right. -/
def analyzeExprs
    (options : CompilerOptions) :
    List Expr → FlowPoint → FlowPoint
  | [], point => point
  | expr :: rest, point => analyzeExprs options rest (analyzeExpr options expr point)

end

/-- Flow through a local declaration, which assigns only an initial value. -/
def analyzeDecl
    (options : CompilerOptions)
    (decl : LocalDecl)
    (point : FlowPoint) :
    FlowPoint :=
  match decl.initial with
  | none => point
  | some value =>
      let evaluated := analyzeExpr options value point
      match decl.binding with
      | none => evaluated
      | some id => evaluated.assign options id (nullStatusOf (evaluated.flow.assign id) value)

end LoopLowering
