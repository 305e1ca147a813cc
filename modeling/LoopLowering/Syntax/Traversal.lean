import LoopLowering.Syntax.Tree

namespace LoopLowering

/-!
# Traversal

The nodes of a method in the order of the source, a node before its parts. The
caller decides which nodes are entered; the parts of other nodes are left out.
-/

/-- A node met by a traversal. -/
inductive VisitedNode where
  | method (method : Method)
  | block (stmts : List Stmt) (facts : BlockFacts)
  | stmt (stmt : Stmt)
  | loop (span : Span) (element : LocalDecl)
  | decl (decl : LocalDecl)
  | expr (expr : Expr)
  deriving Repr

namespace VisitedNode

/-- Whether a node is an expression. -/
def isExpr :
    VisitedNode → Bool
  | .expr _ => true
  | _ => false

/-- The name that a node declares or uses itself, with the local it was bound
to. -/
def nameRef? :
    VisitedNode → Option NameRef
  | .decl declared => some ⟨declared.name.node, declared.binding⟩
  | .expr (.name _ ref) => some ref
  | .expr (.assign _ target _ _) => some target.node
  | _ => none

/-- What was recorded about a statement list. -/
def blockFacts? :
    VisitedNode → Option BlockFacts
  | .block _ facts => some facts
  | _ => none

end VisitedNode

/-- A node followed by its parts, if it is entered. -/
def visitNode
    (enters : VisitedNode → Bool)
    (node : VisitedNode)
    (parts : List VisitedNode) :
    List VisitedNode :=
  node :: if enters node then parts else []

mutual

/-- The nodes of an expression. -/
def Expr.visits
    (enters : VisitedNode → Bool) :
    Expr → List VisitedNode
  | .intLit span value => visitNode enters (.expr (.intLit span value)) []
  | .boolLit span value => visitNode enters (.expr (.boolLit span value)) []
  | .stringLit span value => visitNode enters (.expr (.stringLit span value)) []
  | .null span => visitNode enters (.expr (.null span)) []
  | .name span ref => visitNode enters (.expr (.name span ref)) []
  | .newArray span component elements =>
      visitNode enters (.expr (.newArray span component elements))
        (Expr.visitsAll enters elements)
  | .binary span op left right =>
      visitNode enters (.expr (.binary span op left right))
        (left.visits enters ++ right.visits enters)
  | .assign span target op value =>
      visitNode enters (.expr (.assign span target op value)) (value.visits enters)
  | .call span function args =>
      visitNode enters (.expr (.call span function args)) (Expr.visitsAll enters args)
  | .methodCall span receiver method args =>
      visitNode enters (.expr (.methodCall span receiver method args))
        (receiver.visits enters ++ Expr.visitsAll enters args)

/-- The nodes of expressions. -/
def Expr.visitsAll
    (enters : VisitedNode → Bool) :
    List Expr → List VisitedNode
  | [] => []
  | expr :: rest => expr.visits enters ++ Expr.visitsAll enters rest

end

/-- An assignment is met before its value. -/
theorem Expr.visits_assign
    (enters : VisitedNode → Bool)
    (span : Span)
    (target : Spanned NameRef)
    (op : Option BinOp)
    (value : Expr) :
    (Expr.assign span target op value).visits enters =
      visitNode enters (.expr (.assign span target op value)) (value.visits enters) := by
  rw [Expr.visits]

/-- The nodes of a local declaration. -/
def LocalDecl.visits
    (enters : VisitedNode → Bool)
    (decl : LocalDecl) :
    List VisitedNode :=
  visitNode enters (.decl decl)
    (match decl.initial with
    | some value => value.visits enters
    | none => [])

mutual

/-- The nodes of a statement. A block and a loop are met twice, as a statement
and as what they are. -/
def Stmt.visits
    (enters : VisitedNode → Bool) :
    Stmt → List VisitedNode
  | .localVar span decl =>
      visitNode enters (.stmt (.localVar span decl)) (decl.visits enters)
  | .expr span value => visitNode enters (.stmt (.expr span value)) (value.visits enters)
  | .block span stmts facts =>
      visitNode enters (.stmt (.block span stmts facts))
        (visitNode enters (.block stmts facts) (Stmt.visitsAll enters stmts))
  | .branch span condition thenBranch none =>
      visitNode enters (.stmt (.branch span condition thenBranch none))
        (condition.visits enters ++ thenBranch.visits enters)
  | .branch span condition thenBranch (some elseBranch) =>
      visitNode enters (.stmt (.branch span condition thenBranch (some elseBranch)))
        (condition.visits enters ++ thenBranch.visits enters ++ elseBranch.visits enters)
  | .forEach span element collection none facts =>
      visitNode enters (.stmt (.forEach span element collection none facts))
        (visitNode enters (.loop span element)
          (element.visits enters ++ collection.visits enters))
  | .forEach span element collection (some action) facts =>
      visitNode enters (.stmt (.forEach span element collection (some action) facts))
        (visitNode enters (.loop span element)
          (element.visits enters ++ collection.visits enters ++ action.visits enters))
  | .labeled span label body =>
      visitNode enters (.stmt (.labeled span label body)) (body.visits enters)
  | .breakTo span label => visitNode enters (.stmt (.breakTo span label)) []
  | .continueTo span label => visitNode enters (.stmt (.continueTo span label)) []
  | .returnWith span none => visitNode enters (.stmt (.returnWith span none)) []
  | .returnWith span (some value) =>
      visitNode enters (.stmt (.returnWith span (some value))) (value.visits enters)
  | .empty span => visitNode enters (.stmt (.empty span)) []

/-- The nodes of statements. -/
def Stmt.visitsAll
    (enters : VisitedNode → Bool) :
    List Stmt → List VisitedNode
  | [] => []
  | stmt :: rest => stmt.visits enters ++ Stmt.visitsAll enters rest

end

/-- A labeled statement is met before the statement inside. -/
theorem Stmt.visits_labeled
    (enters : VisitedNode → Bool)
    (span : Span)
    (label : Spanned String)
    (body : Stmt) :
    (Stmt.labeled span label body).visits enters =
      visitNode enters (.stmt (.labeled span label body)) (body.visits enters) := by
  rw [Stmt.visits]

namespace Method

/-- The nodes of a method, as far as they are entered. -/
def visitsWhere
    (enters : VisitedNode → Bool)
    (method : Method) :
    List VisitedNode :=
  visitNode enters (.method method)
    (visitNode enters (.block method.body.stmts method.body.facts)
      (Stmt.visitsAll enters method.body.stmts))

/-- Every node of a method. -/
def visits
    (method : Method) :
    List VisitedNode :=
  method.visitsWhere (fun _ => true)

/-- Every name declared or used in the body of a method. -/
def nameRefs
    (method : Method) :
    List NameRef :=
  method.visits.filterMap VisitedNode.nameRef?

/-- What was recorded about each statement list of a method. -/
def blockFacts
    (method : Method) :
    List BlockFacts :=
  method.visits.filterMap VisitedNode.blockFacts?

end Method

/-! ## The loops of a method

Every loop of a method in the order of the source, a loop before the loops in
its body.
-/

/-- A loop of a method. -/
structure LoopSummary where
  span : Span
  element : String
  /-- The number of loops around the loop. -/
  depth : Nat
  facts : LoopFacts
  deriving Repr, DecidableEq

mutual

/-- The loops of a statement that stands inside a number of loops. -/
def Stmt.loopsAt
    (depth : Nat) :
    Stmt → List LoopSummary
  | .block _ stmts _ => Stmt.loopsAtAll depth stmts
  | .branch _ _ thenBranch none => thenBranch.loopsAt depth
  | .branch _ _ thenBranch (some elseBranch) =>
      thenBranch.loopsAt depth ++ elseBranch.loopsAt depth
  | .forEach span element _ none facts => [⟨span, element.name.node, depth, facts⟩]
  | .forEach span element _ (some action) facts =>
      ⟨span, element.name.node, depth, facts⟩ :: action.loopsAt (depth + 1)
  | .labeled _ _ body => body.loopsAt depth
  | .localVar .. | .expr .. | .breakTo .. | .continueTo .. | .returnWith .. | .empty _ => []

/-- The loops of statements that stand inside a number of loops. -/
def Stmt.loopsAtAll
    (depth : Nat) :
    List Stmt → List LoopSummary
  | [] => []
  | stmt :: rest => stmt.loopsAt depth ++ Stmt.loopsAtAll depth rest

end

/-- Every loop of a method. -/
def Method.loops
    (method : Method) :
    List LoopSummary :=
  Stmt.loopsAtAll 0 method.body.stmts

end LoopLowering
