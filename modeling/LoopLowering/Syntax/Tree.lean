import LoopLowering.Source.Span
import LoopLowering.Loop.Strategy

namespace LoopLowering

/-!
# Programs

The statements, expressions and declarations of the source language. Every
statement, expression and written type carries its position. Some nodes also
have room for what the passes find out about them: the local a name refers to,
the block scope a statement list opens, and the facts about a loop.
-/

/-- A binary operator. -/
inductive BinOp where
  | add
  | sub
  | mul
  | lt
  | le
  | gt
  | ge
  | eq
  | ne
  deriving Repr, DecidableEq

namespace BinOp

/-- Whether the result is a truth value. -/
def isComparison :
    BinOp → Bool
  | add | sub | mul => false
  | _ => true

/-- The spelling of an operator. -/
def symbol :
    BinOp → String
  | add => "+"
  | sub => "-"
  | mul => "*"
  | lt => "<"
  | le => "<="
  | gt => ">"
  | ge => ">="
  | eq => "=="
  | ne => "!="

/-- The binding strength; a larger number binds tighter. -/
def precedence :
    BinOp → Nat
  | eq | ne => 1
  | lt | le | gt | ge => 2
  | add | sub => 3
  | mul => 4

end BinOp

/-- A type as it is written. -/
inductive TypeExpr where
  | named (span : Span) (name : String)
  | generic (span : Span) (name : String) (args : List TypeExpr)
  | array (span : Span) (component : TypeExpr)
  | wildcard (span : Span)
  | wildcardExtends (span : Span) (bound : TypeExpr)
  deriving Repr

/-- The position of a written type. -/
def TypeExpr.span :
    TypeExpr → Span
  | .named span _ | .generic span _ _ | .array span _ | .wildcard span
  | .wildcardExtends span _ => span

/-- A use of a variable's name, with the local it was bound to. -/
structure NameRef where
  name : String
  binding : Option LocalId
  deriving Repr, DecidableEq

namespace NameRef

/-- A name that has not been bound. -/
def unbound
    (name : String) :
    NameRef :=
  ⟨name, none⟩

end NameRef

/-- An expression. -/
inductive Expr where
  | intLit (span : Span) (value : Int32)
  | boolLit (span : Span) (value : Bool)
  | stringLit (span : Span) (value : String)
  | null (span : Span)
  | name (span : Span) (ref : NameRef)
  /-- An array of the listed elements. -/
  | newArray (span : Span) (component : TypeExpr) (elements : List Expr)
  | binary (span : Span) (op : BinOp) (left right : Expr)
  /-- An assignment, compound when it has an operator. -/
  | assign (span : Span) (target : Spanned NameRef) (op : Option BinOp) (value : Expr)
  /-- A call of a static function. -/
  | call (span : Span) (function : Spanned String) (args : List Expr)
  | methodCall (span : Span) (receiver : Expr) (method : Spanned String) (args : List Expr)
  deriving Repr

/-- The position of an expression. -/
def Expr.span :
    Expr → Span
  | .intLit span _ | .boolLit span _ | .stringLit span _ | .null span | .name span _
  | .newArray span _ _ | .binary span _ _ _ | .assign span _ _ _ | .call span _ _
  | .methodCall span _ _ _ => span

/-- The declaration of a local variable. -/
structure LocalDecl where
  name : Spanned String
  type : TypeExpr
  initial : Option Expr
  isFinal : Bool
  binding : Option LocalId
  deriving Repr

/-- What the passes record about a statement list. -/
structure BlockFacts where
  scope : Option ScopeId
  /-- The position in the list of the first statement no path reaches. -/
  unreachableFrom : Option Nat
  deriving Repr, DecidableEq

namespace BlockFacts

/-- A statement list no pass has looked at. -/
def initial :
    BlockFacts :=
  ⟨none, none⟩

end BlockFacts

/-- A statement. -/
inductive Stmt where
  | localVar (span : Span) (decl : LocalDecl)
  | expr (span : Span) (value : Expr)
  | block (span : Span) (stmts : List Stmt) (facts : BlockFacts)
  | branch (span : Span) (condition : Expr) (thenBranch : Stmt) (elseBranch : Option Stmt)
  /-- A loop that binds its element to each member of a collection in turn. -/
  | forEach (span : Span) (element : LocalDecl) (collection : Expr) (action : Option Stmt)
      (facts : LoopFacts)
  | labeled (span : Span) (label : Spanned String) (body : Stmt)
  | breakTo (span : Span) (label : Option (Spanned String))
  | continueTo (span : Span) (label : Option (Spanned String))
  | returnWith (span : Span) (value : Option Expr)
  | empty (span : Span)
  deriving Repr

namespace Stmt

/-- The position of a statement. -/
def span :
    Stmt → Span
  | .localVar span _ | .expr span _ | .block span _ _ | .branch span _ _ _
  | .forEach span _ _ _ _ | .labeled span _ _ | .breakTo span _ | .continueTo span _
  | .returnWith span _ | .empty span => span

/-- Whether a statement is a block without statements. -/
def isEmptyBlock :
    Stmt → Bool
  | .block _ [] _ => true
  | _ => false

/-- Whether a statement is the empty statement. -/
def isEmptyStmt :
    Stmt → Bool
  | .empty _ => true
  | _ => false

/-- Whether a statement is a block. -/
def isBlock :
    Stmt → Bool
  | .block .. => true
  | _ => false

/-- Whether a statement is a loop. -/
def isLoop :
    Stmt → Bool
  | .forEach .. => true
  | _ => false

/-- Whether a loop with this action does nothing with its elements. -/
def isEmptyAction :
    Option Stmt → Bool
  | none => true
  | some action => action.isEmptyBlock || action.isEmptyStmt

/-- The statements before the first one no path reaches. -/
def reachable
    (facts : BlockFacts)
    (stmts : List Stmt) :
    List Stmt :=
  match facts.unreachableFrom with
  | some first => stmts.take first
  | none => stmts

end Stmt

/-- A statement list in braces. -/
structure Block where
  span : Span
  stmts : List Stmt
  facts : BlockFacts
  deriving Repr

/-- A type parameter as it is declared. -/
structure TypeParam where
  name : String
  bound : Option TypeExpr
  deriving Repr

/-- A method parameter. -/
structure Param where
  name : Spanned String
  type : TypeExpr
  isFinal : Bool
  binding : Option LocalId
  deriving Repr

/-- A static method with a body. -/
structure Method where
  name : Spanned String
  typeParams : List TypeParam
  params : List Param
  returnType : Option TypeExpr
  body : Block
  deriving Repr

/-- The block of statements that a method executes. -/
def Method.block
    (method : Method) :
    Stmt :=
  .block method.body.span method.body.stmts method.body.facts

/-- An instance method known only by its signature. -/
structure MethodSignature where
  name : String
  params : List TypeExpr
  returnType : Option TypeExpr
  deriving Repr

/-- A class or interface known only by its signature. -/
structure ClassDecl where
  name : Spanned String
  typeParams : List TypeParam
  isInterface : Bool
  superclass : Option TypeExpr
  interfaces : List TypeExpr
  methods : List MethodSignature
  deriving Repr

/-- A static function known only by its signature. -/
structure FunctionDecl where
  name : Spanned String
  params : List TypeExpr
  returnType : Option TypeExpr
  deriving Repr

/-- The declarations compiled together. -/
structure CompilationUnit where
  /-- The class that owns the static functions and methods. -/
  name : String
  /-- The text the positions refer to. -/
  source : Option String
  classes : List (Spanned ClassDecl)
  functions : List (Spanned FunctionDecl)
  methods : List (Spanned Method)
  deriving Repr

end LoopLowering
