import LoopLowering.Source.Handles
import LoopLowering.Source.Span
import LoopLowering.Types.Ty

namespace LoopLowering

/-!
# Local variables and block scopes

The locals of a method live in a tree of block scopes. A name refers to the
most recent local of that name in the innermost scope that declares one. Locals
introduced by the compiler have names that start with a blank, which no source
name does.
-/

/-- A local variable. -/
structure LocalVariable where
  name : String
  type : Ty
  scope : ScopeId
  isFinal : Bool
  isParam : Bool
  /-- The compiler introduced the local. -/
  isSynthetic : Bool
  isUsed : Bool
  /-- The first frame slot; a local without one does not exist in the code. -/
  slot : Option UInt16
  span : Span
  deriving Repr, DecidableEq, Inhabited

namespace LocalVariable

/-- A local as the source declares it. -/
def declared
    (name : String)
    (type : Ty)
    (span : Span) :
    LocalVariable where
  name := name
  type := type
  scope := 0
  isFinal := false
  isParam := false
  isSynthetic := false
  isUsed := false
  slot := none
  span := span

/-- A local introduced by the compiler. -/
def synthetic
    (name : String)
    (type : Ty)
    (span : Span) :
    LocalVariable :=
  { declared name type span with isSynthetic := true }

/-- The number of frame slots of a local. -/
def width
    (entry : LocalVariable) :
    UInt16 :=
  if entry.type.isWide then 2 else 1

/-- Whether a local exists in the generated code: parameters and used locals
always do, and other source locals on request. -/
def isMaterialized
    (keepUnused : Bool)
    (entry : LocalVariable) :
    Bool :=
  entry.isParam || entry.isUsed || (keepUnused && !entry.isSynthetic)

end LocalVariable

/-- A block scope with the locals it declares and the scopes directly inside. -/
structure BlockScope where
  parent : Option ScopeId
  locals : List LocalId
  children : List ScopeId
  deriving Repr, DecidableEq, Inhabited

/-- The locals and block scopes of one method. -/
structure MethodScope where
  locals : Array LocalVariable
  blocks : Array BlockScope
  /-- The number of frame slots, once slots are assigned. -/
  frameSize : UInt16
  deriving Repr

namespace MethodScope

/-- The scope of the parameters and of the method body. -/
def root :
    ScopeId :=
  0

/-- A method without locals, whose only scope is that of its body. -/
def initial :
    MethodScope where
  locals := #[]
  blocks := #[⟨none, [], []⟩]
  frameSize := 0

/-- The local of a number. -/
def localAt
    (scope : MethodScope)
    (id : LocalId) :
    LocalVariable :=
  scope.locals[id]?.getD default

/-- The block scope of a number. -/
def block
    (scope : MethodScope)
    (id : ScopeId) :
    BlockScope :=
  scope.blocks[id]?.getD default

/-- The number the next block scope gets. -/
def nextBlock
    (scope : MethodScope) :
    ScopeId :=
  scope.blocks.size

/-- The number the next local gets. -/
def nextLocal
    (scope : MethodScope) :
    LocalId :=
  scope.locals.size

/-- Open a block scope inside another. -/
def openBlock
    (parent : ScopeId)
    (scope : MethodScope) :
    MethodScope :=
  { scope with
    blocks := (scope.blocks.push ⟨some parent, [], []⟩).modify parent (fun entry =>
      { entry with children := entry.children ++ [scope.nextBlock] }) }

/-- Record in a block scope that it declares a local. -/
def recordLocal
    (block : ScopeId)
    (id : LocalId)
    (blocks : Array BlockScope) :
    Array BlockScope :=
  blocks.modify block (fun entry => { entry with locals := entry.locals ++ [id] })

/-- Declare a local in a block scope. -/
def declare
    (block : ScopeId)
    (entry : LocalVariable)
    (scope : MethodScope) :
    MethodScope :=
  let id := scope.nextLocal
  { scope with
    locals := scope.locals.push { entry with scope := block }
    blocks := recordLocal block id scope.blocks }

/-- Change one local. -/
def modifyLocal
    (id : LocalId)
    (change : LocalVariable → LocalVariable)
    (scope : MethodScope) :
    MethodScope :=
  { scope with locals := scope.locals.modify id change }

/-- Record that a local is used. -/
def markUsed
    (id : LocalId)
    (scope : MethodScope) :
    MethodScope :=
  scope.modifyLocal id (fun entry => { entry with isUsed := true })

/-- The first scopes met on the way from a scope to the root. -/
def enclosingWithin
    (blocks : Array BlockScope) :
    (steps : Nat) → ScopeId → List ScopeId
  | 0, id => [id]
  | steps + 1, id =>
      id ::
        match (blocks[id]?.getD default).parent with
        | some parent => enclosingWithin blocks steps parent
        | none => []

/-- A scope and the scopes around it, innermost first. A scope is younger than
the one around it, so there are no more of them than scopes before it. -/
def enclosing
    (scope : MethodScope)
    (id : ScopeId) :
    List ScopeId :=
  enclosingWithin scope.blocks id id

/-- Whether a scope is another one or nested inside it. -/
def isWithin
    (scope : MethodScope)
    (id ancestor : ScopeId) :
    Bool :=
  (scope.enclosing id).contains ancestor

/-- The most recent local of a name among the locals of one scope. -/
def lookupIn
    (scope : MethodScope)
    (name : String)
    (id : ScopeId) :
    Option LocalId :=
  (scope.block id).locals.foldl
    (fun found candidate =>
      if (scope.localAt candidate).name == name then some candidate else found)
    none

/-- The local a name refers to in a scope. -/
def lookup
    (scope : MethodScope)
    (id : ScopeId)
    (name : String) :
    Option LocalId :=
  (scope.enclosing id).findSome? (scope.lookupIn name)

/-- Whether a local exists in the generated code. -/
def isMaterialized
    (scope : MethodScope)
    (keepUnused : Bool)
    (id : LocalId) :
    Bool :=
  (scope.localAt id).isMaterialized keepUnused

end MethodScope

end LoopLowering
