import LoopLowering.MethodState

namespace LoopLowering

/-!
# Resolving names and types in a method

The steps from which resolution is built: a written type becomes a type, a name
is bound to a local, and a declaration makes a local. Each reports what fails
and goes on.
-/

/-- A node after resolution, with its type and the state that follows. -/
structure Checked (α : Type) where
  node : α
  type : Ty
  state : MethodState

/-- Resolve a written type; a type that fails to resolve is unknown. -/
def resolveType
    (table : ClassTable)
    (type : TypeExpr)
    (state : MethodState) :
    Ty × MethodState :=
  match table.resolve state.typeVars type with
  | .ok ty => (ty, state)
  | .error cause => (.unknown, state.report (.unknownType cause) type.span)

/-- Report a value that does not convert to the type it is used at. -/
def checkConverts
    (table : ClassTable)
    (source target : Ty)
    (span : Span)
    (state : MethodState) :
    MethodState :=
  state.reportIf (!table.converts source target) (.notConvertible source target) span

/-- Declare a local of a name. The name may not be visible already. -/
def declareLocal
    (scope : ScopeId)
    (entry : LocalVariable)
    (state : MethodState) :
    LocalId × MethodState :=
  let reported :=
    state.reportIf (state.scope.lookup scope entry.name).isSome (.duplicateLocal entry.name)
      entry.span
  (reported.scope.nextLocal, reported.mapScope (.declare scope entry))

/-- Bind a use of a name to the local it refers to. -/
def bindName
    (scope : ScopeId)
    (span : Span)
    (ref : NameRef)
    (state : MethodState) :
    NameRef × MethodState :=
  let found := state.scope.lookup scope ref.name
  ({ ref with binding := found },
    state.reportIf found.isNone (.undefinedVariable ref.name) span)

/-- Record a use of the local a name is bound to, if it is bound. -/
def markUse
    (binding : Option LocalId)
    (state : MethodState) :
    MethodState :=
  match binding with
  | some id => state.mapScope (.markUsed id)
  | none => state

/-- The type of the local a name is bound to; that of an unbound name is
unknown. -/
def bindingType
    (state : MethodState)
    (binding : Option LocalId) :
    Ty :=
  match binding with
  | some id => (state.localAt id).type
  | none => .unknown

/-- Declare the variable of a local declaration, without its initial value. -/
def checkDeclaration
    (table : ClassTable)
    (scope : ScopeId)
    (decl : LocalDecl)
    (state : MethodState) :
    Checked LocalDecl :=
  let (type, resolved) := resolveType table decl.type state
  let (id, declared) :=
    declareLocal scope
      { LocalVariable.declared decl.name.node type decl.name.span with isFinal := decl.isFinal }
      resolved
  ⟨{ decl with binding := some id }, type, declared⟩

end LoopLowering
