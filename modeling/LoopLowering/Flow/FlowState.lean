import LoopLowering.Flow.NullFacts
import LoopLowering.Flow.VarSet

namespace LoopLowering

/-!
# Flow states

What is known at a program point: whether any path reaches it, which locals
every path has assigned, which locals some path may have assigned, and which
references are null. At a point no path reaches, every local counts as
assigned.
-/

/-- What is known at a program point. -/
structure FlowState where
  reachable : Bool
  /-- The locals assigned on every path. -/
  definite : VarSet
  /-- The locals assigned on some path. -/
  potential : VarSet
  nulls : NullFacts
  deriving Repr, DecidableEq, Inhabited

namespace FlowState

/-- Before anything has been assigned. -/
def initial :
    FlowState where
  reachable := true
  definite := .empty
  potential := .empty
  nulls := []

/-- After a jump or return, where no path goes on. -/
def deadEnd :
    FlowState :=
  { initial with reachable := false }

/-- Whether no path reaches a point and nothing is known to be assigned. -/
def isDeadEnd
    (state : FlowState) :
    Bool :=
  !state.reachable && state.definite.isEmpty && state.potential.isEmpty && state.nulls.isEmpty

/-- The same facts at a point no path reaches. -/
def unreachable
    (state : FlowState) :
    FlowState :=
  { state with reachable := false }

/-- Record an assignment. -/
def assign
    (id : LocalId)
    (state : FlowState) :
    FlowState :=
  { state with
    definite := state.definite.insert id
    potential := state.potential.insert id }

/-- Whether a local is assigned on every path that reaches the point. -/
def isAssigned
    (state : FlowState)
    (id : LocalId) :
    Bool :=
  !state.reachable || state.definite.contains id

/-- Whether a local is assigned on some path. -/
def mayBeAssigned
    (state : FlowState)
    (id : LocalId) :
    Bool :=
  state.potential.contains id

/-- What is known about a reference. -/
def nullStatus
    (state : FlowState)
    (id : LocalId) :
    NullStatus :=
  state.nulls.status id

/-- Replace what is known about a reference. -/
def setNull
    (id : LocalId)
    (status : NullStatus)
    (state : FlowState) :
    FlowState :=
  { state with nulls := state.nulls.set id status }

/-- The same point with nothing known about references. -/
def withoutNulls
    (state : FlowState) :
    FlowState :=
  { state with nulls := [] }

/-- Where two paths meet. A side that is not reached only adds what it may have
assigned. -/
def merge
    (first second : FlowState) :
    FlowState :=
  let potential := first.potential.union second.potential
  match first.reachable, second.reachable with
  | true, true =>
      { reachable := true
        definite := first.definite.inter second.definite
        potential := potential
        nulls := first.nulls.join second.nulls }
  | true, false => { first with potential := potential }
  | false, true => { second with potential := potential }
  | false, false =>
      { reachable := false
        definite := first.definite.inter second.definite
        potential := potential
        nulls := [] }

/-- After code that has certainly run. A dead end adds nothing, and only a
point that is reached tells something about references. -/
def afterRun
    (state run : FlowState) :
    FlowState :=
  if run.isDeadEnd then
    state
  else
    { state with
      definite := state.definite.union run.definite
      potential := state.potential.union run.potential
      nulls := if run.reachable then state.nulls.override run.nulls else state.nulls }

/-- After code that may have run. -/
def afterOptional
    (state optional : FlowState) :
    FlowState :=
  { state with
    potential := state.potential.union optional.potential
    nulls :=
      if optional.reachable then state.nulls.afterOptional optional.nulls else state.nulls }

/-- Where two branches meet when one may be known never to be taken. Such a
branch counts as code that may have run around the other; when it is a dead end
and dead branches may be simulated, the other branch is kept but not reached. -/
def mergeBranches
    (first : FlowState)
    (firstSkipped : Bool)
    (second : FlowState)
    (secondSkipped simulateDead : Bool) :
    FlowState :=
  if firstSkipped then
    if first.isDeadEnd && simulateDead then second.unreachable else first.afterOptional second
  else if secondSkipped then
    if second.isDeadEnd && simulateDead then first.unreachable else second.afterOptional first
  else
    first.merge second

end FlowState

/-- The flow states recorded for a method, in the order they were recorded. -/
abbrev Checkpoints := Array FlowState

end LoopLowering
