import LoopLowering.Flow.FlowState
import LoopLowering.Locals.MethodScope

namespace LoopLowering

/-!
# Enclosing jump targets

Flow analysis keeps a stack of the loops and labeled statements around the
statement it looks at, innermost first. Each collects the states that reach it
by a jump. A loop also collects what can only be judged once its last statement
is known: assignments to final locals from outside, which a further iteration
would repeat, and uses of references whose nullness depends on an earlier
iteration.
-/

/-- A loop around the statement looked at. -/
structure LoopRecord where
  /-- The block scope of the loop itself. -/
  scope : ScopeId
  /-- The state in which the loop is entered. -/
  onEntry : FlowState
  onBreak : FlowState
  onContinue : FlowState
  /-- Assignments to final locals declared outside the loop. -/
  deferredFinals : List (LocalId × Span)
  /-- Uses of references declared outside the loop. -/
  deferredNulls : List (LocalId × Span)
  deriving Repr

namespace LoopRecord

/-- A loop that has just been entered. -/
def entered
    (scope : ScopeId)
    (onEntry : FlowState) :
    LoopRecord where
  scope := scope
  onEntry := onEntry
  onBreak := .deadEnd
  onContinue := .deadEnd
  deferredFinals := []
  deferredNulls := []

/-- A break that leaves the loop. -/
def addBreak
    (state : FlowState)
    (loop : LoopRecord) :
    LoopRecord :=
  { loop with onBreak := loop.onBreak.merge state }

/-- A continue that resumes the loop. -/
def addContinue
    (state : FlowState)
    (loop : LoopRecord) :
    LoopRecord :=
  { loop with onContinue := loop.onContinue.merge state }

end LoopRecord

/-- A labeled statement around the statement looked at. -/
structure LabelRecord where
  name : String
  /-- The labeled statement is itself a loop. -/
  labelsLoop : Bool
  onBreak : FlowState
  deriving Repr

namespace LabelRecord

/-- A labeled statement that has just been entered. -/
def entered
    (name : String)
    (labelsLoop : Bool) :
    LabelRecord :=
  ⟨name, labelsLoop, .deadEnd⟩

/-- A break that leaves the labeled statement. -/
def addBreak
    (state : FlowState)
    (label : LabelRecord) :
    LabelRecord :=
  { label with onBreak := label.onBreak.merge state }

end LabelRecord

/-- A statement that jumps can target. -/
inductive JumpRecord where
  | loop (record : LoopRecord)
  | label (record : LabelRecord)
  deriving Repr

/-- Why a jump has no target. -/
inductive JumpError where
  | breakOutsideLoop
  | continueOutsideLoop
  | undefinedLabel (name : String)
  | notALoop (name : String)
  deriving Repr, DecidableEq

namespace JumpError

/-- The text of a jump error. -/
def message :
    JumpError → String
  | .breakOutsideLoop => "break cannot be used outside of a loop or a switch"
  | .continueOutsideLoop => "continue cannot be used outside of a loop"
  | .undefinedLabel name => "The label " ++ name ++ " is missing"
  | .notALoop name =>
      "continue cannot be used with label " ++ name ++ ", which does not label a loop"

end JumpError

/-- The jump targets around a statement, innermost first. -/
abbrev JumpStack := List JumpRecord

namespace JumpStack

/-- Enter a loop. -/
def pushLoop
    (scope : ScopeId)
    (onEntry : FlowState)
    (stack : JumpStack) :
    JumpStack :=
  .loop (.entered scope onEntry) :: stack

/-- Enter a labeled statement. -/
def pushLabel
    (name : String)
    (labelsLoop : Bool)
    (stack : JumpStack) :
    JumpStack :=
  .label (.entered name labelsLoop) :: stack

/-- Leave a loop. The stack is kept when the innermost target is not a loop. -/
def popLoop :
    JumpStack → Option LoopRecord × JumpStack
  | .loop record :: stack => (some record, stack)
  | stack => (none, stack)

/-- Leave a labeled statement. The stack is kept when the innermost target is
not a label. -/
def popLabel :
    JumpStack → Option LabelRecord × JumpStack
  | .label record :: stack => (some record, stack)
  | stack => (none, stack)

/-- The innermost loop. -/
def innermostLoop? :
    JumpStack → Option LoopRecord
  | [] => none
  | .loop record :: _ => some record
  | .label _ :: stack => innermostLoop? stack

/-- Change the innermost loop, if there is one. -/
def changeLoop
    (change : LoopRecord → LoopRecord) :
    JumpStack → Option JumpStack
  | [] => none
  | .loop record :: stack => some (.loop (change record) :: stack)
  | .label record :: stack => (changeLoop change stack).map (.label record :: ·)

/-- Change the innermost labeled statement of a name, if there is one. -/
def changeLabel
    (name : String)
    (change : LabelRecord → LabelRecord) :
    JumpStack → Option JumpStack
  | [] => none
  | .loop record :: stack => (changeLabel name change stack).map (.loop record :: ·)
  | .label record :: stack =>
      if record.name = name then
        some (.label (change record) :: stack)
      else
        (changeLabel name change stack).map (.label record :: ·)

/-- Record a break in the statement it leaves. -/
def recordBreak
    (label : Option String)
    (state : FlowState)
    (stack : JumpStack) :
    Except JumpError JumpStack :=
  match label with
  | none =>
      match stack.changeLoop (.addBreak state) with
      | some stack => .ok stack
      | none => .error .breakOutsideLoop
  | some name =>
      match stack.changeLabel name (.addBreak state) with
      | some stack => .ok stack
      | none => .error (.undefinedLabel name)

/-- Record a labeled continue in the loop directly inside the label. -/
def recordContinueTo
    (name : String)
    (state : FlowState) :
    JumpStack → Except JumpError JumpStack
  | [] => .error (.undefinedLabel name)
  | .label record :: stack =>
      if record.name = name then
        .error (.notALoop name)
      else
        (recordContinueTo name state stack).map (.label record :: ·)
  | .loop inner :: .label record :: stack =>
      if record.name = name then
        if record.labelsLoop then
          .ok (.loop (inner.addContinue state) :: .label record :: stack)
        else
          .error (.notALoop name)
      else
        (recordContinueTo name state (.label record :: stack)).map (.loop inner :: ·)
  | .loop inner :: stack => (recordContinueTo name state stack).map (.loop inner :: ·)

/-- Record a continue in the loop it resumes. -/
def recordContinue
    (label : Option String)
    (state : FlowState)
    (stack : JumpStack) :
    Except JumpError JumpStack :=
  match label with
  | none =>
      match stack.changeLoop (.addContinue state) with
      | some stack => .ok stack
      | none => .error .continueOutsideLoop
  | some name => stack.recordContinueTo name state

/-- Defer an assignment to a final local to every loop around it that does not
declare the local. -/
def deferFinal
    (scopes : MethodScope)
    (id : LocalId)
    (declaredIn : ScopeId)
    (span : Span) :
    JumpStack → JumpStack
  | [] => []
  | .label record :: stack => .label record :: deferFinal scopes id declaredIn span stack
  | .loop record :: stack =>
      if scopes.isWithin declaredIn record.scope then
        .loop record :: stack
      else
        .loop { record with deferredFinals := record.deferredFinals ++ [(id, span)] } ::
          deferFinal scopes id declaredIn span stack

/-- Defer the use of a reference declared outside the innermost loop to that
loop. -/
def deferNull
    (scopes : MethodScope)
    (id : LocalId)
    (declaredIn : ScopeId)
    (span : Span) :
    JumpStack → JumpStack
  | [] => []
  | .label record :: stack => .label record :: deferNull scopes id declaredIn span stack
  | .loop record :: stack =>
      if scopes.isWithin declaredIn record.scope then
        .loop record :: stack
      else
        .loop { record with deferredNulls := record.deferredNulls ++ [(id, span)] } :: stack

end JumpStack

end LoopLowering
