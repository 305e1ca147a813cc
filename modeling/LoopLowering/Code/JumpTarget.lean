import LoopLowering.Code.CodegenError

namespace LoopLowering

/-!
# Targets of jumps

While the code of a statement is generated, the loops and labeled statements
around it are known by the branch targets that leave or continue them,
innermost first.
-/

/-- A statement that jumps can target. -/
inductive JumpTarget where
  | label (name : String) (onBreak : Label) (labelsLoop : Bool)
  /-- A loop that never comes back for another element cannot be continued. -/
  | loop (onBreak : Label) (onContinue : Option Label)
  deriving Repr, DecidableEq

namespace JumpTarget

/-- The branch target of a break, if it breaks out of this statement. -/
def breakLabel?
    (wanted : Option String) :
    JumpTarget → Option Label
  | .loop onBreak _ => if wanted.isNone then some onBreak else none
  | .label name onBreak _ => if wanted = some name then some onBreak else none

/-- Whether a statement is a loop. -/
def isLoop :
    JumpTarget → Bool
  | .loop .. => true
  | .label .. => false

/-- Whether a statement is a loop's label of a name. -/
def labelsLoopAs
    (wanted : String) :
    JumpTarget → Bool
  | .label name _ labelsLoop => labelsLoop && name == wanted
  | .loop .. => false

/-- The branch target that continues a statement, if it can be continued. -/
def continueLabel? :
    JumpTarget → Option Label
  | .loop _ onContinue => onContinue
  | .label .. => none

/-- The branch target of a break among the statements around it. -/
def ofBreak
    (targets : List JumpTarget)
    (wanted : Option String) :
    Except CodegenError Label :=
  match targets.findSome? (breakLabel? wanted) with
  | some found => .ok found
  | none => .error .breakWithoutTarget

/-- The statement directly inside the innermost one that passes a test, given
the one inside the first. -/
def insideOf?
    (test : JumpTarget → Bool) :
    (inside : Option JumpTarget) → List JumpTarget → Option JumpTarget
  | _, [] => none
  | inside, target :: outer => if test target then inside else insideOf? test (some target) outer

/-- The loop that a continue goes on with: the innermost one, or the one
directly inside its label. -/
def continued?
    (targets : List JumpTarget) :
    (wanted : Option String) → Option JumpTarget
  | none => targets.find? isLoop
  | some name => insideOf? (labelsLoopAs name) none targets

/-- The branch target of a continue among the statements around it. -/
def ofContinue
    (targets : List JumpTarget)
    (wanted : Option String) :
    Except CodegenError Label :=
  match (continued? targets wanted).bind continueLabel? with
  | some found => .ok found
  | none => .error .continueWithoutTarget

end JumpTarget

end LoopLowering
