import LoopLowering.Proofs.Execution.Crossings
import LoopLowering.Proofs.Execution.Values
import Mathlib.Logic.Relation

namespace LoopLowering

/-!
# Integer types and numbers

A variable of an integer type holds the values in a range, and a result that is out of
the range is narrowed to the one value in it that differs by a multiple of the size of
the range. A machine has numbers of two widths only, so that it carries the three small
types in the range of another one.
-/

/-- An integer type of the language. -/
inductive IntegerType where
  | byte
  | short
  | char
  | int
  | long
  deriving Repr, DecidableEq

namespace IntegerType

/-- The primitive type that an integer type is. -/
def primitive :
    IntegerType → Primitive
  | byte => .byte
  | short => .short
  | char => .char
  | int => .int
  | long => .long

/-- The type in which an operator works on two integers. -/
def promote :
    IntegerType → IntegerType → IntegerType
  | long, _ | _, long => long
  | _, _ => int

/-- The type in whose range a machine carries the values of a type. -/
def carrier :
    IntegerType → IntegerType
  | long => long
  | byte | short | char | int => int

/-- The least value of a type. -/
def least :
    IntegerType → Int
  | byte => -0x80
  | short => -0x8000
  | char => 0
  | int => -0x80000000
  | long => -0x8000000000000000

/-- The number of values of a type. -/
def size :
    IntegerType → Int
  | byte => 0x100
  | short | char => 0x10000
  | int => 0x100000000
  | long => 0x10000000000000000

/-- Whether a value is in the range of a type. -/
def Holds
    (type : IntegerType)
    (value : Int) :
    Prop :=
  type.least ≤ value ∧ value < type.least + type.size

instance (type : IntegerType) (value : Int) : Decidable (type.Holds value) :=
  inferInstanceAs (Decidable (_ ∧ _))

/-- Narrow a value to the range of a type. -/
def narrow
    (type : IntegerType)
    (value : Int) :
    Int :=
  type.least + (value - type.least) % type.size

variable
  {type : IntegerType}
  {value : Int}

@[simp] theorem isNumeric_primitive
    (type : IntegerType) :
    type.primitive.isNumeric = true := by
  cases type <;> rfl

@[simp] theorem promote_primitive
    (left right : IntegerType) :
    left.primitive.promote right.primitive = (left.promote right).primitive := by
  cases left <;> cases right <;> rfl

@[simp] theorem carrier_promote
    (left right : IntegerType) :
    (left.promote right).carrier = left.promote right := by
  cases left <;> cases right <;> rfl

/-- A type has values. -/
theorem size_pos
    (type : IntegerType) :
    0 < type.size := by
  cases type <;> decide

/-- What is narrowed is in the range. -/
theorem holds_narrow
    (type : IntegerType)
    (value : Int) :
    type.Holds (type.narrow value) := by
  have notNegative := Int.emod_nonneg (value - type.least) (Int.ne_of_gt type.size_pos)
  have small := Int.emod_lt_of_pos (value - type.least) type.size_pos
  simp only [Holds, narrow]
  omega

/-- A value in the range stays what it is. -/
theorem narrow_of_holds
    (holds : type.Holds value) :
    type.narrow value = value := by
  obtain ⟨atLeast, below⟩ := holds
  rw [narrow, Int.emod_eq_of_lt (by omega) (by omega)]
  omega

/-- A value stays what it is exactly if it is in the range. -/
theorem eq_narrow_iff :
    value = type.narrow value ↔ type.Holds value := by
  constructor
  · intro same
    rw [same]
    exact type.holds_narrow value
  · intro holds
    exact (narrow_of_holds holds).symm

/-- Carrying a value in a larger range before it is narrowed changes nothing. -/
theorem narrow_narrow_carrier
    (type : IntegerType)
    (value : Int) :
    type.narrow (type.carrier.narrow value) = type.narrow value := by
  cases type <;> simp only [narrow, carrier, least, size] <;> omega

/-- What is carried for an operand is in the range that the operator works in. -/
theorem holds_promote
    (holds : type.carrier.Holds value)
    (other : IntegerType) :
    (type.promote other).Holds value ∧ (other.promote type).Holds value := by
  cases type <;> cases other <;>
    simp only [Holds, carrier, promote, least, size] at holds ⊢ <;> omega

end IntegerType

namespace ArithOp

/-- The result of an operation on two integers without a bound. -/
def onIntegers :
    ArithOp → Int → Int → Int
  | .add, left, right => left + right
  | .sub, left, right => left - right
  | .mul, left, right => left * right

/-- The result of an operation on two integers of the larger width. -/
def wideResult :
    ArithOp → Int64 → Int64 → Int64
  | .add, left, right => left + right
  | .sub, left, right => left - right
  | .mul, left, right => left * right

/-- The result of an operation in the type that the operands are promoted to. -/
def promoted
    (op : ArithOp)
    (left right : IntegerType)
    (first second : Int) :
    Int :=
  (left.promote right).narrow (op.onIntegers first second)

/-- What the language assigns to a variable by a compound assignment: the result of the
operation, narrowed to the type of the variable. -/
def assigned
    (op : ArithOp)
    (target value : IntegerType)
    (held given : Int) :
    Int :=
  target.narrow (op.promoted target value held given)

end ArithOp

/-- A number of one of the two widths that a machine has. -/
inductive Number where
  | int (value : Int32)
  | long (value : Int64)
  deriving Repr, DecidableEq

namespace Number

/-- The type whose values are the numbers of the width of a number. -/
def type :
    Number → IntegerType
  | .int _ => .int
  | .long _ => .long

/-- The integer that a number is. -/
def toInt :
    Number → Int
  | .int value => value.toInt
  | .long value => value.toInt

/-- The number as which a machine carries a value of a type. -/
def ofInt :
    IntegerType → Int → Number
  | .long, value => .long (.ofInt value)
  | .byte, value | .short, value | .char, value | .int, value => .int (.ofInt value)

/-- The number that a conversion between kinds makes of another. -/
def convert? :
    (source target : ValueKind) → Number → Option Number
  | .int, .long, .int value => some (.long value.toInt64)
  | .long, .int, .long value => some (.int value.toInt32)
  | _, _, _ => none

/-- The number that an operation on a kind makes of two. -/
def combine?
    (op : ArithOp) :
    ValueKind → Number → Number → Option Number
  | .int, .int left, .int right => some (.int (op.result left right))
  | .long, .long left, .long right => some (.long (op.wideResult left right))
  | _, _, _ => none

@[simp] theorem carrier_type
    (number : Number) :
    number.type.carrier = number.type := by
  cases number <;> rfl

@[simp] theorem type_ofInt
    (type : IntegerType)
    (value : Int) :
    (ofInt type value).type = type.carrier := by
  cases type <;> rfl

/-- An integer of the smaller width is the value narrowed to it. -/
theorem toInt_ofInt_int
    (value : Int) :
    (Int32.ofInt value).toInt = IntegerType.int.narrow value := by
  rw [Int32.toInt_ofInt, Int.bmod_def]
  simp only [Int32.size, IntegerType.narrow, IntegerType.least, IntegerType.size]
  split <;> omega

/-- An integer of the larger width is the value narrowed to it. -/
theorem toInt_ofInt_long
    (value : Int) :
    (Int64.ofInt value).toInt = IntegerType.long.narrow value := by
  rw [Int64.toInt_ofInt, Int.bmod_def]
  simp only [Int64.size, IntegerType.narrow, IntegerType.least, IntegerType.size]
  split <;> omega

@[simp] theorem toInt_ofInt
    (type : IntegerType)
    (value : Int) :
    (ofInt type value).toInt = type.carrier.narrow value := by
  cases type <;> first | exact toInt_ofInt_int value | exact toInt_ofInt_long value

/-- A number is the one that its integer is carried as. -/
theorem ofInt_toInt
    {number : Number}
    {type : IntegerType}
    (isCarried : number.type = type.carrier) :
    ofInt type number.toInt = number := by
  cases number <;> cases type <;>
    first
    | exact congrArg Number.int (Int32.ofInt_toInt _)
    | exact congrArg Number.long (Int64.ofInt_toInt _)
    | cases isCarried

/-- A value is carried as it is narrowed to the width. -/
theorem ofInt_narrow
    (type : IntegerType)
    (value : Int) :
    ofInt type (type.carrier.narrow value) = ofInt type value := by
  rw [← toInt_ofInt, ofInt_toInt (type_ofInt type value)]

/-- A number is in the range of its width. -/
theorem holds_toInt
    (number : Number) :
    number.type.Holds number.toInt := by
  rw [← ofInt_toInt (number.carrier_type).symm, toInt_ofInt, carrier_type, type_ofInt, carrier_type]
  exact IntegerType.holds_narrow _ _

/-- Of each kind of numbers there is one width. -/
theorem ofPrimitive_eq_iff
    (first second : IntegerType) :
    ValueKind.ofPrimitive first.primitive = .ofPrimitive second.primitive ↔
      first.carrier = second.carrier := by
  cases first <;> cases second <;> decide

/-- A conversion carries the same value for another type. -/
theorem convert?_eq
    {number : Number}
    {source target : IntegerType}
    (isCarried : number.type = source.carrier)
    (different : source.carrier ≠ target.carrier) :
    number.convert? (.ofPrimitive source.primitive) (.ofPrimitive target.primitive) =
      some (ofInt target number.toInt) := by
  cases number with
  | int value =>
      have isLong : target = .long := by
        cases source <;> cases target <;> simp_all [type, IntegerType.carrier]
      subst isLong
      have isInt : ValueKind.ofPrimitive source.primitive = .int := by
        cases source <;> first | rfl | cases isCarried
      rw [isInt]
      exact congrArg (some ∘ Number.long) (Int64.ofInt_int32ToInt value).symm
  | long value =>
      obtain rfl : source = .long := by
        cases source <;> first | rfl | cases isCarried
      cases target with
      | long =>
          exact absurd rfl different
      | _ =>
          exact congrArg (some ∘ Number.int) (Int32.ofInt_int64ToInt value).symm

/-- An operation carries its result, narrowed to the width of its operands. -/
theorem combine?_eq
    (op : ArithOp)
    {type : IntegerType}
    {left right : Number}
    (leftCarried : left.type = type.carrier)
    (rightCarried : right.type = type.carrier) :
    combine? op (.ofPrimitive type.primitive) left right =
      some (ofInt type (op.onIntegers left.toInt right.toInt)) := by
  cases left with
  | int first =>
      cases right with
      | long second =>
          cases rightCarried.trans leftCarried.symm
      | int second =>
          have isResult : op.result first second =
              .ofInt (op.onIntegers first.toInt second.toInt) := by
            cases op <;> simp [ArithOp.result, ArithOp.onIntegers, Int32.ofInt_add,
              Int32.ofInt_sub, Int32.ofInt_mul]
          cases type <;> first
            | exact congrArg (some ∘ Number.int) isResult
            | cases leftCarried
  | long first =>
      cases right with
      | int second =>
          cases rightCarried.trans leftCarried.symm
      | long second =>
          have isResult : op.wideResult first second =
              .ofInt (op.onIntegers first.toInt second.toInt) := by
            cases op <;> simp [ArithOp.wideResult, ArithOp.onIntegers, Int64.ofInt_add,
              Int64.ofInt_sub, Int64.ofInt_mul]
          cases type <;> first
            | exact congrArg (some ∘ Number.long) isResult
            | cases leftCarried

end Number

/-!
## A machine for numbers

A machine that computes with numbers of both widths. A number is one operand and is in
one slot, whatever its width. What else there is on the stack and in the slots, what is
behind it, and what the instructions do that are not about numbers is left open: all of
it comes from the surroundings.
-/

/-- A machine on its way through the code of a method. Its operands and its slots hold
numbers and other things. The top of the stack comes first. -/
structure NumberMachine (Other World : Type) where
  slots : UInt16 → Option (Number ⊕ Other)
  stack : List (Number ⊕ Other)
  world : World

/-- What the instructions do that are not about numbers, and where they go on. -/
abbrev Surroundings (Other World : Type) :=
  MethodCode → Instruction → Nat × NumberMachine Other World →
    Option (Nat × NumberMachine Other World)

variable
  {Other World : Type}

namespace NumberMachine

/-- Replace the operands. -/
def withStack
    (machine : NumberMachine Other World)
    (stack : List (Number ⊕ Other)) :
    NumberMachine Other World :=
  { machine with stack := stack }

/-- Push a number. -/
def push
    (machine : NumberMachine Other World)
    (number : Number) :
    NumberMachine Other World :=
  machine.withStack (.inl number :: machine.stack)

/-- Put a number in a slot. -/
def putSlot
    (machine : NumberMachine Other World)
    (slot : UInt16)
    (number : Number) :
    NumberMachine Other World :=
  { machine with slots := Function.update machine.slots slot (some (.inl number)) }

@[simp] theorem withStack_withStack
    (machine : NumberMachine Other World)
    (first second : List (Number ⊕ Other)) :
    (machine.withStack first).withStack second = machine.withStack second :=
  rfl

@[simp] theorem stack_withStack
    (machine : NumberMachine Other World)
    (stack : List (Number ⊕ Other)) :
    (machine.withStack stack).stack = stack :=
  rfl

@[simp] theorem slots_withStack
    (machine : NumberMachine Other World)
    (stack : List (Number ⊕ Other)) :
    (machine.withStack stack).slots = machine.slots :=
  rfl

@[simp] theorem push_withStack
    (machine : NumberMachine Other World)
    (stack : List (Number ⊕ Other))
    (number : Number) :
    (machine.withStack stack).push number = machine.withStack (.inl number :: stack) :=
  rfl

@[simp] theorem putSlot_withStack
    (machine : NumberMachine Other World)
    (stack : List (Number ⊕ Other))
    (slot : UInt16)
    (number : Number) :
    (machine.withStack stack).putSlot slot number =
      (machine.putSlot slot number).withStack stack :=
  rfl

@[simp] theorem slots_putSlot
    (machine : NumberMachine Other World)
    (slot : UInt16)
    (number : Number) :
    (machine.putSlot slot number).slots slot = some (.inl number) :=
  Function.update_self slot _ _

end NumberMachine

namespace Number

/-- The kind of a number. -/
def kind
    (number : Number) :
    ValueKind :=
  .ofPrimitive number.type.primitive

/-- A number is of the kind of the types that are carried as it is. -/
theorem kind_eq
    {number : Number}
    {type : IntegerType}
    (isCarried : number.type = type.carrier) :
    number.kind = .ofPrimitive type.primitive :=
  (ofPrimitive_eq_iff _ _).mpr (number.carrier_type.trans isCarried)

end Number

namespace NumberMachine

/-- Push the number of a kind in a slot. -/
def load?
    (kind : ValueKind)
    (slot : UInt16)
    (machine : NumberMachine Other World) :
    Option (NumberMachine Other World) :=
  match machine.slots slot with
  | some (.inl number) => if number.kind = kind then some (machine.push number) else none
  | _ => none

/-- Pop a number of a kind into a slot. -/
def store?
    (kind : ValueKind)
    (slot : UInt16)
    (machine : NumberMachine Other World) :
    Option (NumberMachine Other World) :=
  match machine.stack with
  | .inl number :: rest =>
      if number.kind = kind then some ((machine.withStack rest).putSlot slot number) else none
  | _ => none

/-- Add a constant to the integer in a slot. -/
def addInPlace?
    (slot : UInt16)
    (delta : Int16)
    (machine : NumberMachine Other World) :
    Option (NumberMachine Other World) :=
  match machine.slots slot with
  | some (.inl (.int value)) =>
      some (machine.putSlot slot (.int (value + Int32.ofInt delta.toInt)))
  | _ => none

/-- Operate on the two numbers on top. -/
def operate?
    (op : ArithOp)
    (kind : ValueKind)
    (machine : NumberMachine Other World) :
    Option (NumberMachine Other World) :=
  match machine.stack with
  | .inl right :: .inl left :: rest =>
      (Number.combine? op kind left right).map (machine.withStack rest).push
  | _ => none

/-- Convert the number on top. -/
def convert?
    (source target : ValueKind)
    (machine : NumberMachine Other World) :
    Option (NumberMachine Other World) :=
  match machine.stack with
  | .inl number :: rest => (number.convert? source target).map (machine.withStack rest).push
  | _ => none

/-- Copy the number on top if it takes the words that are copied. -/
def copy?
    (wide : Bool)
    (machine : NumberMachine Other World) :
    Option (NumberMachine Other World) :=
  match machine.stack with
  | .inl number :: _ => if number.kind.isWide = wide then some (machine.push number) else none
  | _ => none

end NumberMachine

/-- What an instruction on numbers does to the machine. It goes on to the next one. -/
def Instruction.performOnNumbers?
    (instruction : Instruction)
    (machine : NumberMachine Other World) :
    Option (NumberMachine Other World) :=
  match instruction with
  | .intConst value => some (machine.push (.int value))
  | .load kind slot => machine.load? kind slot
  | .store kind slot => machine.store? kind slot
  | .increment slot delta => machine.addInPlace? slot delta
  | .arith op kind => machine.operate? op kind
  | .convert source target => machine.convert? source target
  | .dup => machine.copy? false
  | .dup2 => machine.copy? true
  | _ => none

namespace MethodCode

/-- Where the next instruction leads. -/
def leads?
    (code : MethodCode)
    (surroundings : Surroundings Other World) :
    Nat × NumberMachine Other World → Option (Nat × NumberMachine Other World)
  | (offset, machine) => do
      let instruction ← code.instructions[offset]?
      match instruction.performOnNumbers? machine with
      | some after => return (offset + 1, after)
      | none => surroundings code instruction (offset, machine)

/-- The execution of a method leads from one place to another. -/
def Leads
    (code : MethodCode)
    (surroundings : Surroundings Other World) :
    Nat × NumberMachine Other World → Nat × NumberMachine Other World → Prop :=
  Relation.ReflTransGen (fun first second => code.leads? surroundings first = some second)

/-- A piece of code leads a machine from where one stream ends to where another that
extends it ends. -/
structure Passes
    (code : MethodCode)
    (surroundings : Surroundings Other World)
    (stream : CodeStream)
    (machine : NumberMachine Other World)
    (next : CodeStream)
    (after : NumberMachine Other World) :
    Prop where
  extends_ : stream.Extends next
  leads : code.Completes next →
    code.Leads surroundings (stream.position, machine) (next.position, after)

namespace Passes

variable
  {code : MethodCode}
  {surroundings : Surroundings Other World}
  {stream middle next : CodeStream}
  {machine at_ after : NumberMachine Other World}

theorem refl
    (code : MethodCode)
    (surroundings : Surroundings Other World)
    (stream : CodeStream)
    (machine : NumberMachine Other World) :
    code.Passes surroundings stream machine stream machine :=
  ⟨.refl stream, fun _ => .refl⟩

theorem trans
    (earlier : code.Passes surroundings stream machine middle at_)
    (later : code.Passes surroundings middle at_ next after) :
    code.Passes surroundings stream machine next after where
  extends_ := earlier.extends_.trans later.extends_
  leads := fun completes =>
    (earlier.leads (completes.earlier later.extends_)).trans (later.leads completes)

/-- An instruction on numbers is passed. -/
theorem emit
    (passes : code.Passes surroundings stream machine middle at_)
    {instruction : Instruction}
    (performed : instruction.performOnNumbers? at_ = some after) :
    code.Passes surroundings stream machine (middle.emit instruction) after := by
  refine passes.trans ⟨CodeStream.extends_emit _ _, fun completes => .single ?_⟩
  simp [leads?, completes.fetched, performed]

/-- Opening the range of a local is passed in place. -/
theorem openLocal
    (passes : code.Passes surroundings stream machine middle at_)
    (scope : MethodScope)
    (id : LocalId) :
    code.Passes surroundings stream machine (middle.openLocal scope id) at_ := by
  obtain ⟨sameInstructions, sameLabels⟩ := CodeStream.openLocal_same scope id middle
  refine passes.trans
    ⟨((CodeStream.Appends.refl middle).same sameInstructions sameLabels).extends_, fun _ => ?_⟩
  rw [show (middle.openLocal scope id).position = middle.position by
    simp [CodeStream.position, sameInstructions]]
  exact .refl

variable
  {scope : MethodScope}
  {id : LocalId}
  {number : Number}
  {stack : List (Number ⊕ Other)}

/-- A number is loaded from the slot of a local. -/
theorem load
    {slot : UInt16}
    (passes : code.Passes surroundings stream machine middle at_)
    (held : at_.slots slot = some (.inl number))
    (isKind : number.kind = CodeStream.kindOf scope id) :
    code.Passes surroundings stream machine
      (middle.emit (.load (CodeStream.kindOf scope id) slot)) (at_.push number) :=
  passes.emit (show at_.load? _ slot = _ by simp [NumberMachine.load?, held, isKind])

/-- A number is carried for another type after it is converted. -/
theorem convert
    {source : IntegerType}
    (passes : code.Passes surroundings stream machine middle
      (at_.withStack (.inl number :: stack)))
    (isCarried : number.type = source.carrier)
    (target : IntegerType) :
    code.Passes surroundings stream machine (middle.convert source.primitive target.primitive)
      (at_.withStack (.inl (.ofInt target number.toInt) :: stack)) := by
  simp only [CodeStream.convert, Number.ofPrimitive_eq_iff]
  split
  · next same =>
      rw [Number.ofInt_toInt (isCarried.trans same)]
      exact passes
  · next different =>
      exact passes.emit (show (at_.withStack (.inl number :: stack)).convert? _ _ = _ by
        simp [NumberMachine.convert?, Number.convert?_eq isCarried different])

/-- An operation on two numbers of a type is passed. -/
theorem arith
    {type : IntegerType}
    {left right : Number}
    (passes : code.Passes surroundings stream machine middle
      (at_.withStack (.inl right :: .inl left :: stack)))
    (op : ArithOp)
    (leftCarried : left.type = type.carrier)
    (rightCarried : right.type = type.carrier) :
    code.Passes surroundings stream machine
      (middle.emit (.arith op (.ofPrimitive type.primitive)))
      (at_.withStack (.inl (.ofInt type (op.onIntegers left.toInt right.toInt)) :: stack)) :=
  passes.emit (show (at_.withStack (.inl right :: .inl left :: stack)).operate? op _ = _ by
    simp [NumberMachine.operate?, Number.combine?_eq op leftCarried rightCarried])

/-- A number is copied by the instruction for its kind. -/
theorem copied
    (passes : code.Passes surroundings stream machine middle
      (at_.withStack (.inl number :: stack)))
    (keep : Bool) :
    code.Passes surroundings stream machine (middle.copied number.kind keep)
      (at_.withStack (.inl number :: if keep then .inl number :: stack else stack)) := by
  cases keep with
  | false =>
      exact passes
  | true =>
      cases number with
      | int value | long value =>
          exact passes.emit rfl

/-- A number is stored in the slot of a local, or also kept. -/
theorem store
    (passes : code.Passes surroundings stream machine middle
      (at_.withStack (.inl number :: stack)))
    (isKind : number.kind = CodeStream.kindOf scope id)
    (slot : UInt16)
    (keep : Bool) :
    code.Passes surroundings stream machine
      (((middle.copied (CodeStream.kindOf scope id) keep).emit
        (.store (CodeStream.kindOf scope id) slot)).openLocal scope id)
      ((at_.putSlot slot number).withStack (if keep then .inl number :: stack else stack)) := by
  rw [← isKind]
  refine ((passes.copied keep).emit ?_).openLocal scope id
  change (at_.withStack (.inl number :: _)).store? _ slot = _
  simp [NumberMachine.store?]

end Passes

end MethodCode

/-- A step of code generation has code that turns one machine into another and leaves
numbers on the stack, whatever there is below them. -/
def CodeStep.Turns
    (step : CodeStep)
    (surroundings : Surroundings Other World)
    (before : NumberMachine Other World)
    (pushed : List Number)
    (after : NumberMachine Other World) :
    Prop :=
  ∀ stream, ∃ next, step stream = .ok next ∧
    ∀ (code : MethodCode) (stack : List (Number ⊕ Other)), code.Completes next →
      code.Leads surroundings (stream.position, before.withStack stack)
        (next.position, after.withStack (pushed.map .inl ++ stack))

end LoopLowering
