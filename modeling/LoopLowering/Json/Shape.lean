import LoopLowering.Json.Value

namespace LoopLowering

/-!
# Shapes of JSON values

The parts from which readers of structured JSON are built: the members of an
object with required, optional and defaulted names, and tagged variants.
Members nobody asks for are ignored, and a member that is asked for may occur
only once.
-/

namespace Json

/-- Why a value does not have the shape a reader expects. -/
inductive ShapeError where
  | expected (what : String)
  | missing (name : String)
  | repeated (name : String)
  | unknownVariant (name : String)
  | outOfRange (value : Int)
  | tooDeep
  deriving Repr, DecidableEq

namespace ShapeError

/-- The text of a shape error. -/
def message :
    ShapeError → String
  | .expected what => "expected " ++ what
  | .missing name => "missing member '" ++ name ++ "'"
  | .repeated name => "repeated member '" ++ name ++ "'"
  | .unknownVariant name => "unknown variant '" ++ name ++ "'"
  | .outOfRange value => "number " ++ toString value ++ " is out of range"
  | .tooDeep => "nested too deeply"

end ShapeError

/-- A reading of a value, or the reason there is none. -/
abbrev Shaped (α : Type) := Except ShapeError α

/-- The members of an object. -/
def members :
    Json → Shaped (List (String × Json))
  | .object members => .ok members
  | _ => .error (.expected "an object")

/-- The items of an array. -/
def items :
    Json → Shaped (List Json)
  | .array items => .ok items
  | _ => .error (.expected "an array")

/-- The characters of a string. -/
def asString :
    Json → Shaped String
  | .string value => .ok value
  | _ => .error (.expected "a string")

/-- A truth value. -/
def asBool :
    Json → Shaped Bool
  | .bool value => .ok value
  | _ => .error (.expected "a truth value")

/-- An integer between two bounds, both included. -/
def asIntBetween
    (least greatest : Int) :
    Json → Shaped Int
  | .int value =>
      if least ≤ value ∧ value ≤ greatest then .ok value else .error (.outOfRange value)
  | _ => .error (.expected "an integer")

/-- A 32-bit integer. -/
def asInt32
    (json : Json) :
    Shaped Int32 := do
  let value ← json.asIntBetween (-0x80000000) 0x7FFFFFFF
  return Int32.ofInt value

/-- A byte offset, which fits in 64 bits. -/
def asOffset
    (json : Json) :
    Shaped Nat := do
  let value ← json.asIntBetween 0 0xFFFFFFFFFFFFFFFF
  return value.toNat

/-- The member of a name, if there is one. -/
def member?
    (name : String)
    (members : List (String × Json)) :
    Shaped (Option Json) :=
  match members.filter (fun member => member.1 == name) with
  | [] => .ok none
  | [member] => .ok (some member.2)
  | _ => .error (.repeated name)

/-- The member of a name, which has to be there. -/
def required
    (name : String)
    (members : List (String × Json)) :
    Shaped Json := do
  match ← member? name members with
  | some value => return value
  | none => throw (.missing name)

/-- What a value that may be null stands for. -/
def nullable
    (read : Json → Shaped α) :
    Json → Shaped (Option α)
  | .null => .ok none
  | json => (read json).map some

/-- A member that may be left out or null. -/
def optional
    (name : String)
    (read : Json → Shaped α)
    (members : List (String × Json)) :
    Shaped (Option α) := do
  match ← member? name members with
  | some value => nullable read value
  | none => return none

/-- A member that may be left out, and then has a default. -/
def defaulted
    (name : String)
    (absent : α)
    (read : Json → Shaped α)
    (members : List (String × Json)) :
    Shaped α := do
  match ← member? name members with
  | some value => read value
  | none => return absent

/-- Every item of an array. -/
def listOf
    (read : Json → Shaped α)
    (json : Json) :
    Shaped (List α) := do
  (← json.items).mapM read

/-- A tagged value: its tag alone as a string, or an object whose only member
is the tag with its payload. -/
structure Variant where
  tag : String
  payload? : Option Json

/-- Read a tagged value. -/
def variant :
    Json → Shaped Variant
  | .string tag => .ok ⟨tag, none⟩
  | .object [(tag, payload)] => .ok ⟨tag, some payload⟩
  | _ => .error (.expected "a tag, or an object with one member")

namespace Variant

/-- The payload of a variant that carries one. -/
def payload
    (variant : Variant) :
    Shaped Json :=
  match variant.payload? with
  | some payload => .ok payload
  | none => .error (.expected ("a payload for '" ++ variant.tag ++ "'"))

/-- The members of a variant whose payload is an object. -/
def members
    (variant : Variant) :
    Shaped (List (String × Json)) := do
  (← variant.payload).members

/-- A variant that carries nothing, or null. -/
def bare
    (variant : Variant)
    (value : α) :
    Shaped α :=
  match variant.payload? with
  | none | some .null => .ok value
  | some _ => .error (.expected ("nothing after '" ++ variant.tag ++ "'"))

end Variant

end Json

end LoopLowering
