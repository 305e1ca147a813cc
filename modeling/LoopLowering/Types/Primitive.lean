namespace LoopLowering

/-!
# Primitive types

The eight primitive types with their spellings, their wrapper classes, and the
widening conversions between them.
-/

/-- A primitive type. -/
inductive Primitive where
  | boolean
  | byte
  | short
  | char
  | int
  | long
  | float
  | double
  deriving Repr, DecidableEq, Inhabited

namespace Primitive

/-- The keyword of a primitive type. -/
def name :
    Primitive → String
  | boolean => "boolean"
  | byte => "byte"
  | short => "short"
  | char => "char"
  | int => "int"
  | long => "long"
  | float => "float"
  | double => "double"

/-- Every primitive type, once. -/
def all :
    List Primitive :=
  [boolean, byte, short, char, int, long, float, double]

/-- The primitive type a keyword names. -/
def ofName?
    (keyword : String) :
    Option Primitive :=
  all.find? (fun primitive => primitive.name == keyword)

/-- The simple name of the wrapper class. -/
def wrapper :
    Primitive → String
  | boolean => "Boolean"
  | byte => "Byte"
  | short => "Short"
  | char => "Character"
  | int => "Integer"
  | long => "Long"
  | float => "Float"
  | double => "Double"

/-- The primitive type a class wraps. -/
def ofWrapper?
    (className : String) :
    Option Primitive :=
  all.find? (fun primitive => primitive.wrapper == className)

/-- The one-letter type descriptor. -/
def descriptor :
    Primitive → String
  | boolean => "Z"
  | byte => "B"
  | short => "S"
  | char => "C"
  | int => "I"
  | long => "J"
  | float => "F"
  | double => "D"

/-- Every primitive type but `boolean` is numeric. -/
def isNumeric :
    Primitive → Bool
  | boolean => false
  | _ => true

/-- Whether a value takes two frame slots and two stack words. -/
def isWide :
    Primitive → Bool
  | long | double => true
  | _ => false

/-- The widening conversions; a type does not widen to itself. -/
def widensTo :
    Primitive → Primitive → Bool
  | byte, short | byte, int | byte, long | byte, float | byte, double => true
  | short, int | short, long | short, float | short, double => true
  | char, int | char, long | char, float | char, double => true
  | int, long | int, float | int, double => true
  | long, float | long, double => true
  | float, double => true
  | _, _ => false

/-- The type in which a binary numeric operation is carried out. -/
def promote :
    Primitive → Primitive → Primitive
  | double, _ | _, double => double
  | float, _ | _, float => float
  | long, _ | _, long => long
  | _, _ => int

end Primitive

end LoopLowering
