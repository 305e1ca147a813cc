import LoopLowering.Text.Quoted

namespace LoopLowering

/-!
# JSON values

Programs are exchanged as JSON. Members of an object keep the order in which
they were written, and a name may occur more than once.
-/

/-- A JSON value. -/
inductive Json where
  | null
  | bool (value : Bool)
  | int (value : Int)
  /-- A number that was not written as an integer, by its spelling. -/
  | fraction (spelling : String)
  | string (value : String)
  | array (items : List Json)
  | object (members : List (String × Json))
  /-- A value that keeps to the grammar but cannot be had, by its spelling: a
  string with half of a surrogate pair, an object with such a name, or a
  container that is nested too deeply. -/
  | unreadable (spelling : String)
  deriving Repr, Inhabited

namespace Json

mutual

/-- The number of containers around the most deeply nested value. -/
def depth :
    Json → Nat
  | .array items => depthOfItems items + 1
  | .object members => depthOfMembers members + 1
  | _ => 0

/-- The largest depth among the items of an array. -/
def depthOfItems :
    List Json → Nat
  | [] => 0
  | item :: rest => max item.depth (depthOfItems rest)

/-- The largest depth among the members of an object. -/
def depthOfMembers :
    List (String × Json) → Nat
  | [] => 0
  | (_, value) :: rest => max value.depth (depthOfMembers rest)

end

/-! ## Text

A value is written without blanks. Only quotes, backslashes and control characters
are escaped.
-/

/-- How a character is written inside a JSON string. -/
def escapedChar :
    Char → String
  | '\"' => "\\\""
  | '\\' => "\\\\"
  | '\n' => "\\n"
  | '\r' => "\\r"
  | '\t' => "\\t"
  | c =>
      if c.toNat < 0x20 then
        "\\u00" ++
          String.ofList [Text.hexDigitChar (c.toNat / 16), Text.hexDigitChar (c.toNat % 16)]
      else
        c.toString

/-- A string in quotes. -/
def quotedText
    (value : String) :
    String :=
  "\"" ++ String.join (value.toList.map escapedChar) ++ "\""

mutual

/-- The text of a value. -/
def text :
    Json → String
  | .null => "null"
  | .bool value => if value then "true" else "false"
  | .int value => toString value
  | .fraction spelling | .unreadable spelling => spelling
  | .string value => quotedText value
  | .array items => "[" ++ String.intercalate "," (textOfItems items) ++ "]"
  | .object members => "\x7b" ++ String.intercalate "," (textOfMembers members) ++ "\x7d"

/-- The texts of the items of an array. -/
def textOfItems :
    List Json → List String
  | [] => []
  | item :: rest => item.text :: textOfItems rest

/-- The texts of the members of an object. -/
def textOfMembers :
    List (String × Json) → List String
  | [] => []
  | (name, value) :: rest => (quotedText name ++ ":" ++ value.text) :: textOfMembers rest

end

end Json

end LoopLowering
