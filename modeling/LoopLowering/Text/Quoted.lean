import LoopLowering.Text.Visible

namespace LoopLowering

/-!
# Quoted text

In a listing a string constant stands in double quotes. Quotes, backslashes
and common controls are escaped by a letter, and any other character that does
not show on its own by its code point.
-/

namespace Text

/-- A digit of a hexadecimal number. -/
def hexDigitChar
    (value : Nat) :
    Char :=
  if value < 10 then Char.ofNat ('0'.toNat + value) else Char.ofNat ('a'.toNat + value - 10)

/-- The hexadecimal digits of a number below a power of sixteen, without
leading zeros. -/
def hexDigits :
    (places : Nat) → Nat → List Char
  | 0, _ => []
  | places + 1, value =>
      (if value < 16 then [] else hexDigits places (value / 16)) ++ [hexDigitChar (value % 16)]

/-- A character named by its code point. -/
def codePointEscape
    (c : Char) :
    String :=
  "\\u\x7b" ++ String.ofList (hexDigits 6 c.toNat) ++ "\x7d"

/-- How a character is written between quotes. -/
def quotedChar :
    Char → String
  | '\x00' => "\\0"
  | '\t' => "\\t"
  | '\r' => "\\r"
  | '\n' => "\\n"
  | '\"' => "\\\""
  | '\\' => "\\\\"
  | c => if isVisible c then c.toString else codePointEscape c

/-- A text in double quotes. -/
def quoted
    (text : String) :
    String :=
  "\"" ++ String.join (text.toList.map quotedChar) ++ "\""

end Text

end LoopLowering
