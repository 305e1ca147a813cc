import LoopLowering.Json.Reader

namespace LoopLowering

/-!
# TOML strings

A string stands in double quotes, with escapes, or in single quotes, as it is.
In three quotes it may go over several lines.
-/

namespace Toml

/-- Whether a character may stand in a string or comment as it is. -/
def isPlain
    (c : Char) :
    Bool :=
  c == '\t' || (0x20 ≤ c.toNat && c.toNat != 0x7F)

/-- Whether a character separates words on a line. -/
def isSpace
    (c : Char) :
    Bool :=
  c == ' ' || c == '\t'

/-- The character a one-letter escape stands for. -/
def simpleEscape? :
    Char → Option Char
  | 'b' => some '\x08'
  | 't' => some '\t'
  | 'n' => some '\n'
  | 'f' => some '\x0c'
  | 'r' => some '\r'
  | '\"' => some '\"'
  | '\\' => some '\\'
  | _ => none

/-- The character of a code point, if there is one. -/
def scalar?
    (code : Nat) :
    Option Char :=
  if code.isValidChar then some (Char.ofNat code) else none

/-- The character named by four hexadecimal digits. -/
def shortScalar?
    (a b c d : Char) :
    Option Char :=
  (Json.hexUnit? a b c d).bind scalar?

/-- The character named by eight hexadecimal digits. -/
def longScalar?
    (a b c d e f g h : Char) :
    Option Char := do
  let high ← Json.hexUnit? a b c d
  let low ← Json.hexUnit? e f g h
  scalar? (high * 0x10000 + low)

/-- Read the rest of a string in double quotes. The characters read so far are
kept in reverse order. -/
def readBasic
    (done : List Char) :
    List Char → Option (String × List Char)
  | '\"' :: rest => some (String.ofList done.reverse, rest)
  | '\\' :: 'u' :: a :: b :: c :: d :: rest =>
      match shortScalar? a b c d with
      | some plain => readBasic (plain :: done) rest
      | none => none
  | '\\' :: 'U' :: a :: b :: c :: d :: e :: f :: g :: h :: rest =>
      match longScalar? a b c d e f g h with
      | some plain => readBasic (plain :: done) rest
      | none => none
  | '\\' :: c :: rest =>
      match simpleEscape? c with
      | some plain => readBasic (plain :: done) rest
      | none => none
  | c :: rest => if isPlain c then readBasic (c :: done) rest else none
  | [] => none

/-- Read the rest of a string in single quotes. -/
def readLiteral
    (done : List Char) :
    List Char → Option (String × List Char)
  | '\'' :: rest => some (String.ofList done.reverse, rest)
  | c :: rest => if isPlain c then readLiteral (c :: done) rest else none
  | [] => none

/-- What is passed over inside a string of several lines. -/
inductive LineGap where
  | none
  /-- The spaces between a backslash and the end of its line. -/
  | toLineEnd
  /-- The blanks before the next word. -/
  | toWord
  deriving Repr, DecidableEq

/-- Read the rest of a string of several lines in double quotes. A backslash at
the end of a line passes over the blanks up to the next word. -/
def readBasicLines :
    LineGap → (done : List Char) → List Char → Option (String × List Char)
  | .toLineEnd, done, '\r' :: '\n' :: rest | .toLineEnd, done, '\n' :: rest =>
      readBasicLines .toWord done rest
  | .toLineEnd, done, c :: rest => if isSpace c then readBasicLines .toLineEnd done rest else none
  | .toWord, done, '\r' :: '\n' :: rest | .toWord, done, '\n' :: rest
  | .toWord, done, ' ' :: rest | .toWord, done, '\t' :: rest => readBasicLines .toWord done rest
  | _, done, '\"' :: '\"' :: '\"' :: '\"' :: '\"' :: rest =>
      some (String.ofList ('\"' :: '\"' :: done).reverse, rest)
  | _, done, '\"' :: '\"' :: '\"' :: '\"' :: rest =>
      some (String.ofList ('\"' :: done).reverse, rest)
  | _, done, '\"' :: '\"' :: '\"' :: rest => some (String.ofList done.reverse, rest)
  | _, done, '\\' :: 'u' :: a :: b :: c :: d :: rest =>
      match shortScalar? a b c d with
      | some plain => readBasicLines .none (plain :: done) rest
      | none => none
  | _, done, '\\' :: 'U' :: a :: b :: c :: d :: e :: f :: g :: h :: rest =>
      match longScalar? a b c d e f g h with
      | some plain => readBasicLines .none (plain :: done) rest
      | none => none
  | _, done, '\\' :: '\r' :: '\n' :: rest | _, done, '\\' :: '\n' :: rest =>
      readBasicLines .toWord done rest
  | _, done, '\\' :: c :: rest =>
      if isSpace c then
        readBasicLines .toLineEnd done rest
      else
        match simpleEscape? c with
        | some plain => readBasicLines .none (plain :: done) rest
        | none => none
  | _, done, '\r' :: '\n' :: rest | _, done, '\n' :: rest =>
      readBasicLines .none ('\n' :: done) rest
  | _, done, c :: rest => if isPlain c then readBasicLines .none (c :: done) rest else none
  | _, _, [] => none

/-- Read the rest of a string of several lines in single quotes. -/
def readLiteralLines
    (done : List Char) :
    List Char → Option (String × List Char)
  | '\'' :: '\'' :: '\'' :: '\'' :: '\'' :: rest =>
      some (String.ofList ('\'' :: '\'' :: done).reverse, rest)
  | '\'' :: '\'' :: '\'' :: '\'' :: rest => some (String.ofList ('\'' :: done).reverse, rest)
  | '\'' :: '\'' :: '\'' :: rest => some (String.ofList done.reverse, rest)
  | '\r' :: '\n' :: rest | '\n' :: rest => readLiteralLines ('\n' :: done) rest
  | c :: rest => if isPlain c then readLiteralLines (c :: done) rest else none
  | [] => none

/-- The text after a line end that directly follows the opening quotes. -/
def skipLineEnd :
    List Char → List Char
  | '\r' :: '\n' :: rest | '\n' :: rest => rest
  | rest => rest

/-- Read a string of any kind. -/
def readString :
    List Char → Option (String × List Char)
  | '\"' :: '\"' :: '\"' :: rest => readBasicLines .none [] (skipLineEnd rest)
  | '\"' :: rest => readBasic [] rest
  | '\'' :: '\'' :: '\'' :: rest => readLiteralLines [] (skipLineEnd rest)
  | '\'' :: rest => readLiteral [] rest
  | _ => none

end Toml

end LoopLowering
