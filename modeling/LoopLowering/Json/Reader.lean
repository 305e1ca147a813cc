import LoopLowering.Json.Value

namespace LoopLowering

/-!
# Reading JSON text

A recursive-descent reader for JSON texts. Blanks are the four of the JSON
grammar, and a string may not hold an unescaped control character. A string
with half of a surrogate pair and a container nested deeper than the caller
allows keep to the grammar but are unreadable: whoever asks for them fails, and
whoever passes over them does not.
-/

namespace Json

/-- A blank of the JSON grammar. -/
def isBlank
    (c : Char) :
    Bool :=
  c == ' ' || c == '\n' || c == '\t' || c == '\r'

/-- The text after its leading blanks. -/
def skipBlanks
    (text : List Char) :
    List Char :=
  text.dropWhile isBlank

/-- The value of a hexadecimal digit. -/
def hexDigit?
    (c : Char) :
    Option Nat :=
  if '0' ≤ c ∧ c ≤ '9' then some (c.toNat - '0'.toNat)
  else if 'a' ≤ c ∧ c ≤ 'f' then some (c.toNat - 'a'.toNat + 10)
  else if 'A' ≤ c ∧ c ≤ 'F' then some (c.toNat - 'A'.toNat + 10)
  else none

/-- The value of four hexadecimal digits. -/
def hexUnit?
    (first second third fourth : Char) :
    Option Nat := do
  let a ← hexDigit? first
  let b ← hexDigit? second
  let c ← hexDigit? third
  let d ← hexDigit? fourth
  return ((a * 16 + b) * 16 + c) * 16 + d

/-- Whether a code unit opens a surrogate pair. -/
def isHighSurrogate
    (unit : Nat) :
    Bool :=
  decide (0xD800 ≤ unit ∧ unit < 0xDC00)

/-- Whether a code unit closes a surrogate pair. -/
def isLowSurrogate
    (unit : Nat) :
    Bool :=
  decide (0xDC00 ≤ unit ∧ unit < 0xE000)

/-- The character a surrogate pair stands for. -/
def surrogatePair
    (high low : Nat) :
    Char :=
  Char.ofNat (0x10000 + (high - 0xD800) * 0x400 + (low - 0xDC00))

/-- The character a one-letter escape stands for. -/
def simpleEscape? :
    Char → Option Char
  | '\"' => some '\"'
  | '\\' => some '\\'
  | '/' => some '/'
  | 'b' => some '\x08'
  | 'f' => some '\x0c'
  | 'n' => some '\n'
  | 'r' => some '\r'
  | 't' => some '\t'
  | _ => none

/-- What has been read of a string. Characters are kept in reverse order. -/
inductive StringStart where
  | chars (done : List Char)
  /-- Characters, and after them a code unit that opens a surrogate pair. -/
  | half (done : List Char) (high : Nat)
  /-- There is half of a surrogate pair, so the string has no characters. -/
  | broken
  deriving Repr, DecidableEq

namespace StringStart

/-- Add a character. -/
def push
    (c : Char) :
    StringStart → StringStart
  | chars done => chars (c :: done)
  | half .. | broken => broken

/-- Add a code unit. -/
def pushUnit
    (unit : Nat) :
    StringStart → StringStart
  | chars done =>
      if isHighSurrogate unit then half done unit
      else if isLowSurrogate unit then broken
      else chars (Char.ofNat unit :: done)
  | half done high =>
      if isLowSurrogate unit then chars (surrogatePair high unit :: done) else broken
  | broken => broken

/-- The string, at its end. -/
def finish? :
    StringStart → Option String
  | chars done => some (String.ofList done.reverse)
  | half .. | broken => none

end StringStart

/-- Read the rest of a string after its opening quote. -/
def readString
    (done : StringStart) :
    List Char → Option (Option String × List Char)
  | '\"' :: rest => some (done.finish?, rest)
  | '\\' :: 'u' :: a :: b :: c :: d :: rest =>
      match hexUnit? a b c d with
      | none => none
      | some unit => readString (done.pushUnit unit) rest
  | '\\' :: c :: rest =>
      match simpleEscape? c with
      | none => none
      | some plain => readString (done.push plain) rest
  | c :: rest => if c.toNat < 0x20 then none else readString (done.push c) rest
  | [] => none

/-- The value of a sequence of decimal digits. -/
def digitsValue
    (digits : List Char) :
    Nat :=
  digits.foldl (fun value digit => value * 10 + (digit.toNat - '0'.toNat)) 0

/-- Whether digits can be the integer part of a number: there is at least one,
and only zero itself starts with a zero. -/
def isIntegerPart :
    List Char → Bool
  | [] => false
  | ['0'] => true
  | '0' :: _ => false
  | _ => true

/-- Split off a fraction, or fail when a point has no digits after it. -/
def readFraction :
    List Char → Option (List Char × List Char)
  | '.' :: rest =>
      match rest.span Char.isDigit with
      | ([], _) => none
      | (digits, rest) => some ('.' :: digits, rest)
  | rest => some ([], rest)

/-- Split off the digits of an exponent and their sign. -/
def readExponentDigits
    (mark : List Char)
    (text : List Char) :
    Option (List Char × List Char) :=
  match text.span Char.isDigit with
  | ([], _) => none
  | (digits, rest) => some (mark ++ digits, rest)

/-- Split off an exponent, or fail when its mark has no digits after it. -/
def readExponent :
    List Char → Option (List Char × List Char)
  | e :: rest =>
      if e == 'e' || e == 'E' then
        match rest with
        | '+' :: rest => readExponentDigits [e, '+'] rest
        | '-' :: rest => readExponentDigits [e, '-'] rest
        | rest => readExponentDigits [e] rest
      else
        some ([], e :: rest)
  | [] => some ([], [])

/-- Read a number. Only an integer spelling other than minus zero is an
integer. -/
def readNumber
    (text : List Char) :
    Option (Json × List Char) := do
  let (sign, unsigned) :=
    match text with
    | '-' :: rest => (['-'], rest)
    | rest => ([], rest)
  let (digits, rest) := unsigned.span Char.isDigit
  guard (isIntegerPart digits)
  let (places, rest) ← readFraction rest
  let (power, rest) ← readExponent rest
  let magnitude := digitsValue digits
  if places.isEmpty && power.isEmpty && (sign.isEmpty || magnitude != 0) then
    let value : Int := if sign.isEmpty then magnitude else -magnitude
    return (.int value, rest)
  else
    return (.fraction (String.ofList (sign ++ digits ++ places ++ power)), rest)

/-- The text that was read, given what is left of it. -/
def spelling
    (text rest : List Char) :
    String :=
  String.ofList (text.take (text.length - rest.length))

/-- Read a value that is no container. -/
def readScalar
    (text : List Char) :
    Option (Json × List Char) :=
  match text with
  | 'n' :: 'u' :: 'l' :: 'l' :: rest => some (.null, rest)
  | 't' :: 'r' :: 'u' :: 'e' :: rest => some (.bool true, rest)
  | 'f' :: 'a' :: 'l' :: 's' :: 'e' :: rest => some (.bool false, rest)
  | '\"' :: rest =>
      match readString (.chars []) rest with
      | some (some value, rest) => some (.string value, rest)
      | some (none, rest) => some (.unreadable (spelling text rest), rest)
      | none => none
  | text => readNumber text

/-- Read the name of a member and the colon after it. -/
def readName
    (text : List Char) :
    Option (Option String × List Char) :=
  match skipBlanks text with
  | '\"' :: rest =>
      match readString (.chars []) rest with
      | some (name, rest) =>
          match skipBlanks rest with
          | ':' :: rest => some (name, rest)
          | _ => none
      | none => none
  | _ => none

/-- A kind of container. -/
inductive ContainerKind where
  | array
  | object
  deriving Repr, DecidableEq

namespace ContainerKind

/-- The bracket that ends a container. -/
def closing :
    ContainerKind → Char
  | array => ']'
  | object => '\x7d'

end ContainerKind

/-- What can come next inside a container. -/
inductive Expected where
  /-- The first item or member, or the end. -/
  | firstOrEnd
  | itemOrMember
  | commaOrEnd
  deriving Repr, DecidableEq

/-- Pass over the rest of a container and of those around it, given their kinds
from the innermost outwards. No value is kept, so the nesting has no limit.
Every other step takes a character, which bounds the fuel. -/
def skipContainers :
    (fuel : Nat) → Expected → List ContainerKind → List Char → Option (List Char)
  | 0, _, _, _ => none
  | _, _, [], text => some text
  | fuel + 1, .itemOrMember, kind :: outer, text =>
      match if kind = .object then (readName text).map Prod.snd else some text with
      | none => none
      | some start =>
          match skipBlanks start with
          | '[' :: rest => skipContainers fuel .firstOrEnd (.array :: kind :: outer) rest
          | '\x7b' :: rest => skipContainers fuel .firstOrEnd (.object :: kind :: outer) rest
          | start =>
              match readScalar start with
              | some (_, rest) => skipContainers fuel .commaOrEnd (kind :: outer) rest
              | none => none
  | fuel + 1, expected, kind :: outer, text =>
      match skipBlanks text with
      | c :: rest =>
          if c = kind.closing then
            skipContainers fuel .commaOrEnd outer rest
          else if expected = .firstOrEnd then
            skipContainers fuel .itemOrMember (kind :: outer) text
          else if c = ',' then
            skipContainers fuel .itemOrMember (kind :: outer) rest
          else
            none
      | [] => none

/-- Pass over a container that is nested too deeply, after its bracket. -/
def readTooDeep
    (kind : ContainerKind)
    (text rest : List Char) :
    Option (Json × List Char) :=
  match skipContainers (2 * rest.length + 2) .firstOrEnd [kind] rest with
  | some after => some (.unreadable (spelling text after), after)
  | none => none

mutual

/-- Read a value. Containers that nest deeper than `limit` are unreadable.
Every call looks at a shorter text than the call before the last, which bounds
the fuel. -/
def readValue :
    (fuel limit : Nat) → List Char → Option (Json × List Char)
  | 0, _, _ => none
  | fuel + 1, limit, text =>
      match limit, skipBlanks text with
      | 0, '[' :: rest => readTooDeep .array ('[' :: rest) rest
      | 0, '\x7b' :: rest => readTooDeep .object ('\x7b' :: rest) rest
      | limit + 1, '[' :: rest =>
          match skipBlanks rest with
          | ']' :: rest => some (.array [], rest)
          | rest => readItems fuel limit [] rest
      | limit + 1, '\x7b' :: rest =>
          match skipBlanks rest with
          | '\x7d' :: rest => some (.object [], rest)
          | start =>
              match readMembers fuel limit (some []) start with
              | some (some members, rest) => some (.object members, rest)
              | some (none, after) => some (.unreadable (spelling ('\x7b' :: rest) after), after)
              | none => none
      | _, text => readScalar text

/-- Read the items of an array from the first one not yet read. -/
def readItems :
    (fuel limit : Nat) → List Json → List Char → Option (Json × List Char)
  | 0, _, _, _ => none
  | fuel + 1, limit, done, text => do
      let (item, rest) ← readValue fuel limit text
      match skipBlanks rest with
      | ',' :: rest => readItems fuel limit (item :: done) rest
      | ']' :: rest => some (.array (item :: done).reverse, rest)
      | _ => none

/-- Read the members of an object from the first one not yet read. None are
kept once one has an unreadable name. -/
def readMembers :
    (fuel limit : Nat) → Option (List (String × Json)) → List Char →
      Option (Option (List (String × Json)) × List Char)
  | 0, _, _, _ => none
  | fuel + 1, limit, done, text => do
      let (name, rest) ← readName text
      let (value, rest) ← readValue fuel limit rest
      let members := done.bind (fun members => name.map (fun name => (name, value) :: members))
      match skipBlanks rest with
      | ',' :: rest => readMembers fuel limit members rest
      | '\x7d' :: rest => some (members.map List.reverse, rest)
      | _ => none

end

/-- Read a JSON text. Containers that nest deeper than `limit` are unreadable. -/
def ofText?
    (limit : Nat)
    (text : String) :
    Option Json :=
  let chars := text.toList
  match readValue (2 * chars.length + 2) limit chars with
  | some (value, rest) => if (skipBlanks rest).isEmpty then some value else none
  | none => none

end Json

end LoopLowering
