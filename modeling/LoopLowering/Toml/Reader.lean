import LoopLowering.Toml.Scalars
import LoopLowering.Toml.Strings

namespace LoopLowering

/-!
# Reading TOML text

A text is read line by line. A header in brackets names the table that the
lines after it add to; any other line gives a key a value. Arrays of tables
hold no option and are refused.
-/

namespace Toml

/-- So many arrays and tables in braces may nest, and a key may have so many
names. -/
def nestingLimit :
    Nat :=
  79

/-- The text after its leading spaces. -/
def skipSpaces
    (text : List Char) :
    List Char :=
  text.dropWhile isSpace

/-- The text after a comment, if one starts here. -/
def skipComment :
    List Char → List Char
  | '#' :: rest => rest.dropWhile isPlain
  | text => text

/-- The text of the next line, if nothing but a comment is left on this one. -/
def nextLine
    (text : List Char) :
    Option (List Char) :=
  match skipComment (skipSpaces text) with
  | '\r' :: '\n' :: rest | '\n' :: rest => some rest
  | [] => some []
  | _ => none

/-- Whether a character may stand in a key without quotes. -/
def isKeyChar
    (c : Char) :
    Bool :=
  c.isAlphanum || c == '-' || c == '_'

/-- Read one name of a key. -/
def readName :
    List Char → Option (String × List Char)
  | '\"' :: rest => readBasic [] rest
  | '\'' :: rest => readLiteral [] rest
  | text =>
      match text.span isKeyChar with
      | ([], _) => none
      | (name, rest) => some (String.ofList name, rest)

/-- Read at most `limit` names, with dots between them. -/
def readNames :
    (limit : Nat) → List Char → Option (List String × List Char)
  | 0, _ => none
  | limit + 1, text => do
      let (name, rest) ← readName (skipSpaces text)
      match skipSpaces rest with
      | '.' :: rest =>
          let (names, rest) ← readNames limit rest
          return (name :: names, rest)
      | rest => return ([name], rest)

/-- Read a key. -/
def readKey
    (text : List Char) :
    Option (List String × List Char) :=
  readNames nestingLimit text

/-- The text after blanks, line ends and comments inside an array. -/
def skipGaps :
    (fuel : Nat) → List Char → Option (List Char)
  | 0, _ => none
  | fuel + 1, text =>
      match skipSpaces text with
      | '#' :: rest => (nextLine ('#' :: rest)).bind (skipGaps fuel)
      | '\r' :: '\n' :: rest | '\n' :: rest => skipGaps fuel rest
      | rest => some rest

/-- Put a value into a table under a key that may have dots. -/
def assignKey
    (key : List String)
    (value : Toml)
    (members : TomlMembers) :
    Option TomlMembers := do
  let name ← key.getLast?
  members.assign name value key.dropLast

/-- Read a number, a date or a time of day. -/
def readFigure
    (text : List Char) :
    Option (Toml × List Char) :=
  ((readMoment text).or (readFloat text)).or (readInteger text)

mutual

/-- Read a value whose arrays and tables in braces nest at most `limit` deep. -/
def readValue :
    (fuel limit : Nat) → List Char → Option (Toml × List Char)
  | 0, _, _ => none
  | fuel + 1, limit, text =>
      match limit, text with
      | _, 't' :: 'r' :: 'u' :: 'e' :: rest => some (.bool true, rest)
      | _, 'f' :: 'a' :: 'l' :: 's' :: 'e' :: rest => some (.bool false, rest)
      | 0, '[' :: _ | 0, '\x7b' :: _ => none
      | limit + 1, '[' :: rest => readItems fuel limit [] rest
      | limit + 1, '\x7b' :: rest =>
          match skipSpaces rest with
          | '\x7d' :: rest => some (.table .inline [], rest)
          | rest => readMembers fuel limit [] rest
      | _, '\"' :: _ | _, '\'' :: _ =>
          (readString text).map (fun read => (.string read.1, read.2))
      | _, text => readFigure text

/-- Read the items of an array from the first one not yet read. -/
def readItems :
    (fuel limit : Nat) → List Toml → List Char → Option (Toml × List Char)
  | 0, _, _, _ => none
  | fuel + 1, limit, done, text => do
      match ← skipGaps text.length.succ text with
      | ']' :: rest => some (.array done.reverse, rest)
      | start =>
          let (item, rest) ← readValue fuel limit start
          match ← skipGaps rest.length.succ rest with
          | ',' :: rest => readItems fuel limit (item :: done) rest
          | ']' :: rest => some (.array (item :: done).reverse, rest)
          | _ => none

/-- Read the members of a table in braces from the first one not yet read. -/
def readMembers :
    (fuel limit : Nat) → TomlMembers → List Char → Option (Toml × List Char)
  | 0, _, _, _ => none
  | fuel + 1, limit, done, text => do
      let (key, rest) ← readKey text
      match rest with
      | '=' :: rest =>
          let (value, rest) ← readValue fuel limit (skipSpaces rest)
          let members ← assignKey key value done
          match skipSpaces rest with
          | ',' :: rest => readMembers fuel limit members rest
          | '\x7d' :: rest => some (.table .inline members, rest)
          | _ => none
      | _ => none

end

/-- What has been read of a text: the root table, and the names of the table
that the last header declared. -/
structure Document where
  root : TomlMembers
  header : List String

/-- Read a header, after its opening bracket. -/
def readHeader
    (document : Document)
    (text : List Char) :
    Option (Document × List Char) := do
  let (key, rest) ← readKey text
  match rest with
  | ']' :: rest =>
      let rest ← nextLine rest
      let root ← document.root.declare key
      return (⟨root, key⟩, rest)
  | _ => none

/-- Read a line that gives a key a value. -/
def readAssignment
    (document : Document)
    (text : List Char) :
    Option (Document × List Char) := do
  let (key, rest) ← readKey text
  match rest with
  | '=' :: rest =>
      let (value, rest) ← readValue (2 * rest.length + 2) nestingLimit (skipSpaces rest)
      let rest ← nextLine rest
      let root ← document.root.within (assignKey key value) document.header
      return ({ document with root := root }, rest)
  | _ => none

/-- Read the lines of a text. Each takes at least one character, which bounds
the fuel. -/
def readLines :
    (fuel : Nat) → Document → List Char → Option TomlMembers
  | 0, _, _ => none
  | fuel + 1, document, text =>
      match skipSpaces text with
      | [] => some document.root
      | '[' :: rest => do
          let (document, rest) ← readHeader document rest
          readLines fuel document rest
      | start =>
          match nextLine start with
          | some rest => readLines fuel document rest
          | none => do
              let (document, rest) ← readAssignment document start
              readLines fuel document rest

/-- The text without the mark of its encoding. -/
def skipMark :
    List Char → List Char
  | '\uFEFF' :: text => text
  | text => text

/-- Read a TOML text. -/
def ofText?
    (text : String) :
    Option TomlMembers :=
  let chars := skipMark text.toList
  readLines chars.length.succ ⟨[], []⟩ chars

end Toml

end LoopLowering
