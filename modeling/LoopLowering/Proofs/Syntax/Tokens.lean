import LoopLowering.Syntax.Printer
import Mathlib.Data.List.TakeWhile

namespace LoopLowering

/-!
# Tokens of source text

Source text is cut into words, integers, string literals and marks. Every token is
as long as it can be, a minus sign directly before digits belongs to the integer,
and white space only separates. A text that is written as some tokens stays so
before every text that cannot belong to the last of them.
-/

/-- A token of source text. -/
inductive Token where
  /-- A name, a keyword or a literal that is a word. -/
  | word (text : String)
  | integer (value : Int)
  /-- A string literal, by the string it stands for. -/
  | string (value : String)
  /-- An operator or a separator. -/
  | mark (text : String)
  deriving Repr, DecidableEq

namespace Token

/-- The white space of source text. -/
def spaces :
    List Char :=
  [' ', '\t', '\n', '\r', '\x0c']

/-- The characters of operators and separators. -/
def marks :
    List Char :=
  ['(', ')', '\x7b', '\x7d', '[', ']', '<', '>', '=', '!', '+', '-', '*', '/', '%', '&', '|',
    '^', '~', '?', ':', ';', ',', '.', '@']

/-- Whether a character may stand in a word: everything may that is not white
space, a mark, a quote, a backslash, or a sign that source text has no use for. -/
def isWordChar
    (c : Char) :
    Bool :=
  !(spaces ++ marks ++ ['\"', '\'', '\\', '#', '\x60']).contains c

/-- Whether a character is one operator with an equals sign directly behind it. -/
def joinsEquals
    (c : Char) :
    Bool :=
  ['<', '>', '=', '!', '+', '-', '*'].contains c

/-- The character that an escape stands for. -/
def unescaped? :
    Char → Option Char
  | 'b' => some '\x08'
  | 't' => some '\t'
  | 'n' => some '\n'
  | 'f' => some '\x0c'
  | 'r' => some '\r'
  | '\"' => some '\"'
  | '\'' => some '\''
  | '\\' => some '\\'
  | _ => none

/-- Read a string literal behind its opening quote, or within it behind a backslash.
It ends on its line. -/
def readString :
    (escaped : Bool) → List Char → Option (List Char × List Char)
  | _, [] => none
  | true, c :: rest =>
      (unescaped? c).bind fun c => (readString false rest).map (Prod.map (c :: ·) id)
  | false, c :: rest =>
      if c = '\"' then
        some ([], rest)
      else if c = '\\' then
        readString true rest
      else if c = '\n' ∨ c = '\r' then
        none
      else
        (readString false rest).map (Prod.map (c :: ·) id)

/-- Read the token that starts with a character, if one does. Behind white space
there is no token yet. -/
def read?
    (c : Char)
    (rest : List Char) :
    Option (Option Token × List Char) :=
  if spaces.contains c then
    some (none, rest)
  else if c.isDigit then
    some (some (.integer (Nat.ofDigitChars 10 (c :: rest.takeWhile Char.isDigit) 0)),
      rest.dropWhile Char.isDigit)
  else if isWordChar c then
    some (some (.word (String.ofList (c :: rest.takeWhile isWordChar))), rest.dropWhile isWordChar)
  else if c = '\"' then
    (readString false rest).map (Prod.map (fun value => some (.string (String.ofList value))) id)
  else if c = '-' ∧ rest.head?.any Char.isDigit then
    some (some (.integer (-Nat.ofDigitChars 10 (rest.takeWhile Char.isDigit) 0)),
      rest.dropWhile Char.isDigit)
  else if joinsEquals c ∧ rest.head? = some '=' then
    some (some (.mark (String.ofList [c, '='])), rest.tail)
  else if marks.contains c then
    some (some (.mark (String.ofList [c])), rest)
  else
    none

/-- Behind a string literal there is less text than before. -/
theorem length_le_of_readString
    {escaped : Bool}
    {text value rest : List Char}
    (read : readString escaped text = some (value, rest)) :
    rest.length ≤ text.length := by
  fun_induction readString escaped text generalizing value rest with
  | case1 | case5 =>
      cases read
  | case2 _ _ inductionHypothesis =>
      simp only [Option.bind_eq_some_iff, Option.map_eq_some_iff, Prod.exists, Prod.map_apply,
        id_eq, Prod.mk.injEq] at read
      obtain ⟨_, -, _, _, isRead, -, rfl⟩ := read
      exact Nat.le_succ_of_le (inductionHypothesis isRead)
  | case3 =>
      simp_all
  | case4 _ _ inductionHypothesis =>
      exact Nat.le_succ_of_le (inductionHypothesis read)
  | case6 _ _ _ _ _ inductionHypothesis =>
      simp only [Option.map_eq_some_iff, Prod.exists, Prod.map_apply, id_eq, Prod.mk.injEq] at read
      obtain ⟨_, _, isRead, -, rfl⟩ := read
      exact Nat.le_succ_of_le (inductionHypothesis isRead)

/-- Behind a token there is no more text than behind its first character. -/
theorem length_le_of_read?
    {c : Char}
    {rest later : List Char}
    {token : Option Token}
    (read : read? c rest = some (token, later)) :
    later.length ≤ rest.length := by
  have dropped (test : Char → Bool) : (rest.dropWhile test).length ≤ rest.length :=
    List.length_dropWhile_le _ _
  simp only [read?] at read
  split_ifs at read
  · simp_all
  · obtain ⟨-, rfl⟩ := Prod.mk.inj (Option.some.inj read)
    exact dropped _
  · obtain ⟨-, rfl⟩ := Prod.mk.inj (Option.some.inj read)
    exact dropped _
  · simp only [Option.map_eq_some_iff, Prod.exists, Prod.map_apply, id_eq, Prod.mk.injEq] at read
    obtain ⟨_, _, isRead, -, rfl⟩ := read
    exact length_le_of_readString isRead
  · obtain ⟨-, rfl⟩ := Prod.mk.inj (Option.some.inj read)
    exact dropped _
  · obtain ⟨-, rfl⟩ := Prod.mk.inj (Option.some.inj read)
    simp
  · simp_all

/-- A digit may stand in a word. -/
theorem isWordChar_of_isDigit
    {c : Char}
    (isDigit : c.isDigit = true) :
    isWordChar c = true := by
  have noDigit : (spaces ++ marks ++ ['\"', '\'', '\\', '#', '\x60']).all
      (fun other => !other.isDigit) = true := by
    decide
  simp only [isWordChar, Bool.not_eq_true', ← Bool.not_eq_true, List.contains_iff_mem]
  intro member
  have notDigit := List.all_eq_true.mp noDigit c member
  rw [isDigit] at notDigit
  cases notDigit

/-- What may stand in a word is not white space. -/
theorem not_mem_spaces_of_isWordChar
    {c : Char}
    (isWord : isWordChar c = true) :
    c ∉ spaces := by
  simp_all [isWordChar]

end Token

/-- The tokens of a source text, unless a part of it belongs to no token. -/
def tokens? :
    List Char → Option (List Token)
  | [] => some []
  | c :: rest =>
      match _read : Token.read? c rest with
      | none => none
      | some (token, later) => (tokens? later).map (token.toList ++ ·)
termination_by text => text.length
decreasing_by
  have := Token.length_le_of_read? _read
  simp only [List.length_cons]
  omega

/-- The tokens of a text start with the one that is read first. -/
theorem tokens?_cons
    {c : Char}
    {rest : List Char}
    (later : List Char)
    (token : Option Token)
    (read : Token.read? c rest = some (token, later)) :
    tokens? (c :: rest) = (tokens? later).map (token.toList ++ ·) := by
  rw [tokens?]
  split
  · simp_all
  · rename_i other _ again
    obtain ⟨rfl, rfl⟩ := Prod.mk.inj (Option.some.inj (read.symm.trans again))
    rfl

/-- A text is written as some tokens before the end, and before every text of which
the first character passes a test. -/
def Spells
    (follows : Char → Bool)
    (text : String)
    (tokens : List Token) :
    Prop :=
  ∀ rest, (∀ c ∈ rest.head?, follows c = true) →
    tokens? (text.toList ++ rest) = (tokens? rest).map (tokens ++ ·)

/-- Every character may follow. -/
def anything
    (_ : Char) :
    Bool :=
  true

/-- Whether a character neither goes on with a word nor joins an operator. -/
def endsToken
    (c : Char) :
    Bool :=
  !Token.isWordChar c && c != '='

/-- Whether a character does not join an operator before it. -/
def endsOperator
    (c : Char) :
    Bool :=
  c != '=' && !c.isDigit

/-- What ends a token does not join an operator either. -/
theorem endsOperator_of_endsToken
    (c : Char)
    (ends : endsToken c = true) :
    endsOperator c = true := by
  simp only [endsToken, Bool.and_eq_true, Bool.not_eq_true'] at ends
  have noDigit : c.isDigit = false := by
    cases isDigit : c.isDigit with
    | false =>
        rfl
    | true =>
        rw [Token.isWordChar_of_isDigit isDigit] at ends
        cases ends.1
  simp_all [endsOperator]

namespace Spells

variable
  {follows later : Char → Bool}
  {text other : String}
  {tokens more : List Token}

/-- The tokens of a whole text. -/
theorem tokens?_eq
    (spells : Spells follows text tokens) :
    tokens? text.toList = some tokens := by
  have whole := spells [] (by simp)
  rwa [List.append_nil, tokens?, Option.map_some, List.append_nil] at whole

/-- What may follow may be said less exactly. -/
theorem weaken
    (spells : Spells follows text tokens)
    (implies : ∀ c, later c = true → follows c = true) :
    Spells later text tokens :=
  fun rest starts => spells rest fun c member => implies c (starts c member)

theorem append
    (first : Spells follows text tokens)
    (second : Spells later other more)
    (starts : ∃ c ∈ other.toList.head?, follows c = true) :
    Spells later (text ++ other) (tokens ++ more) := by
  intro rest restStarts
  obtain ⟨c, isHead, isFollowing⟩ := starts
  obtain ⟨tail, shape⟩ : ∃ tail, other.toList = c :: tail := by
    cases shape : other.toList <;> simp_all
  rw [String.toList_append, List.append_assoc, first, second rest restStarts, Option.map_map]
  · congr 1
    funext tokens
    simp
  · simp_all

/-- A text that is written the same before everything may be followed by any. -/
theorem closed
    (first : Spells anything text tokens)
    (second : Spells later other more) :
    Spells later (text ++ other) (tokens ++ more) := by
  intro rest restStarts
  rw [String.toList_append, List.append_assoc, first _ fun _ _ => rfl, second rest restStarts,
    Option.map_map]
  congr 1
  funext tokens
  simp

/-- No text has no tokens. -/
theorem empty :
    Spells anything "" [] := by
  intro rest _
  simp

/-- A character is a token of its own, or none, whatever follows. -/
theorem char
    {c : Char}
    (token : Option Token)
    (read : ∀ rest, (∀ d ∈ rest.head?, follows d = true) →
      Token.read? c rest = some (token, rest)) :
    Spells follows (String.ofList [c]) token.toList := by
  intro rest starts
  rw [String.toList_ofList, List.singleton_append, tokens?_cons rest token (read rest starts)]

end Spells

/-- Separators that never join another character. -/
theorem spells_separator
    {c : Char}
    (member : c ∈ ['(', ')', '\x7b', '\x7d', '[', ']', ',', '.', ';', ':', '?']) :
    Spells anything (String.ofList [c]) [.mark (String.ofList [c])] := by
  refine Spells.char (some (.mark (String.ofList [c]))) fun rest _ => ?_
  simp only [List.mem_cons, List.not_mem_nil, or_false] at member
  rcases member with rfl | rfl | rfl | rfl | rfl | rfl | rfl | rfl | rfl | rfl | rfl <;> rfl

/-- White space is no token. -/
theorem spells_space
    {c : Char}
    (member : c ∈ Token.spaces) :
    Spells anything (String.ofList [c]) [] := by
  refine Spells.char none fun rest _ => ?_
  simp only [Token.read?, List.contains_iff_mem.mpr member, if_true]

/-- A blank is no token. -/
theorem spells_blank :
    Spells anything " " [] :=
  spells_space (c := ' ') (by decide)

/-- The end of a line is no token. -/
theorem spells_lineEnd :
    Spells anything "\n" [] :=
  spells_space (c := '\n') (by decide)

/-- An operator of one character is a token before what it does not join. -/
theorem spells_operator
    {c : Char}
    (member : c ∈ ['<', '>', '=', '+', '-', '*']) :
    Spells endsOperator (String.ofList [c]) [.mark (String.ofList [c])] := by
  refine Spells.char (some (.mark (String.ofList [c]))) fun rest starts => ?_
  have noEquals : rest.head? ≠ some '=' := fun isEquals => by
    simpa [endsOperator] using starts '=' isEquals
  have noDigit : rest.head?.any Char.isDigit = false := by
    cases shape : rest.head? with
    | none =>
        rfl
    | some c =>
        simpa [endsOperator] using (starts c shape) |> And.right ∘ Bool.and_eq_true_iff.mp
  simp only [List.mem_cons, List.not_mem_nil, or_false] at member
  rcases member with rfl | rfl | rfl | rfl | rfl | rfl <;>
    simp [Token.read?, Token.spaces, Token.isWordChar, Token.marks, noEquals, noDigit]

/-- An operator that ends in an equals sign is a token. -/
theorem spells_joined
    {c : Char}
    (member : c ∈ ['<', '>', '=', '!', '+', '-', '*']) :
    Spells anything (String.ofList [c, '=']) [.mark (String.ofList [c, '='])] := by
  intro rest _
  rw [String.toList_ofList]
  refine tokens?_cons rest (some (.mark (String.ofList [c, '=']))) ?_
  simp only [List.mem_cons, List.not_mem_nil, or_false] at member
  rcases member with rfl | rfl | rfl | rfl | rfl | rfl | rfl <;> rfl

/-- Characters that pass a test are split off before one that does not. -/
theorem split_run
    {test : Char → Bool}
    {chars rest : List Char}
    (passes : ∀ c ∈ chars, test c = true)
    (stops : ∀ c ∈ rest.head?, test c = false) :
    (chars ++ rest).takeWhile test = chars ∧ (chars ++ rest).dropWhile test = rest := by
  rw [List.takeWhile_append_of_pos passes, List.dropWhile_append_of_pos passes]
  cases rest with
  | nil =>
      simp
  | cons c tail =>
      have stopsThere := stops c rfl
      simp [stopsThere]

/-- Whether a text is a word: it starts with no digit, which would start an integer. -/
def isWord
    (text : String) :
    Bool :=
  text.toList.head?.any (fun c => !c.isDigit) && text.toList.all Token.isWordChar

/-- A word starts with a character of words. -/
theorem exists_of_isWord
    {text : String}
    (word : isWord text = true) :
    ∃ c chars, text.toList = c :: chars ∧ c.isDigit = false ∧
      ∀ d ∈ c :: chars, Token.isWordChar d = true := by
  simp only [isWord, Bool.and_eq_true, List.all_eq_true] at word
  cases shape : text.toList with
  | nil =>
      simp [shape] at word
  | cons c chars =>
      exact ⟨c, chars, rfl, by simpa [shape] using word.1, shape ▸ word.2⟩

/-- A word is a token before what ends a token. -/
theorem spells_word
    {text : String}
    (word : isWord text = true) :
    Spells endsToken text [.word text] := by
  obtain ⟨c, chars, shape, noDigit, isWord⟩ := exists_of_isWord word
  intro rest starts
  have stops : ∀ d ∈ rest.head?, Token.isWordChar d = false := by
    intro d isHead
    have ends := starts d isHead
    simp_all [endsToken]
  obtain ⟨taken, dropped⟩ :=
    split_run (fun d member => isWord d (List.mem_cons_of_mem c member)) stops
  have first := isWord c (by simp)
  have same : String.ofList (c :: chars) = text := by
    rw [← shape, String.ofList_toList]
  rw [shape, List.cons_append, tokens?_cons rest (some (.word text))]
  · rfl
  · simp [Token.read?, Token.not_mem_spaces_of_isWordChar first, noDigit, first, taken, dropped,
      same]

/-- A number is written with at least one digit. -/
theorem exists_digits
    (value : Nat) :
    ∃ c chars, value.repr.toList = c :: chars ∧ (∀ d ∈ c :: chars, d.isDigit = true) ∧
      Nat.ofDigitChars 10 (c :: chars) 0 = value := by
  obtain ⟨c, chars, shape⟩ := List.exists_cons_of_ne_nil (@Nat.toDigits_ne_nil value 10)
  refine ⟨c, chars, Nat.toList_repr.trans shape, fun d member => ?_, ?_⟩
  · exact Nat.isDigit_of_mem_toDigits (by decide) (by decide) (shape ▸ member)
  · rw [← shape, Nat.ofDigitChars_ten_toDigits]

/-- An integer is written as its digits, behind a minus sign if it is negative. -/
theorem spells_integer
    (value : Int) :
    Spells (fun c => !c.isDigit) (toString value) [.integer value] := by
  intro rest starts
  have stops : ∀ d ∈ rest.head?, d.isDigit = false := fun d isHead => by
    simpa using starts d isHead
  cases value with
  | ofNat value =>
      obtain ⟨c, chars, shape, isDigit, isValue⟩ := exists_digits value
      obtain ⟨taken, dropped⟩ :=
        split_run (fun d member => isDigit d (List.mem_cons_of_mem c member)) stops
      have first := isDigit c (by simp)
      have noSpace := Token.not_mem_spaces_of_isWordChar (Token.isWordChar_of_isDigit first)
      rw [show (toString (Int.ofNat value)).toList = c :: chars from shape, List.cons_append,
        tokens?_cons rest (some (.integer value))]
      · rfl
      · simp [Token.read?, noSpace, first, taken, dropped, isValue]
  | negSucc below =>
      obtain ⟨c, chars, shape, isDigit, isValue⟩ := exists_digits (below + 1)
      obtain ⟨taken, dropped⟩ := split_run isDigit stops
      have first := isDigit c (by simp)
      have digits : (toString (Int.negSucc below)).toList = '-' :: (c :: chars) := by
        rw [← shape]
        exact String.toList_append
      rw [digits, List.cons_append,
        tokens?_cons rest (some (.integer (Int.negSucc below)))]
      · rfl
      · rw [Token.read?, taken, dropped, isValue, Int.negSucc_eq]
        simp [Token.spaces, Token.isWordChar, Token.marks, first]

/-- A character of a string literal is read back. -/
theorem Token.readString_literalChar
    (c : Char)
    (text : List Char) :
    readString false ((literalChar c).toList ++ text) =
      (readString false text).map (Prod.map (c :: ·) id) := by
  unfold literalChar
  split
  case h_6 noBackslash noQuote noNewline noReturn noTab =>
    have single : c.toString.toList = [c] := by
      simp
    rw [single, List.singleton_append, readString]
    simp_all
  all_goals rfl

/-- A string literal is read back. -/
theorem spells_literalText
    (value : String) :
    Spells anything (literalText value) [.string value] := by
  have body (chars rest : List Char) :
      Token.readString false (chars.flatMap (fun c => (literalChar c).toList) ++ '\"' :: rest) =
        some (chars, rest) := by
    induction chars with
    | nil =>
        rfl
    | cons c chars inductionHypothesis =>
        rw [List.flatMap_cons, List.append_assoc, Token.readString_literalChar,
          inductionHypothesis]
        rfl
  intro rest _
  have shape : (literalText value).toList ++ rest =
      '\"' :: (value.toList.flatMap (fun c => (literalChar c).toList) ++ '\"' :: rest) := by
    simp [literalText, List.flatMap_map]
  rw [shape, tokens?_cons rest (some (.string value))]
  · rfl
  · simp [Token.read?, Token.spaces, Token.isWordChar, Token.marks, body]

end LoopLowering
