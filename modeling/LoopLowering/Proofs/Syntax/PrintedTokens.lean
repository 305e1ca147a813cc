import LoopLowering.Proofs.Syntax.Tokens
import Mathlib.Data.List.Forall2

namespace LoopLowering

/-!
# Tokens of printed programs

What the printer writes, token by token: types, expressions and declarations. Where
every name is an identifier, the text is written as exactly these tokens.
-/

/-- The words that cannot be names. -/
def reservedWords :
    List String :=
  ["abstract", "assert", "boolean", "break", "byte", "case", "catch", "char", "class", "const",
    "continue", "default", "do", "double", "else", "enum", "extends", "false", "final", "finally",
    "float", "for", "goto", "if", "implements", "import", "instanceof", "int", "interface", "long",
    "native", "new", "null", "package", "private", "protected", "public", "return", "short",
    "static", "strictfp", "super", "switch", "synchronized", "this", "throw", "throws",
    "transient", "true", "try", "void", "volatile", "while"]

/-- Whether a text is a word that can be a name. -/
def isIdentifier
    (text : String) :
    Bool :=
  isWord text && !reservedWords.contains text

/-- Whether a text can be the name of a type: that of a class or of a primitive type. -/
def isTypeName
    (text : String) :
    Bool :=
  isIdentifier text || (Primitive.ofName? text).isSome

/-- An identifier is no reserved word. -/
theorem ne_of_isIdentifier
    {text word : String}
    (identifier : isIdentifier text = true)
    (reserved : word ∈ reservedWords) :
    text ≠ word := by
  rintro rfl
  simp_all [isIdentifier]

/-- An identifier is a word. -/
theorem isWord_of_isIdentifier
    {text : String}
    (identifier : isIdentifier text = true) :
    isWord text = true := by
  simp_all [isIdentifier]

/-- The name of a type is a word. -/
theorem isWord_of_isTypeName
    {text : String}
    (typeName : isTypeName text = true) :
    isWord text = true := by
  simp only [isTypeName, Bool.or_eq_true] at typeName
  rcases typeName with identifier | isPrimitive
  · exact isWord_of_isIdentifier identifier
  · obtain ⟨primitive, found⟩ := Option.isSome_iff_exists.mp isPrimitive
    rw [Primitive.ofName?] at found
    have isName := List.find?_some found
    rw [← beq_iff_eq.mp isName]
    cases primitive <;> decide

/-- What is behind a token is less than what starts before it. -/
theorem length_behind_lt
    (before : List Token)
    (token : Token)
    (behind : List Token) :
    behind.length < (before ++ token :: behind).length := by
  rw [List.length_append, List.length_cons]
  omega

/-- Put tokens in parentheses if they need them. -/
def parenthesizedTokens
    (needed : Bool)
    (tokens : List Token) :
    List Token :=
  if needed then .mark "(" :: (tokens ++ [.mark ")"]) else tokens

/-- Tokens with commas between them. -/
def commaSeparated
    (items : List (List Token)) :
    List Token :=
  [Token.mark ","].intercalate items

@[simp] theorem commaSeparated_singleton
    {item : List Token} :
    commaSeparated [item] = item := by
  simp [commaSeparated]

@[simp] theorem commaSeparated_cons
    {item second : List Token}
    {items : List (List Token)} :
    commaSeparated (item :: second :: items) =
      item ++ .mark "," :: commaSeparated (second :: items) := by
  simp [commaSeparated]

namespace TypeExpr

mutual

/-- Whether the names of a written type are names of types. -/
def isNamed :
    TypeExpr → Bool
  | .named _ name => isTypeName name
  | .generic _ name args => isIdentifier name && areNamed args
  | .array _ component => component.isNamed
  | .wildcard _ => true
  | .wildcardExtends _ bound => bound.isNamed

/-- Whether the names of written types are names of types. -/
def areNamed :
    List TypeExpr → Bool
  | [] => true
  | type :: rest => type.isNamed && areNamed rest

end

mutual

/-- The tokens of a written type. -/
def tokens :
    TypeExpr → List Token
  | .named _ name => [.word name]
  | .generic _ name args =>
      .word name :: .mark "<" :: (commaSeparated (allTokens args) ++ [.mark ">"])
  | .array _ component => component.tokens ++ [.mark "[", .mark "]"]
  | .wildcard _ => [.mark "?"]
  | .wildcardExtends _ bound => .mark "?" :: .word "extends" :: bound.tokens

/-- The tokens of each of the written types. -/
def allTokens :
    List TypeExpr → List (List Token)
  | [] => []
  | type :: rest => type.tokens :: allTokens rest

end

end TypeExpr

namespace Spells

variable
  {follows : Char → Bool}
  {text : String}
  {tokens : List Token}

/-- What is written the same before everything is so before what is asked for. -/
theorem before
    (spells : Spells anything text tokens)
    (follows : Char → Bool) :
    Spells follows text tokens :=
  spells.weaken fun _ _ => rfl

/-- Texts with commas between them. -/
theorem separated
    {texts : List String}
    {items : List (List Token)}
    (spell : List.Forall₂ (Spells endsToken) texts items) :
    Spells endsToken (String.intercalate ", " texts) (commaSeparated items) := by
  have comma : Spells anything ", " [.mark ","] :=
    (spells_separator (c := ',') (by decide)).closed spells_blank
  induction spell with
  | nil =>
      exact empty.before _
  | cons first rest inductionHypothesis =>
      cases rest with
      | nil =>
          simpa using first
      | cons second rest =>
          have joined := (first.append comma ⟨',', rfl, rfl⟩).closed inductionHypothesis
          simpa [String.append_assoc] using joined

/-- A text in parentheses. -/
theorem inParentheses
    (spells : Spells endsToken text tokens) :
    Spells anything ("(" ++ text ++ ")") (.mark "(" :: (tokens ++ [.mark ")"])) :=
  ((spells_separator (c := '(') (by decide)).closed spells).append
    (spells_separator (c := ')') (by decide)) ⟨')', rfl, rfl⟩

end Spells

namespace TypeExpr

/-- A word does not join an operator before it. -/
theorem exists_head_of_isWord
    {name : String}
    (word : isWord name = true) :
    ∃ c ∈ name.toList.head?, endsOperator c = true := by
  obtain ⟨c, chars, shape, noDigit, isWord⟩ := exists_of_isWord word
  have noEquals : c ≠ '=' := by
    rintro rfl
    exact absurd (isWord '=' (by simp)) (by decide)
  exact ⟨c, by rw [shape]; rfl, by simp [endsOperator, noDigit, noEquals]⟩

/-- The text of a written type does not join an operator before it. -/
theorem exists_head_text :
    ∀ type : TypeExpr, type.isNamed = true → ∃ c ∈ type.text.toList.head?, endsOperator c = true
  | .named _ name, names => exists_head_of_isWord (isWord_of_isTypeName names)
  | .generic _ name args, names => by
      simp only [isNamed, Bool.and_eq_true] at names
      obtain ⟨c, isHead, starts⟩ := exists_head_of_isWord (isWord_of_isIdentifier names.1)
      refine ⟨c, ?_, starts⟩
      simp only [text, String.toList_append, List.append_assoc]
      exact List.mem_head?_append_of_mem_head? isHead
  | .array _ component, names => by
      obtain ⟨c, isHead, starts⟩ := exists_head_text component names
      refine ⟨c, ?_, starts⟩
      rw [text, String.toList_append]
      exact List.mem_head?_append_of_mem_head? isHead
  | .wildcard _, _ => ⟨'?', by simp [text], by decide⟩
  | .wildcardExtends _ bound, _ => ⟨'?', by simp [text], by decide⟩

mutual

/-- A written type is written as its tokens. -/
theorem spells_text :
    ∀ type : TypeExpr, type.isNamed = true → Spells endsToken type.text type.tokens
  | .named _ name, names => spells_word (isWord_of_isTypeName names)
  | .generic _ name args, names => by
      simp only [isNamed, Bool.and_eq_true] at names
      have opening : Spells endsOperator (name ++ "<") [.word name, .mark "<"] :=
        (spells_word (isWord_of_isIdentifier names.1)).append
          (spells_operator (c := '<') (by decide)) ⟨'<', rfl, rfl⟩
      have closing : Spells endsOperator ">" [.mark ">"] := spells_operator (c := '>') (by decide)
      have inner := (Spells.separated (spells_textAll args names.2)).append closing ⟨'>', rfl, rfl⟩
      have whole := (opening.append inner ?_).weaken endsOperator_of_endsToken
      · simpa [text, tokens, String.append_assoc] using whole
      · cases args with
        | nil =>
            exact ⟨'>', by simp [textAll], rfl⟩
        | cons first rest =>
            simp only [areNamed, Bool.and_eq_true] at names
            obtain ⟨c, isHead, starts⟩ := exists_head_text first names.2.1
            have isHead := Option.mem_def.mp isHead
            exact ⟨c, by cases rest <;> simp [textAll, isHead], starts⟩
  | .array _ component, names => by
      have brackets : Spells anything "[]" [.mark "[", .mark "]"] :=
        (spells_separator (c := '[') (by decide)).closed (spells_separator (c := ']') (by decide))
      exact ((spells_text component names).append brackets ⟨'[', rfl, rfl⟩).before _
  | .wildcard _, _ => (spells_separator (c := '?') (by decide)).before _
  | .wildcardExtends _ bound, names => by
      have opening : Spells anything "? extends " [.mark "?", .word "extends"] :=
        (spells_separator (c := '?') (by decide)).closed
          (spells_blank.closed
            ((show Spells endsToken "extends" [.word "extends"] from spells_word (by decide)).append
              spells_blank ⟨' ', rfl, rfl⟩))
      exact opening.closed (spells_text bound names)

theorem spells_textAll :
    ∀ types : List TypeExpr,
      areNamed types = true → List.Forall₂ (Spells endsToken) (textAll types) (allTokens types)
  | [], _ => .nil
  | type :: rest, names => by
      simp only [areNamed, Bool.and_eq_true] at names
      exact .cons (spells_text type names.1) (spells_textAll rest names.2)

end

end TypeExpr

/-- The tokens between the target of an assignment and its value. A comparison does
not join the equals sign if it ends in one itself. -/
def assignTokens
    (op : Option BinOp) :
    List Token :=
  match op with
  | none => [.mark "="]
  | some .le => [.mark "<=", .mark "="]
  | some .ge => [.mark ">=", .mark "="]
  | some .eq => [.mark "==", .mark "="]
  | some .ne => [.mark "!=", .mark "="]
  | some op => [.mark (op.symbol ++ "=")]

/-- An operator is a token before what it does not join. -/
theorem BinOp.spells_symbol
    (op : BinOp) :
    Spells endsOperator op.symbol [.mark op.symbol] := by
  cases op
  case le | ge =>
    exact (spells_joined (by decide)).before _
  case eq | ne =>
    exact (spells_joined (by decide)).before _
  all_goals
    exact spells_operator (by decide)

/-- An operator between blanks. -/
theorem BinOp.spells_between
    (op : BinOp) :
    Spells anything (" " ++ op.symbol ++ " ") [.mark op.symbol] :=
  (spells_blank.closed op.spells_symbol).append
    spells_blank ⟨' ', rfl, rfl⟩

/-- What stands between the target of an assignment and its value. -/
theorem spells_assign
    (op : Option BinOp) :
    Spells anything (" " ++ (op.map BinOp.symbol).getD "" ++ "= ") (assignTokens op) := by
  have blank : Spells anything " " [] := spells_blank
  have equals : Spells anything "= " [.mark "="] :=
    (spells_operator (c := '=') (by decide)).append blank ⟨' ', rfl, rfl⟩
  cases op with
  | none =>
      exact blank.closed equals
  | some op =>
      cases op with
      | le | ge | eq | ne =>
          exact (blank.closed (spells_joined (by decide))).closed equals
      | add =>
          exact (blank.closed (spells_joined (c := '+') (by decide))).closed blank
      | sub =>
          exact (blank.closed (spells_joined (c := '-') (by decide))).closed blank
      | mul =>
          exact (blank.closed (spells_joined (c := '*') (by decide))).closed blank
      | lt =>
          exact (blank.closed (spells_joined (c := '<') (by decide))).closed blank
      | gt =>
          exact (blank.closed (spells_joined (c := '>') (by decide))).closed blank

namespace Expr

mutual

/-- Whether the names in an expression are identifiers and names of types. -/
def isNamed :
    Expr → Bool
  | .intLit .. | .boolLit .. | .stringLit .. | .null _ => true
  | .name _ ref => isIdentifier ref.name
  | .newArray _ component elements => component.isNamed && areNamed elements
  | .binary _ _ left right => left.isNamed && right.isNamed
  | .assign _ target _ value => isIdentifier target.node.name && value.isNamed
  | .call _ function args => isIdentifier function.node && areNamed args
  | .methodCall _ receiver method args =>
      receiver.isNamed && isIdentifier method.node && areNamed args

/-- Whether the names in expressions are identifiers and names of types. -/
def areNamed :
    List Expr → Bool
  | [] => true
  | expr :: rest => expr.isNamed && areNamed rest

end

mutual

/-- The tokens of an expression in a place that demands a binding strength. -/
def tokensIn
    (demanded : Nat) :
    Expr → List Token
  | .intLit _ value => [.integer value.toInt]
  | .boolLit _ value => [.word (if value then "true" else "false")]
  | .stringLit _ value => [.string value]
  | .null _ => [.word "null"]
  | .name _ ref => [.word ref.name]
  | .newArray _ component elements =>
      .word "new" :: ((component.tokens ++ [.mark "[", .mark "]"]) ++
        .mark "\x7b" :: (commaSeparated (allTokens elements) ++ [.mark "\x7d"]))
  | .binary _ op left right =>
      parenthesizedTokens (decide (op.precedence < demanded))
        (left.tokensIn op.precedence ++ .mark op.symbol :: right.tokensIn (op.precedence + 1))
  | .assign _ target op value =>
      parenthesizedTokens (decide (0 < demanded))
        (.word target.node.name :: (assignTokens op ++ value.tokensIn 0))
  | .call _ function args =>
      .word function.node :: .mark "(" :: (commaSeparated (allTokens args) ++ [.mark ")"])
  | .methodCall _ receiver method args =>
      receiver.tokensIn receiverPrecedence ++ .mark "." :: .word method.node :: .mark "(" ::
        (commaSeparated (allTokens args) ++ [.mark ")"])

/-- The tokens of each of the expressions that stand on their own. -/
def allTokens :
    List Expr → List (List Token)
  | [] => []
  | expr :: rest => expr.tokensIn 0 :: allTokens rest

end

/-- Parentheses where they are needed. -/
theorem spells_parenthesized
    {text : String}
    {tokens : List Token}
    (needed : Bool)
    (spells : Spells endsToken text tokens) :
    Spells endsToken (parenthesized needed text) (parenthesizedTokens needed tokens) := by
  cases needed with
  | false =>
      exact spells
  | true =>
      exact spells.inParentheses.before _

mutual

/-- An expression is written as its tokens. -/
theorem spells_textIn :
    ∀ (expr : Expr) (demanded : Nat),
      expr.isNamed = true → Spells endsToken (expr.textIn demanded) (expr.tokensIn demanded)
  | .intLit _ value, _, _ =>
      (spells_integer value.toInt).weaken fun c ends => by
        have both := Bool.and_eq_true_iff.mp (endsOperator_of_endsToken c ends)
        simpa [endsOperator] using both.2
  | .boolLit _ value, _, _ => by
      cases value with
      | false =>
          exact show Spells endsToken "false" _ from spells_word (by decide)
      | true =>
          exact show Spells endsToken "true" _ from spells_word (by decide)
  | .stringLit _ value, _, _ => (spells_literalText value).before _
  | .null _, _, _ => show Spells endsToken "null" _ from spells_word (by decide)
  | .name _ ref, _, names => spells_word (isWord_of_isIdentifier names)
  | .newArray _ component elements, _, names => by
      simp only [isNamed, Bool.and_eq_true] at names
      have keyword : Spells anything "new " [.word "new"] :=
        (show Spells endsToken "new" [.word "new"] from spells_word (by decide)).append
          spells_blank ⟨' ', rfl, rfl⟩
      have opening : Spells anything "[] \x7b" [.mark "[", .mark "]", .mark "\x7b"] :=
        (spells_separator (c := '[') (by decide)).closed
          ((spells_separator (c := ']') (by decide)).closed
            (spells_blank.closed
              (spells_separator (c := '\x7b') (by decide))))
      have closing : Spells anything "\x7d" [.mark "\x7d"] :=
        spells_separator (c := '\x7d') (by decide)
      have inner := (Spells.separated (spells_textAll elements names.2)).append closing
        ⟨'\x7d', rfl, rfl⟩
      have whole := (keyword.closed (component.spells_text names.1)).append
        (opening.closed inner) ⟨'[', by simp, rfl⟩
      simpa [textIn, tokensIn, String.append_assoc] using whole.before endsToken
  | .binary _ op left right, _, names => by
      simp only [isNamed, Bool.and_eq_true] at names
      refine spells_parenthesized _ ?_
      have first := spells_textIn left op.precedence names.1
      have second := spells_textIn right (op.precedence + 1) names.2
      have both := (first.append op.spells_between ⟨' ', by simp, rfl⟩).closed second
      simpa [String.append_assoc] using both
  | .assign _ target op value, _, names => by
      simp only [isNamed, Bool.and_eq_true] at names
      refine spells_parenthesized _ ?_
      have target := (spells_word (isWord_of_isIdentifier names.1)).append (spells_assign op)
        ⟨' ', by simp, rfl⟩
      simpa [String.append_assoc] using target.closed (spells_textIn value 0 names.2)
  | .call _ function args, _, names => by
      simp only [isNamed, Bool.and_eq_true] at names
      have inner := (Spells.separated (spells_textAll args names.2)).inParentheses
      have whole := (spells_word (isWord_of_isIdentifier names.1)).append inner ⟨'(', by simp, rfl⟩
      simpa [textIn, tokensIn, String.append_assoc] using whole.before endsToken
  | .methodCall _ receiver method args, _, names => by
      simp only [isNamed, Bool.and_eq_true] at names
      have inner := (Spells.separated (spells_textAll args names.2)).inParentheses
      have called :=
        (spells_word (isWord_of_isIdentifier names.1.2)).append inner ⟨'(', by simp, rfl⟩
      have dot : Spells anything "." [.mark "."] := spells_separator (c := '.') (by decide)
      have whole := (spells_textIn receiver receiverPrecedence names.1.1).append
        (dot.closed called) ⟨'.', by simp, rfl⟩
      simpa [textIn, tokensIn, String.append_assoc] using whole.before endsToken

theorem spells_textAll :
    ∀ exprs : List Expr,
      areNamed exprs = true → List.Forall₂ (Spells endsToken) (textAll exprs) (allTokens exprs)
  | [], _ => .nil
  | expr :: rest, names => by
      simp only [areNamed, Bool.and_eq_true] at names
      exact .cons (spells_textIn expr 0 names.1) (spells_textAll rest names.2)

end

/-- An expression that stands on its own is written as its tokens. -/
theorem spells_text
    (expr : Expr)
    (names : expr.isNamed = true) :
    Spells endsToken expr.text (expr.tokensIn 0) :=
  expr.spells_textIn 0 names

end Expr

end LoopLowering
