import LoopLowering.Proofs.Syntax.PrintedTokens

namespace LoopLowering

/-!
# Tokens of printed statements

What the printer writes for local declarations, jumps and statements, token by token.
Lines and indentation separate tokens and are none themselves.
-/

/-- The tokens of a local declaration, without its semicolon. -/
def LocalDecl.tokens
    (decl : LocalDecl) :
    List Token :=
  (if decl.isFinal then [.word "final"] else []) ++ decl.type.tokens ++ .word decl.name.node ::
    match decl.initial with
    | some value => .mark "=" :: value.tokensIn 0
    | none => []

/-- Whether the names in a local declaration are identifiers and names of types. -/
def LocalDecl.isNamed
    (decl : LocalDecl) :
    Bool :=
  decl.type.isNamed && isIdentifier decl.name.node && decl.initial.all Expr.isNamed

/-- The tokens of a jump, without its semicolon. -/
def jumpTokens
    (keyword : String)
    (label : Option (Spanned String)) :
    List Token :=
  .word keyword :: label.toList.map (fun name => .word name.node)

namespace Stmt

mutual

/-- Whether the names in a statement are identifiers and names of types. -/
def isNamed :
    Stmt → Bool
  | .localVar _ decl => decl.isNamed
  | .expr _ value => value.isNamed
  | .block _ stmts _ => areNamed stmts
  | .branch _ condition thenBranch none => condition.isNamed && thenBranch.isNamed
  | .branch _ condition thenBranch (some elseBranch) =>
      condition.isNamed && thenBranch.isNamed && elseBranch.isNamed
  | .forEach _ element collection none _ => element.isNamed && collection.isNamed
  | .forEach _ element collection (some action) _ =>
      element.isNamed && collection.isNamed && action.isNamed
  | .labeled _ label body => isIdentifier label.node && body.isNamed
  | .breakTo _ label | .continueTo _ label => label.all (fun name => isIdentifier name.node)
  | .returnWith _ value => value.all Expr.isNamed
  | .empty _ => true

/-- Whether the names in statements are identifiers and names of types. -/
def areNamed :
    List Stmt → Bool
  | [] => true
  | stmt :: rest => stmt.isNamed && areNamed rest

end

mutual

/-- The tokens of a statement. -/
def tokens :
    Stmt → List Token
  | .localVar _ decl => decl.tokens ++ [.mark ";"]
  | .expr _ value => value.tokensIn 0 ++ [.mark ";"]
  | .block _ stmts _ => .mark "\x7b" :: (allTokens stmts ++ [.mark "\x7d"])
  | .branch _ condition thenBranch none =>
      .word "if" :: .mark "(" :: (condition.tokensIn 0 ++ .mark ")" :: thenBranch.tokens)
  | .branch _ condition thenBranch (some elseBranch) =>
      .word "if" :: .mark "(" :: (condition.tokensIn 0 ++ .mark ")" ::
        (thenBranch.tokens ++ .word "else" :: elseBranch.tokens))
  | .forEach _ element collection none _ =>
      .word "for" :: .mark "(" :: (element.tokens ++ .mark ":" ::
        (collection.tokensIn 0 ++ .mark ")" :: [.mark ";"]))
  | .forEach _ element collection (some action) _ =>
      .word "for" :: .mark "(" :: (element.tokens ++ .mark ":" ::
        (collection.tokensIn 0 ++ .mark ")" :: action.tokens))
  | .labeled _ label body => .word label.node :: .mark ":" :: body.tokens
  | .breakTo _ label => jumpTokens "break" label ++ [.mark ";"]
  | .continueTo _ label => jumpTokens "continue" label ++ [.mark ";"]
  | .returnWith _ none => [.word "return", .mark ";"]
  | .returnWith _ (some value) => (.word "return" :: value.tokensIn 0) ++ [.mark ";"]
  | .empty _ => [.mark ";"]

/-- The tokens of statements, one after the other. -/
def allTokens :
    List Stmt → List Token
  | [] => []
  | stmt :: rest => stmt.tokens ++ allTokens rest

end

end Stmt

/-! ## Spelling -/

/-- A word before a blank. -/
theorem spells_keyword
    {word : String}
    (isWord : isWord word = true) :
    Spells anything (word ++ " ") [.word word] :=
  (spells_word isWord).append spells_blank ⟨' ', rfl, rfl⟩

/-- A local declaration is written as its tokens. -/
theorem LocalDecl.spells_text
    (decl : LocalDecl)
    (names : decl.isNamed = true) :
    Spells endsToken decl.text decl.tokens := by
  simp only [isNamed, Bool.and_eq_true] at names
  have modifier : Spells anything (if decl.isFinal then "final " else "")
      (if decl.isFinal then [.word "final"] else []) := by
    split
    · simpa using @spells_keyword "final" (by decide)
    · exact Spells.empty
  have declared : Spells anything (decl.type.text ++ " ") decl.type.tokens := by
    simpa using (decl.type.spells_text names.1.1).append spells_blank
      ⟨' ', rfl, rfl⟩
  have name := spells_word (isWord_of_isIdentifier names.1.2)
  cases initial : decl.initial with
  | none =>
      have whole := modifier.closed (declared.closed name)
      simpa [text, tokens, initial, String.append_assoc] using whole
  | some value =>
      rw [initial] at names
      have equals : Spells anything " = " [.mark "="] :=
        spells_blank.closed
          ((spells_operator (c := '=') (by decide)).append spells_blank ⟨' ', rfl, rfl⟩)
      have assigned := equals.closed (value.spells_text names.2)
      have whole := modifier.closed (declared.closed (name.append assigned ⟨' ', by simp, rfl⟩))
      simpa [text, tokens, initial, String.append_assoc] using whole

/-- A jump is written as its tokens. -/
theorem spells_jumpText
    {keyword : String}
    {label : Option (Spanned String)}
    (isWord : isWord keyword = true)
    (names : label.all (fun name => isIdentifier name.node) = true) :
    Spells endsToken (jumpText keyword label) (jumpTokens keyword label) := by
  cases label with
  | none => exact spells_word isWord
  | some name =>
      exact (spells_keyword isWord).closed (spells_word (isWord_of_isIdentifier names))

/-- Indentation is no token. -/
theorem spells_indentation
    (depth : Nat) :
    Spells anything (indentation depth) [] := by
  have blanks : Spells anything "    " [] :=
    spells_blank.closed (spells_blank.closed
      (spells_blank.closed spells_blank))
  induction depth with
  | zero => exact Spells.empty
  | succ depth inductionHypothesis =>
      have shape : indentation (depth + 1) = "    " ++ indentation depth := by
        simp [indentation, List.replicate_succ]
      rw [shape]
      exact blanks.closed inductionHypothesis

/-- A text that a semicolon ends. -/
theorem Spells.terminated
    {text : String}
    {tokens : List Token}
    (spells : Spells endsToken text tokens) :
    Spells anything (text ++ ";") (tokens ++ [.mark ";"]) :=
  spells.append (spells_separator (c := ';') (by decide)) ⟨';', rfl, rfl⟩

namespace Stmt

/-- What stands before the body of a governing statement is no token. -/
theorem spells_bodyLead
    (body : Stmt)
    (depth : Nat) :
    Spells anything (body.bodyLead depth) [] := by
  unfold bodyLead
  split
  · exact spells_blank
  · exact spells_lineEnd.closed (spells_indentation (depth + 1))

/-- What stands before the body of a governing statement ends a word. -/
theorem exists_head_bodyLead
    (body : Stmt)
    (depth : Nat)
    (text : String) :
    ∃ c ∈ (body.bodyLead depth ++ text).toList.head?, endsToken c = true := by
  unfold bodyLead
  split
  · exact ⟨' ', by simp, rfl⟩
  · exact ⟨'\n', by simp, rfl⟩

/-- What stands between the branches of a conditional is an `else`. -/
theorem spells_elseLead
    (thenBranch elseBranch : Stmt)
    (depth : Nat) :
    Spells anything (thenBranch.elseLead depth ++ elseBranch.bodyLead depth) [.word "else"] := by
  have word : Spells endsToken (thenBranch.elseLead depth) [.word "else"] := by
    have plain : Spells endsToken "else" [.word "else"] := spells_word (by decide)
    have behindBlank : Spells endsToken " else" [.word "else"] :=
      spells_blank.closed plain
    have line : Spells anything ("\n" ++ indentation depth) [] :=
      spells_lineEnd.closed (spells_indentation depth)
    unfold elseLead
    split
    · exact behindBlank
    · exact line.closed plain
  exact word.append (elseBranch.spells_bodyLead depth)
    (by simpa using elseBranch.exists_head_bodyLead depth "")

/-- The head of a conditional or a loop. -/
theorem spells_head
    {keyword text : String}
    {tokens : List Token}
    (isWord : LoopLowering.isWord keyword = true)
    (spells : Spells endsToken text tokens) :
    Spells anything (keyword ++ " (" ++ text ++ ")")
      (.word keyword :: .mark "(" :: (tokens ++ [.mark ")"])) := by
  have opening : Spells anything " (" [.mark "("] :=
    spells_blank.closed (spells_separator (c := '(') (by decide))
  have closing : Spells anything ")" [.mark ")"] := spells_separator (c := ')') (by decide)
  have lead := (spells_word isWord).append opening ⟨' ', by simp, rfl⟩
  simpa [String.append_assoc] using (lead.closed spells).append closing ⟨')', by simp, rfl⟩

/-- The head of a loop. -/
theorem spells_loopHead
    (element : LocalDecl)
    (collection : Expr)
    (elementNames : element.isNamed = true)
    (collectionNames : collection.isNamed = true) :
    Spells anything ("for (" ++ element.text ++ " : " ++ collection.text ++ ")")
      (.word "for" :: .mark "(" ::
        (element.tokens ++ .mark ":" :: (collection.tokensIn 0 ++ [.mark ")"]))) := by
  have colon : Spells anything " : " [.mark ":"] :=
    spells_blank.closed
      ((spells_separator (c := ':') (by decide)).closed spells_blank)
  have inner := ((element.spells_text elementNames).append colon ⟨' ', by simp, rfl⟩).closed
    (collection.spells_text collectionNames)
  simpa [String.append_assoc] using @spells_head "for" _ _ (by decide) inner

mutual

/-- A statement is written as its tokens. -/
theorem spells_textAt :
    ∀ (stmt : Stmt) (depth : Nat),
      stmt.isNamed = true → Spells anything (stmt.textAt depth) stmt.tokens
  | .localVar _ decl, _, names => (decl.spells_text names).terminated
  | .expr _ value, _, names => (value.spells_text names).terminated
  | .block _ stmts _, depth, names => by
      have opening : Spells anything "\x7b\n" [.mark "\x7b"] :=
        (spells_separator (c := '\x7b') (by decide)).closed spells_lineEnd
      have closing : Spells anything (indentation depth ++ "\x7d") [.mark "\x7d"] :=
        (spells_indentation depth).closed (spells_separator (c := '\x7d') (by decide))
      have whole := opening.closed ((spells_linesAt stmts (depth + 1) names).closed closing)
      simpa [textAt, tokens, String.append_assoc] using whole
  | .branch _ condition thenBranch none, depth, names => by
      simp only [isNamed, Bool.and_eq_true] at names
      have head := @spells_head "if" _ _ (by decide) (condition.spells_text names.1)
      have body := (thenBranch.spells_bodyLead depth).closed
        (spells_textAt thenBranch (thenBranch.bodyDepth depth) names.2)
      simpa [textAt, tokens, String.append_assoc] using head.closed body
  | .branch _ condition thenBranch (some elseBranch), depth, names => by
      simp only [isNamed, Bool.and_eq_true] at names
      have head := @spells_head "if" _ _ (by decide) (condition.spells_text names.1.1)
      have body := (thenBranch.spells_bodyLead depth).closed
        (spells_textAt thenBranch (thenBranch.bodyDepth depth) names.1.2)
      have other := (spells_elseLead thenBranch elseBranch depth).closed
        (spells_textAt elseBranch (elseBranch.bodyDepth depth) names.2)
      simpa [textAt, tokens, String.append_assoc] using head.closed (body.closed other)
  | .forEach _ element collection none _, depth, names => by
      simp only [isNamed, Bool.and_eq_true] at names
      have ending : Spells anything " ;" [.mark ";"] :=
        spells_blank.closed (spells_separator (c := ';') (by decide))
      simpa [textAt, tokens, String.append_assoc] using
        (spells_loopHead element collection names.1 names.2).closed ending
  | .forEach _ element collection (some action) _, depth, names => by
      simp only [isNamed, Bool.and_eq_true] at names
      have body := (action.spells_bodyLead depth).closed
        (spells_textAt action (action.bodyDepth depth) names.2)
      simpa [textAt, tokens, String.append_assoc] using
        (spells_loopHead element collection names.1.1 names.1.2).closed body
  | .labeled _ label body, depth, names => by
      simp only [isNamed, Bool.and_eq_true] at names
      have colon : Spells anything ": " [.mark ":"] :=
        (spells_separator (c := ':') (by decide)).closed spells_blank
      have lead := (spells_word (isWord_of_isIdentifier names.1)).append colon ⟨':', rfl, rfl⟩
      exact lead.closed (spells_textAt body depth names.2)
  | .breakTo _ label, _, names => (spells_jumpText (by decide) names).terminated
  | .continueTo _ label, _, names => (spells_jumpText (by decide) names).terminated
  | .returnWith _ none, _, _ =>
      (show Spells endsToken "return" [.word "return"] from spells_word (by decide)).terminated
  | .returnWith _ (some value), _, names => by
      have keyword : Spells anything "return " [.word "return"] :=
        by simpa using @spells_keyword "return" (by decide)
      exact (keyword.closed (value.spells_text names)).terminated
  | .empty _, _, _ => spells_separator (c := ';') (by decide)

theorem spells_linesAt :
    ∀ (stmts : List Stmt) (depth : Nat),
      areNamed stmts = true → Spells anything (linesAt depth stmts) (allTokens stmts)
  | [], _, _ => Spells.empty
  | stmt :: rest, depth, names => by
      simp only [areNamed, Bool.and_eq_true] at names
      have first := (spells_indentation depth).closed ((spells_textAt stmt depth names.1).closed
        spells_lineEnd)
      simpa [linesAt, allTokens, String.append_assoc] using
        first.closed (spells_linesAt rest depth names.2)

end

end Stmt

/-!
## The grammar of statements

How statements nest in each other, apart from the types and expressions in them. A
statement before an `else` must not end in a conditional that could take it, so each
`else` belongs to the nearest conditional. A reader that decides by the next tokens
finds the nesting that the grammar gives to tokens, so the grammar gives them no other.
-/

/-- The nesting of a statement: what is between the statements is left as tokens. -/
inductive Nesting where
  /-- A statement without statements in it, without its semicolon. -/
  | simple (tokens : List Token)
  | block (stmts : List Nesting)
  | branch (condition : List Token) (thenBranch : Nesting) (elseBranch : Option Nesting)
  | loop (element collection : List Token) (body : Nesting)
  | labeled (label : String) (body : Nesting)
  deriving Repr

namespace Nesting

/-- Whether a statement ends in a conditional without an `else`, which would take one
that comes next. -/
def endsOpen :
    Nesting → Bool
  | .simple _ | .block _ => false
  | .branch _ _ none => true
  | .branch _ _ (some elseBranch) => elseBranch.endsOpen
  | .loop _ _ body | .labeled _ body => body.endsOpen

mutual

/-- Whether each `else` is that of the nearest conditional that can take it. -/
def ownsElses :
    Nesting → Bool
  | .simple _ => true
  | .block stmts => allOwnElses stmts
  | .branch _ thenBranch none => thenBranch.ownsElses
  | .branch _ thenBranch (some elseBranch) =>
      !thenBranch.endsOpen && thenBranch.ownsElses && elseBranch.ownsElses
  | .loop _ _ body | .labeled _ body => body.ownsElses

/-- Whether each `else` in statements is that of the nearest conditional. -/
def allOwnElses :
    List Nesting → Bool
  | [] => true
  | stmt :: rest => stmt.ownsElses && allOwnElses rest

end

end Nesting

/-- Tokens without a colon or a semicolon, in which the parentheses match. -/
inductive Enclosed :
    List Token → Prop where
  | nil :
      Enclosed []
  | single {token : Token} :
      token ∉ [Token.mark "(", .mark ")", .mark ":", .mark ";"] → Enclosed [token]
  | append {first second : List Token} :
      Enclosed first → Enclosed second → Enclosed (first ++ second)
  | nested {tokens : List Token} :
      Enclosed tokens → Enclosed (.mark "(" :: (tokens ++ [.mark ")"]))

/-- Whether tokens start no statement that has statements in it, go on with none, and
end no block. -/
def startsSimple
    (tokens : List Token) :
    Bool :=
  tokens.head?.all fun token =>
    !([.word "if", .word "else", .word "for", .mark "\x7b", .mark "\x7d"].contains token)

mutual

/-- Tokens are a statement by the grammar. -/
inductive DerivesStmt :
    List Token → Nesting → Prop where
  | simple {tokens : List Token} :
      Enclosed tokens →
      startsSimple tokens = true →
      DerivesStmt (tokens ++ [.mark ";"]) (.simple tokens)
  | block {tokens : List Token} {stmts : List Nesting} :
      DerivesStmts tokens stmts →
      DerivesStmt (.mark "\x7b" :: (tokens ++ [.mark "\x7d"])) (.block stmts)
  | branch {condition tokens : List Token} {thenBranch : Nesting} :
      Enclosed condition →
      DerivesStmt tokens thenBranch →
      DerivesStmt (.word "if" :: .mark "(" :: (condition ++ .mark ")" :: tokens))
        (.branch condition thenBranch none)
  | branchElse {condition tokens later : List Token} {thenBranch elseBranch : Nesting} :
      Enclosed condition →
      DerivesStmt tokens thenBranch →
      thenBranch.endsOpen = false →
      DerivesStmt later elseBranch →
      DerivesStmt
        (.word "if" :: .mark "(" :: (condition ++ .mark ")" :: (tokens ++ .word "else" :: later)))
        (.branch condition thenBranch (some elseBranch))
  /-- The element of a loop has no initializer. -/
  | loop {element collection tokens : List Token} {body : Nesting} :
      Enclosed element →
      Token.mark "=" ∉ element →
      Enclosed collection →
      DerivesStmt tokens body →
      DerivesStmt
        (.word "for" :: .mark "(" :: (element ++ .mark ":" :: (collection ++ .mark ")" :: tokens)))
        (.loop element collection body)
  | labeled {label : String} {tokens : List Token} {body : Nesting} :
      isIdentifier label = true →
      DerivesStmt tokens body →
      DerivesStmt (.word label :: .mark ":" :: tokens) (.labeled label body)

/-- Tokens are statements one after the other by the grammar. -/
inductive DerivesStmts :
    List Token → List Nesting → Prop where
  | nil :
      DerivesStmts [] []
  | cons {tokens later : List Token} {stmt : Nesting} {rest : List Nesting} :
      DerivesStmt tokens stmt →
      DerivesStmts later rest →
      DerivesStmts (tokens ++ later) (stmt :: rest)

end

/-!
## Reading

Each reader gives back the tokens behind what it has read. Reading goes on there only if
they are fewer, which they always are, so it ends.
-/

/-- Split tokens at the parenthesis that closes as many as are open. -/
def splitParenthesis? :
    (opened : Nat) → List Token → Option (List Token × List Token)
  | _, [] => none
  | opened, .mark "(" :: rest =>
      (splitParenthesis? (opened + 1) rest).map (Prod.map (.mark "(" :: ·) id)
  | 0, .mark ")" :: rest => some ([], rest)
  | opened + 1, .mark ")" :: rest =>
      (splitParenthesis? opened rest).map (Prod.map (.mark ")" :: ·) id)
  | opened, token :: rest => (splitParenthesis? opened rest).map (Prod.map (token :: ·) id)

/-- Split tokens at the first of some mark. -/
def splitMark?
    (mark : String) :
    List Token → Option (List Token × List Token)
  | [] => none
  | token :: rest =>
      if token = .mark mark then
        some ([], rest)
      else
        (splitMark? mark rest).map (Prod.map (token :: ·) id)

mutual

/-- Read a statement. -/
def readStmt?
    (tokens : List Token) :
    Option (Nesting × List Token) :=
  match tokens with
  | .word "if" :: .mark "(" :: head => do
      let (condition, rest) ← splitParenthesis? 0 head
      if rest.length < head.length then do
        let (thenBranch, rest) ← readStmt? rest
        match rest with
        | .word "else" :: rest =>
            if rest.length < head.length then do
              let (elseBranch, rest) ← readStmt? rest
              some (.branch condition thenBranch (some elseBranch), rest)
            else
              none
        | rest => some (.branch condition thenBranch none, rest)
      else
        none
  | .word "for" :: .mark "(" :: head => do
      let (element, rest) ← splitMark? ":" head
      let (collection, rest) ← splitParenthesis? 0 rest
      if rest.length < head.length then do
        let (body, rest) ← readStmt? rest
        some (.loop element collection body, rest)
      else
        none
  | .mark "\x7b" :: rest => do
      let (stmts, rest) ← readStmts? rest
      some (.block stmts, rest)
  | .word label :: .mark ":" :: rest => do
      let (body, rest) ← readStmt? rest
      some (.labeled label body, rest)
  | tokens => do
      let (simple, rest) ← splitMark? ";" tokens
      some (.simple simple, rest)
termination_by (tokens.length, 0)

/-- Read statements up to the brace behind them. -/
def readStmts?
    (tokens : List Token) :
    Option (List Nesting × List Token) :=
  match tokens with
  | .mark "\x7d" :: rest => some ([], rest)
  | tokens => do
      let (stmt, rest) ← readStmt? tokens
      if rest.length < tokens.length then do
        let (stmts, rest) ← readStmts? rest
        some (stmt :: stmts, rest)
      else
        none
termination_by (tokens.length, 1)

end

namespace Enclosed

/-- Enclosed tokens are passed over on the way to a closing parenthesis. -/
theorem splitParenthesis?_append
    {tokens : List Token}
    (enclosed : Enclosed tokens) :
    ∀ {opened : Nat} {rest inside later : List Token},
      splitParenthesis? opened rest = some (inside, later) →
        splitParenthesis? opened (tokens ++ rest) = some (tokens ++ inside, later) := by
  induction enclosed with
  | nil =>
      exact id
  | @single token other =>
      intro opened rest inside later split
      simp only [List.mem_cons, List.not_mem_nil, or_false, not_or] at other
      rw [List.singleton_append, splitParenthesis?.eq_5, split]
      · rfl
      · exact other.1
      · exact fun _ => other.2.1
      · exact fun _ _ => other.2.1
  | append _ _ first second =>
      intro opened rest inside later split
      rw [List.append_assoc, List.append_assoc]
      exact first (second split)
  | @nested tokens _ inner =>
      intro opened rest inside later split
      have closing : splitParenthesis? (opened + 1) (.mark ")" :: rest) =
          some (.mark ")" :: inside, later) := by
        rw [splitParenthesis?, split]
        rfl
      simp only [List.cons_append, List.append_assoc, List.nil_append]
      rw [splitParenthesis?, inner closing]
      rfl

/-- Enclosed tokens are what stands before the parenthesis behind them. -/
theorem splitParenthesis?_eq
    {tokens : List Token}
    (enclosed : Enclosed tokens)
    (rest : List Token) :
    splitParenthesis? 0 (tokens ++ .mark ")" :: rest) = some (tokens, rest) := by
  have split : splitParenthesis? 0 (.mark ")" :: rest) = some ([], rest) := by
    rw [splitParenthesis?]
  simpa using enclosed.splitParenthesis?_append split

/-- There is no colon and no semicolon among enclosed tokens. -/
theorem notMem
    {tokens : List Token}
    (enclosed : Enclosed tokens) :
    Token.mark ":" ∉ tokens ∧ Token.mark ";" ∉ tokens := by
  induction enclosed with
  | nil => exact ⟨List.not_mem_nil, List.not_mem_nil⟩
  | single other => simp_all [eq_comm]
  | append _ _ first second => simp [first, second]
  | nested _ inner => simp [inner]

end Enclosed

/-- Tokens without a mark are what stands before the one behind them. -/
theorem splitMark?_eq
    {mark : String}
    {tokens : List Token}
    (noMark : Token.mark mark ∉ tokens)
    (rest : List Token) :
    splitMark? mark (tokens ++ .mark mark :: rest) = some (tokens, rest) := by
  induction tokens with
  | nil =>
      rw [List.nil_append, splitMark?, if_pos rfl]
  | cons token tokens inductionHypothesis =>
      simp only [List.mem_cons, not_or] at noMark
      rw [List.cons_append, splitMark?, if_neg (Ne.symm noMark.1), inductionHypothesis noMark.2]
      rfl

/-- A statement starts neither with an `else` nor with the end of a block. -/
theorem DerivesStmt.exists_head :
    ∀ {tokens : List Token} {nesting : Nesting},
      DerivesStmt tokens nesting →
      ∃ token rest,
        tokens = token :: rest ∧ token ≠ .word "else" ∧ token ≠ .mark "\x7d"
  | _, _, @DerivesStmt.simple tokens _ starts => by
      cases tokens with
      | nil => exact ⟨_, _, rfl, by decide, by decide⟩
      | cons token rest =>
          refine ⟨token, _, rfl, ?_, ?_⟩ <;> rintro rfl <;> cases starts
  | _, _, .block _ => ⟨_, _, rfl, by decide, by decide⟩
  | _, _, .branch .. | _, _, .branchElse .. | _, _, .loop .. => ⟨_, _, rfl, by decide, by decide⟩
  | _, _, .labeled isName _ =>
      ⟨_, _, rfl, by simpa using ne_of_isIdentifier isName (by decide), by simp⟩

/-- A statement that starts no other is read up to its semicolon. -/
theorem readStmt?_simple
    {tokens : List Token}
    (enclosed : Enclosed tokens)
    (starts : startsSimple tokens = true)
    (rest : List Token) :
    readStmt? (tokens ++ .mark ";" :: rest) = some (.simple tokens, rest) := by
  rw [readStmt?, splitMark?_eq enclosed.notMem.2]
  · rfl
  -- none of the other first tokens fits
  iterate 3
    intro _ shape
    cases tokens <;> simp_all [startsSimple]
  -- and behind the first there is no colon
  · rintro label later shape
    have noColon := enclosed.notMem.1
    match tokens, shape with
    | [], shape | [_], shape => simp at shape
    | _ :: _ :: _, shape => simp_all

mutual

/-- Tokens that are a statement are read as it, unless an `else` behind them belongs
to it. -/
theorem DerivesStmt.readStmt?_eq :
    ∀ {tokens : List Token} {nesting : Nesting},
      DerivesStmt tokens nesting →
      ∀ rest : List Token,
        (nesting.endsOpen = true → rest.head? ≠ some (.word "else")) →
          readStmt? (tokens ++ rest) = some (nesting, rest)
  | _, _, .simple enclosed starts, rest, _ => by
      rw [List.append_assoc]
      exact readStmt?_simple enclosed starts rest
  | _, _, .block stmts, rest, _ => by
      simp only [List.cons_append, List.append_assoc, List.nil_append]
      rw [readStmt?, stmts.readStmts?_eq rest]
      rfl
  | _, _, .branch enclosed thenBranch, rest, ends => by
      simp only [List.cons_append, List.append_assoc]
      rw [readStmt?, enclosed.splitParenthesis?_eq]
      simp only [Option.bind_eq_bind, Option.bind_some, length_behind_lt, if_true,
        thenBranch.readStmt?_eq rest fun _ => ends rfl]
      split
      · exact absurd rfl (ends rfl)
      · rfl
  | _, _, @DerivesStmt.branchElse condition tokens later _ _ enclosed thenBranch closed elseBranch,
      rest, ends => by
      have shorter : (later ++ rest).length <
          (condition ++ .mark ")" :: (tokens ++ .word "else" :: (later ++ rest))).length :=
        (length_behind_lt tokens _ _).trans (length_behind_lt condition _ _)
      simp only [List.cons_append, List.append_assoc]
      rw [readStmt?, enclosed.splitParenthesis?_eq]
      simp only [Option.bind_eq_bind, Option.bind_some, length_behind_lt, if_true,
        thenBranch.readStmt?_eq _ fun isOpen => absurd (closed.symm.trans isOpen) (by decide),
        elseBranch.readStmt?_eq rest ends, if_pos shorter]
  | _, _, @DerivesStmt.loop elementTokens collectionTokens tokens _ element _ collection body,
      rest, ends => by
      have shorter : (tokens ++ rest).length <
          (elementTokens ++ .mark ":" ::
            (collectionTokens ++ .mark ")" :: (tokens ++ rest))).length :=
        (length_behind_lt collectionTokens _ _).trans (length_behind_lt elementTokens _ _)
      simp only [List.cons_append, List.append_assoc]
      rw [readStmt?, splitMark?_eq element.notMem.1]
      simp only [Option.bind_eq_bind, Option.bind_some, collection.splitParenthesis?_eq,
        if_pos shorter, body.readStmt?_eq rest ends]
  | _, _, .labeled isName body, rest, ends => by
      simp only [List.cons_append]
      rw [readStmt?, body.readStmt?_eq rest ends]
      rfl

theorem DerivesStmts.readStmts?_eq :
    ∀ {tokens : List Token} {stmts : List Nesting},
      DerivesStmts tokens stmts →
      ∀ rest : List Token, readStmts? (tokens ++ .mark "\x7d" :: rest) = some (stmts, rest)
  | _, _, .nil, rest => by
      rw [List.nil_append, readStmts?]
  | _, _, @DerivesStmts.cons _ others _ _ stmt stmts, rest => by
      have first := stmt.readStmt?_eq (others ++ .mark "\x7d" :: rest) fun _ => by
        cases stmts with
        | nil => simp
        | cons second _ =>
            obtain ⟨token, later, rfl, noElse, -⟩ := second.exists_head
            simpa using noElse
      obtain ⟨token, later, shape, -, noEnd⟩ := stmt.exists_head
      rw [List.append_assoc, readStmts?, first]
      · simp only [Option.bind_eq_bind, Option.bind_some, stmts.readStmts?_eq rest]
        refine if_pos ?_
        simp only [shape, List.cons_append, List.length_cons, List.length_append]
        omega
      · simp [shape, noEnd]

end

/-- The nesting of a statement that stands on its own. -/
def readStatement?
    (tokens : List Token) :
    Option Nesting :=
  match readStmt? tokens with
  | some (nesting, []) => some nesting
  | _ => none

/-- The nesting of tokens is the one that is read. -/
theorem DerivesStmt.readStatement?_eq
    {tokens : List Token}
    {nesting : Nesting}
    (derives : DerivesStmt tokens nesting) :
    readStatement? tokens = some nesting := by
  have read := derives.readStmt?_eq [] fun _ => by simp
  rw [List.append_nil] at read
  rw [readStatement?, read]

end LoopLowering
