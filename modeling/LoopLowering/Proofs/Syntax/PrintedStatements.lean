import LoopLowering.Proofs.Syntax.StatementGrammar

namespace LoopLowering

/-!
# Printed statements are read back

The printer puts parentheses around operands that need them, but no braces around
statements. So what it writes for a statement is read back as the same nesting of
statements exactly if no conditional with an `else` has a first branch that would take
it. A loop without an action is written like one with the empty statement.
-/

namespace Stmt

mutual

/-- Whether no element of a for-each loop has an initializer. -/
def declaresElements :
    Stmt → Bool
  | .block _ stmts _ => allDeclareElements stmts
  | .branch _ _ thenBranch none => thenBranch.declaresElements
  | .branch _ _ thenBranch (some elseBranch) =>
      thenBranch.declaresElements && elseBranch.declaresElements
  | .forEach _ element _ none _ => element.initial.isNone
  | .forEach _ element _ (some action) _ => element.initial.isNone && action.declaresElements
  | .labeled _ _ body => body.declaresElements
  | .localVar .. | .expr .. | .breakTo .. | .continueTo .. | .returnWith .. | .empty _ => true

/-- Whether no element of a for-each loop in statements has an initializer. -/
def allDeclareElements :
    List Stmt → Bool
  | [] => true
  | stmt :: rest => stmt.declaresElements && allDeclareElements rest

end

mutual

/-- How the statements in a statement nest. A loop without an action does the same as
one with the empty statement. -/
def nesting :
    Stmt → Nesting
  | .localVar _ decl => .simple decl.tokens
  | .expr _ value => .simple (value.tokensIn 0)
  | .block _ stmts _ => .block (nestings stmts)
  | .branch _ condition thenBranch none =>
      .branch (condition.tokensIn 0) thenBranch.nesting none
  | .branch _ condition thenBranch (some elseBranch) =>
      .branch (condition.tokensIn 0) thenBranch.nesting (some elseBranch.nesting)
  | .forEach _ element collection none _ =>
      .loop element.tokens (collection.tokensIn 0) (.simple [])
  | .forEach _ element collection (some action) _ =>
      .loop element.tokens (collection.tokensIn 0) action.nesting
  | .labeled _ label body => .labeled label.node body.nesting
  | .breakTo _ label => .simple (jumpTokens "break" label)
  | .continueTo _ label => .simple (jumpTokens "continue" label)
  | .returnWith _ none => .simple [.word "return"]
  | .returnWith _ (some value) => .simple (.word "return" :: value.tokensIn 0)
  | .empty _ => .simple []

/-- How the statements in each of the statements nest. -/
def nestings :
    List Stmt → List Nesting
  | [] => []
  | stmt :: rest => stmt.nesting :: nestings rest

end

end Stmt

/-! ## The tokens between statements -/

/-- Tokens of which none is a parenthesis, a colon or a semicolon. -/
theorem Enclosed.of_forall
    {tokens : List Token}
    (plain : ∀ token ∈ tokens, token ∉ [Token.mark "(", .mark ")", .mark ":", .mark ";"]) :
    Enclosed tokens := by
  induction tokens with
  | nil => exact .nil
  | cons token rest inductionHypothesis =>
      have first : Enclosed [token] := .single (plain token List.mem_cons_self)
      exact first.append (inductionHypothesis fun other member =>
        plain other (List.mem_cons_of_mem token member))

/-- Items with commas between them. -/
theorem Enclosed.commaSeparated
    {items : List (List Token)}
    (enclosed : ∀ item ∈ items, Enclosed item) :
    Enclosed (LoopLowering.commaSeparated items) := by
  induction items with
  | nil => exact .nil
  | cons first rest inductionHypothesis =>
      simp only [List.mem_cons, forall_eq_or_imp] at enclosed
      cases rest with
      | nil => simpa using enclosed.1
      | cons second rest =>
          have others := inductionHypothesis enclosed.2
          rw [commaSeparated_cons]
          exact enclosed.1.append ((Enclosed.single (by decide)).append others)

/-- Tokens in parentheses, where they need them. -/
theorem Enclosed.parenthesized
    {needed : Bool}
    {tokens : List Token}
    (enclosed : Enclosed tokens) :
    Enclosed (parenthesizedTokens needed tokens) := by
  cases needed with
  | false => exact enclosed
  | true => exact enclosed.nested

/-- Whether a token may stand in a type. -/
def Token.standsInTypes :
    Token → Bool
  | .word _ => true
  | .mark text => ["<", ">", ",", "[", "]", "?"].contains text
  | _ => false

namespace TypeExpr

mutual

/-- The tokens of a type. -/
theorem all_tokens :
    ∀ type : TypeExpr, type.tokens.all Token.standsInTypes = true
  | .named .. | .wildcard _ => rfl
  | .generic _ name args => by
      have inner := all_allTokens args
      simp [tokens, inner, Token.standsInTypes]
  | .array _ component => by
      simp [tokens, all_tokens component, Token.standsInTypes]
  | .wildcardExtends _ bound => by
      simp [tokens, all_tokens bound, Token.standsInTypes]

theorem all_allTokens :
    ∀ types : List TypeExpr,
      (commaSeparated (allTokens types)).all Token.standsInTypes = true
  | [] => rfl
  | [type] => by
      simpa [allTokens] using all_tokens type
  | type :: second :: rest => by
      have others := all_allTokens (second :: rest)
      rw [allTokens] at others
      rw [allTokens, allTokens, commaSeparated_cons, List.all_append, List.all_cons, others,
        all_tokens type]
      rfl

end

/-- The tokens of a type are enclosed. -/
theorem enclosed_tokens
    (type : TypeExpr) :
    Enclosed type.tokens := by
  refine .of_forall fun token member => ?_
  have stands := List.all_eq_true.mp type.all_tokens token member
  rintro reserved
  simp only [List.mem_cons, List.not_mem_nil, or_false] at reserved
  rcases reserved with rfl | rfl | rfl | rfl <;> cases stands

/-- A type does not assign. -/
theorem equals_notMem_tokens
    (type : TypeExpr) :
    Token.mark "=" ∉ type.tokens := by
  intro member
  cases List.all_eq_true.mp type.all_tokens _ member

end TypeExpr

/-- The name of a type starts a simple statement. -/
theorem startsSimple_of_isTypeName
    {name : String}
    (isName : isTypeName name = true)
    (rest : List Token) :
    startsSimple (.word name :: rest) = true := by
  have distinct (word : String) (reserved : isTypeName word = false) : name ≠ word := by
    rintro rfl
    exact absurd (reserved.symm.trans isName) (by decide)
  simp [startsSimple, distinct "if" (by decide), distinct "else" (by decide),
    distinct "for" (by decide)]

/-- An identifier starts a simple statement. -/
theorem startsSimple_of_isIdentifier
    {name : String}
    (isName : isIdentifier name = true)
    (rest : List Token) :
    startsSimple (.word name :: rest) = true :=
  startsSimple_of_isTypeName (by simp [isTypeName, isName]) rest

namespace Expr

/-- What stands between the target of an assignment and its value. -/
theorem enclosed_assignTokens
    (op : Option BinOp) :
    Enclosed (assignTokens op) := by
  refine .of_forall ?_
  rcases op with _ | op
  · decide
  · cases op <;> decide

mutual

/-- Neither a colon nor a semicolon stands in an expression, and its parentheses match. -/
theorem enclosed_tokensIn :
    ∀ (expr : Expr) (demanded : Nat), Enclosed (expr.tokensIn demanded)
  | .intLit .., _ | .boolLit .., _ | .stringLit .., _ | .null _, _ | .name .., _ =>
      .single (by simp)
  | .newArray _ component elements, _ => by
      have brackets : Enclosed [Token.mark "[", .mark "]"] := .of_forall (by decide)
      have type := component.enclosed_tokens.append brackets
      have inner := Enclosed.commaSeparated (enclosed_allTokens elements)
      exact (Enclosed.single (by simp)).append (type.append ((Enclosed.single (by decide)).append
        (inner.append (.single (by decide)))))
  | .binary _ op left right, _ => by
      have symbol : Enclosed [.mark op.symbol] := .single (by cases op <;> decide)
      have operands := (enclosed_tokensIn left op.precedence).append
        (symbol.append (enclosed_tokensIn right (op.precedence + 1)))
      exact operands.parenthesized
  | .assign _ target op value, _ => by
      have name : Enclosed [.word target.node.name] := .single (by simp)
      exact (name.append ((enclosed_assignTokens op).append
        (enclosed_tokensIn value 0))).parenthesized
  | .call _ function args, _ => by
      have name : Enclosed [.word function.node] := .single (by simp)
      exact name.append (Enclosed.commaSeparated (enclosed_allTokens args)).nested
  | .methodCall _ receiver method args, _ => by
      have dot : Enclosed [.mark "."] := .single (by decide)
      have name : Enclosed [.word method.node] := .single (by simp)
      exact (enclosed_tokensIn receiver receiverPrecedence).append (dot.append (name.append
        (Enclosed.commaSeparated (enclosed_allTokens args)).nested))

theorem enclosed_allTokens :
    ∀ (exprs : List Expr), ∀ item ∈ allTokens exprs, Enclosed item
  | [], _, member => by cases member
  | expr :: rest, item, member => by
      rcases List.mem_cons.mp member with rfl | inRest
      · exact enclosed_tokensIn expr 0
      · exact enclosed_allTokens rest item inRest

end

/-- An expression starts like a simple statement. -/
theorem startsSimple_tokensIn :
    ∀ (expr : Expr) (demanded : Nat) (rest : List Token),
      expr.isNamed = true → startsSimple (expr.tokensIn demanded ++ rest) = true
  | .intLit .., _, _, _ | .stringLit .., _, _, _ | .null _, _, _, _ | .newArray .., _, _, _ => rfl
  | .boolLit _ value, _, _, _ => by
      cases value <;> rfl
  | .name _ ref, _, rest, names => startsSimple_of_isIdentifier names rest
  | .binary _ op left right, demanded, rest, names => by
      simp only [isNamed, Bool.and_eq_true] at names
      rw [tokensIn]
      cases decide (op.precedence < demanded) with
      | false =>
          rw [parenthesizedTokens, if_neg (by decide), List.append_assoc]
          exact startsSimple_tokensIn left _ _ names.1
      | true => rfl
  | .assign _ target op value, demanded, rest, names => by
      simp only [isNamed, Bool.and_eq_true] at names
      rw [tokensIn]
      cases decide (0 < demanded) with
      | false => exact startsSimple_of_isIdentifier names.1 _
      | true => rfl
  | .call _ function args, _, rest, names => by
      simp only [isNamed, Bool.and_eq_true] at names
      exact startsSimple_of_isIdentifier names.1 _
  | .methodCall _ receiver method args, _, rest, names => by
      simp only [isNamed, Bool.and_eq_true] at names
      rw [tokensIn, List.append_assoc]
      exact startsSimple_tokensIn receiver _ _ names.1.1

end Expr

/-- A type starts like a simple statement. -/
theorem TypeExpr.startsSimple_tokens :
    ∀ (type : TypeExpr) (rest : List Token),
      type.isNamed = true → startsSimple (type.tokens ++ rest) = true
  | .named .., rest, names => startsSimple_of_isTypeName names rest
  | .generic _ name args, rest, names => by
      simp only [isNamed, Bool.and_eq_true] at names
      exact startsSimple_of_isIdentifier names.1 _
  | .array _ component, rest, names => by
      rw [tokens, List.append_assoc]
      exact startsSimple_tokens component _ names
  | .wildcard _, _, _ | .wildcardExtends .., _, _ => rfl

namespace LocalDecl

/-- The tokens of a local declaration are enclosed. -/
theorem enclosed_tokens
    (decl : LocalDecl) :
    Enclosed decl.tokens := by
  have modifier : Enclosed (if decl.isFinal then [Token.word "final"] else []) := by
    split
    · exact .single (by simp)
    · exact .nil
  have name : Enclosed [Token.word decl.name.node] := .single (by simp)
  refine (modifier.append decl.type.enclosed_tokens).append (name.append ?_)
  cases decl.initial with
  | none => exact .nil
  | some value =>
      have equals : Enclosed [Token.mark "="] := .single (by decide)
      exact equals.append (value.enclosed_tokensIn 0)

/-- A local declaration starts like a simple statement. -/
theorem startsSimple_tokens
    (decl : LocalDecl)
    (names : decl.isNamed = true) :
    startsSimple decl.tokens = true := by
  simp only [isNamed, Bool.and_eq_true] at names
  rw [tokens, List.append_assoc]
  split
  · rfl
  · exact decl.type.startsSimple_tokens _ names.1.1

/-- A local declaration without an initializer does not assign. -/
theorem equals_notMem_tokens
    {decl : LocalDecl}
    (declares : decl.initial.isNone = true) :
    Token.mark "=" ∉ decl.tokens := by
  simp only [tokens, Option.isNone_iff_eq_none.mp declares, List.mem_append, List.mem_singleton,
    decl.type.equals_notMem_tokens, or_false, not_or]
  exact ⟨by split <;> simp, by simp⟩

end LocalDecl

/-- The tokens of a jump are enclosed. -/
theorem enclosed_jumpTokens
    (keyword : String)
    (label : Option (Spanned String)) :
    Enclosed (jumpTokens keyword label) := by
  have word : Enclosed [Token.word keyword] := .single (by simp)
  cases label with
  | none => exact word
  | some name => exact word.append (.single (by simp))

namespace Stmt

mutual

/-- A statement is its nesting by the grammar if each `else` is that of the nearest
conditional. -/
theorem derives_tokens :
    ∀ stmt : Stmt,
      stmt.isNamed = true → stmt.declaresElements = true →
      stmt.nesting.ownsElses = true → DerivesStmt stmt.tokens stmt.nesting
  | .localVar _ decl, names, _, _ =>
      .simple decl.enclosed_tokens (decl.startsSimple_tokens names)
  | .expr _ value, names, _, _ =>
      .simple (value.enclosed_tokensIn 0) (by simpa using value.startsSimple_tokensIn 0 [] names)
  | .block _ stmts _, names, declares, owns =>
      .block (derives_allTokens stmts names declares owns)
  | .branch _ condition thenBranch none, names, declares, owns => by
      simp only [isNamed, Bool.and_eq_true] at names
      exact .branch (condition.enclosed_tokensIn 0)
        (derives_tokens thenBranch names.2 declares owns)
  | .branch _ condition thenBranch (some elseBranch), names, declares, owns => by
      simp only [isNamed, declaresElements, nesting, Nesting.ownsElses, Bool.and_eq_true,
        Bool.not_eq_true'] at names declares owns
      exact .branchElse (condition.enclosed_tokensIn 0)
        (derives_tokens thenBranch names.1.2 declares.1 owns.1.2) owns.1.1
        (derives_tokens elseBranch names.2 declares.2 owns.2)
  | .forEach _ element collection none _, _, declares, _ =>
      .loop element.enclosed_tokens (LocalDecl.equals_notMem_tokens declares)
        (collection.enclosed_tokensIn 0) (DerivesStmt.simple .nil rfl)
  | .forEach _ element collection (some action) _, names, declares, owns => by
      simp only [isNamed, declaresElements, Bool.and_eq_true] at names declares
      exact .loop element.enclosed_tokens (LocalDecl.equals_notMem_tokens declares.1)
        (collection.enclosed_tokensIn 0) (derives_tokens action names.2 declares.2 owns)
  | .labeled _ label body, names, declares, owns => by
      simp only [isNamed, Bool.and_eq_true] at names
      exact .labeled names.1 (derives_tokens body names.2 declares owns)
  | .breakTo _ label, _, _, _ => .simple (enclosed_jumpTokens "break" label) rfl
  | .continueTo _ label, _, _, _ => .simple (enclosed_jumpTokens "continue" label) rfl
  | .returnWith _ none, _, _, _ => DerivesStmt.simple (.single (by simp)) rfl
  | .returnWith _ (some value), _, _, _ => by
      have keyword : Enclosed [Token.word "return"] := .single (by simp)
      exact .simple (keyword.append (value.enclosed_tokensIn 0)) rfl
  | .empty _, _, _, _ => DerivesStmt.simple .nil rfl

theorem derives_allTokens :
    ∀ stmts : List Stmt,
      areNamed stmts = true → allDeclareElements stmts = true →
      Nesting.allOwnElses (nestings stmts) = true →
        DerivesStmts (allTokens stmts) (nestings stmts)
  | [], _, _, _ => .nil
  | stmt :: rest, names, declares, owns => by
      simp only [areNamed, allDeclareElements, nestings, Nesting.allOwnElses,
        Bool.and_eq_true] at names declares owns
      exact .cons (derives_tokens stmt names.1 declares.1 owns.1)
        (derives_allTokens rest names.2 declares.2 owns.2)

end

end Stmt

mutual

/-- By the grammar, each `else` is that of the nearest conditional. -/
theorem DerivesStmt.ownsElses :
    ∀ {tokens : List Token} {nesting : Nesting},
      DerivesStmt tokens nesting → nesting.ownsElses = true
  | _, _, .simple .. => rfl
  | _, _, .block stmts => stmts.allOwnElses
  | _, _, .branch _ thenBranch => thenBranch.ownsElses
  | _, _, .branchElse _ thenBranch closed elseBranch => by
      simp [Nesting.ownsElses, closed, thenBranch.ownsElses, elseBranch.ownsElses]
  | _, _, .loop _ _ _ body => body.ownsElses
  | _, _, .labeled _ body => body.ownsElses

theorem DerivesStmts.allOwnElses :
    ∀ {tokens : List Token} {stmts : List Nesting},
      DerivesStmts tokens stmts → Nesting.allOwnElses stmts = true
  | _, _, .nil => rfl
  | _, _, .cons stmt stmts => by
      simp [Nesting.allOwnElses, stmt.ownsElses, stmts.allOwnElses]

end

/-- Before an `else`, the last conditional that has none takes it. -/
theorem DerivesStmt.exists_withElse :
    ∀ {tokens later : List Token} {nesting elseBranch : Nesting},
      DerivesStmt tokens nesting → nesting.endsOpen = true →
      DerivesStmt later elseBranch →
        ∃ taken, DerivesStmt (tokens ++ .word "else" :: later) taken
  | _, later, _, _, @DerivesStmt.branch _ _ thenNesting enclosed thenBranch, _, elseBranch => by
      simp only [List.cons_append, List.append_assoc]
      cases isOpen : thenNesting.endsOpen with
      | false => exact ⟨_, .branchElse enclosed thenBranch isOpen elseBranch⟩
      | true =>
          obtain ⟨taken, derives⟩ := thenBranch.exists_withElse isOpen elseBranch
          exact ⟨_, .branch enclosed derives⟩
  | _, _, _, _, .branchElse enclosed thenBranch closed ownElse, endsOpen, elseBranch => by
      obtain ⟨taken, derives⟩ := ownElse.exists_withElse endsOpen elseBranch
      simp only [List.cons_append, List.append_assoc]
      exact ⟨_, .branchElse enclosed thenBranch closed derives⟩
  | _, _, _, _, .loop element noInitial collection body, endsOpen, elseBranch => by
      obtain ⟨taken, derives⟩ := body.exists_withElse endsOpen elseBranch
      simp only [List.cons_append, List.append_assoc]
      exact ⟨_, .loop element noInitial collection derives⟩
  | _, _, _, _, .labeled isName body, endsOpen, elseBranch => by
      obtain ⟨taken, derives⟩ := body.exists_withElse endsOpen elseBranch
      exact ⟨_, .labeled isName derives⟩

namespace Stmt

mutual

/-- The tokens of every statement are some statement by the grammar. -/
theorem exists_derives :
    ∀ stmt : Stmt,
      stmt.isNamed = true → stmt.declaresElements = true →
        ∃ nesting, DerivesStmt stmt.tokens nesting
  | .block _ stmts _, names, declares => by
      obtain ⟨_, derives⟩ := exists_derivesAll stmts names declares
      exact ⟨_, .block derives⟩
  | .branch _ condition thenBranch none, names, declares => by
      simp only [isNamed, Bool.and_eq_true] at names
      obtain ⟨_, derives⟩ := exists_derives thenBranch names.2 declares
      exact ⟨_, .branch (condition.enclosed_tokensIn 0) derives⟩
  | .branch _ condition thenBranch (some elseBranch), names, declares => by
      simp only [isNamed, declaresElements, Bool.and_eq_true] at names declares
      obtain ⟨first, derivesFirst⟩ := exists_derives thenBranch names.1.2 declares.1
      obtain ⟨_, derivesSecond⟩ := exists_derives elseBranch names.2 declares.2
      have enclosed := condition.enclosed_tokensIn 0
      cases isOpen : first.endsOpen with
      | false => exact ⟨_, .branchElse enclosed derivesFirst isOpen derivesSecond⟩
      | true =>
          obtain ⟨_, derives⟩ := derivesFirst.exists_withElse isOpen derivesSecond
          exact ⟨_, .branch enclosed derives⟩
  | .forEach span element collection none facts, names, declares =>
      ⟨_, derives_tokens (.forEach span element collection none facts) names declares rfl⟩
  | .forEach _ element collection (some action) _, names, declares => by
      simp only [isNamed, declaresElements, Bool.and_eq_true] at names declares
      obtain ⟨_, derives⟩ := exists_derives action names.2 declares.2
      exact ⟨_, .loop element.enclosed_tokens (LocalDecl.equals_notMem_tokens declares.1)
        (collection.enclosed_tokensIn 0) derives⟩
  | .labeled _ label body, names, declares => by
      simp only [isNamed, Bool.and_eq_true] at names
      obtain ⟨_, derives⟩ := exists_derives body names.2 declares
      exact ⟨_, .labeled names.1 derives⟩
  | .localVar span decl, names, declares =>
      ⟨_, derives_tokens (.localVar span decl) names declares rfl⟩
  | .expr span value, names, declares =>
      ⟨_, derives_tokens (.expr span value) names declares rfl⟩
  | .breakTo span label, names, declares =>
      ⟨_, derives_tokens (.breakTo span label) names declares rfl⟩
  | .continueTo span label, names, declares =>
      ⟨_, derives_tokens (.continueTo span label) names declares rfl⟩
  | .returnWith span none, names, declares =>
      ⟨_, derives_tokens (.returnWith span none) names declares rfl⟩
  | .returnWith span (some value), names, declares =>
      ⟨_, derives_tokens (.returnWith span (some value)) names declares rfl⟩
  | .empty span, names, declares => ⟨_, derives_tokens (.empty span) names declares rfl⟩

theorem exists_derivesAll :
    ∀ stmts : List Stmt,
      areNamed stmts = true → allDeclareElements stmts = true →
        ∃ nestings, DerivesStmts (allTokens stmts) nestings
  | [], _, _ => ⟨[], .nil⟩
  | stmt :: rest, names, declares => by
      simp only [areNamed, allDeclareElements, Bool.and_eq_true] at names declares
      obtain ⟨first, derivesFirst⟩ := exists_derives stmt names.1 declares.1
      obtain ⟨others, derivesOthers⟩ := exists_derivesAll rest names.2 declares.2
      exact ⟨first :: others, .cons derivesFirst derivesOthers⟩

end

/-- The text of a statement is read back as exactly one nesting of statements. It is that
of the statement exactly if each `else` is that of the nearest conditional that can
take it. -/
theorem nesting_readBack_iff
    (stmt : Stmt)
    (names : stmt.isNamed = true)
    (declares : stmt.declaresElements = true) :
    ∃ tokens nesting,
      tokens? stmt.text.toList = some tokens ∧
      readStatement? tokens = some nesting ∧
      (∀ other, DerivesStmt tokens other ↔ other = nesting) ∧
      (nesting = stmt.nesting ↔ stmt.nesting.ownsElses = true) := by
  obtain ⟨nesting, derives⟩ := stmt.exists_derives names declares
  have unique (other : Nesting) (derivesOther : DerivesStmt stmt.tokens other) :
      other = nesting :=
    Option.some.inj (derivesOther.readStatement?_eq.symm.trans derives.readStatement?_eq)
  refine ⟨stmt.tokens, nesting, (stmt.spells_textAt 0 names).tokens?_eq,
    derives.readStatement?_eq, fun other => ⟨unique other, ?_⟩, ?_, fun owns => ?_⟩
  · rintro rfl
    exact derives
  · rintro rfl
    exact derives.ownsElses
  · exact (unique _ (stmt.derives_tokens names declares owns)).symm

/-- A loop with a label stands between two conditionals, and the inner one has its own
`else`, so the outer one keeps the other. -/
theorem nesting_readBack_iff_conditionals :
    let name (text : String) : Expr := .name .absent (.unbound text)
    let call (function : String) : Stmt := .expr .absent (.call .absent ⟨function, .absent⟩ [])
    let inner : Stmt := .branch .absent (name "b") (call "f") (some (call "g"))
    let element : LocalDecl := ⟨⟨"x", .absent⟩, .named .absent "int", none, true, none⟩
    let stmt : Stmt := .branch .absent (name "a")
      (.labeled .absent ⟨"outer", .absent⟩ (.forEach .absent element (name "xs") (some inner) .initial))
      (some (.returnWith .absent none))
    stmt.isNamed = true ∧ stmt.declaresElements = true ∧
      ∃ tokens nesting,
        tokens? stmt.text.toList = some tokens ∧
        readStatement? tokens = some nesting ∧
        (∀ other, DerivesStmt tokens other ↔ other = nesting) ∧
        (nesting = stmt.nesting ↔ stmt.nesting.ownsElses = true) :=
  ⟨by decide, by decide, nesting_readBack_iff _ (by decide) (by decide)⟩

/-- Without an `else` of its own, the inner conditional takes that of the outer one. -/
example :
    let name (text : String) : Expr := .name .absent (.unbound text)
    let inner : Stmt := .branch .absent (name "b") (.empty .absent) none
    let stmt : Stmt := .branch .absent (name "a") inner (some (.returnWith .absent none))
    stmt.nesting.ownsElses = false := by
  decide

end Stmt

end LoopLowering
