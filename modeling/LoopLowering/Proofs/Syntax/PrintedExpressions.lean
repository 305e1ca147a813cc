import LoopLowering.Proofs.Syntax.ExpressionGrammar

namespace LoopLowering

/-!
# Printed expressions are read back

What the printer writes for an expression is that expression by the grammar, and
nothing else, positions and bindings aside: parentheses stand wherever the place of an
operand demands a tighter level than the operand has.
-/

namespace TypeExpr

mutual

/-- A printed type is that type by the grammar. -/
theorem derives_tokens :
    ∀ type : TypeExpr,
      type.isNamed = true → type.isProper = true → DerivesType type.tokens type.bare
  | .named .., names, _ => .named names
  | .generic _ _ args, names, proper => by
      simp only [isNamed, Bool.and_eq_true] at names
      exact .generic names.1 (derives_allTokens args names.2 proper)
  | .array _ component, names, proper => .array (derives_tokens component names proper)
  | .wildcard _, _, proper => by cases proper
  | .wildcardExtends .., _, proper => by cases proper

theorem derivesArgument_tokens :
    ∀ type : TypeExpr,
      type.isNamed = true → type.isArgument = true → DerivesTypeArgument type.tokens type.bare
  | .named .., names, _ => .type (.named names)
  | .generic _ _ args, names, isArgument => by
      simp only [isNamed, Bool.and_eq_true] at names
      exact .type (.generic names.1 (derives_allTokens args names.2 isArgument))
  | .array _ component, names, isArgument =>
      .type (.array (derives_tokens component names isArgument))
  | .wildcard _, _, _ => .wildcard
  | .wildcardExtends _ bound, names, isArgument =>
      .wildcardExtends (derives_tokens bound names isArgument)

theorem derives_allTokens :
    ∀ types : List TypeExpr,
      areNamed types = true → areArguments types = true →
        DerivesTypeArguments (commaSeparated (allTokens types)) (bareAll types)
  | [], _, _ => .none
  | [type], names, areArgs => by
      simp only [areNamed, areArguments, Bool.and_true] at names areArgs
      rw [allTokens, allTokens, commaSeparated_singleton]
      exact .one (derivesArgument_tokens type names areArgs)
  | type :: second :: rest, names, areArgs => by
      simp only [areNamed, areArguments, Bool.and_eq_true] at names areArgs
      have others : DerivesTypeArguments (commaSeparated (allTokens (second :: rest)))
          (bareAll (second :: rest)) :=
        derives_allTokens (second :: rest) (by simpa [areNamed] using names.2)
          (by simpa [areArguments] using areArgs.2)
      rw [allTokens, allTokens, commaSeparated_cons]
      exact .more (derivesArgument_tokens type names.1 areArgs.1) others

end

end TypeExpr

/-- What binds tighter may stand wherever less is demanded. -/
theorem Derives.loosen
    {level tight : Nat}
    {tokens : List Token}
    {expr : Expr}
    (derives : Derives tight tokens expr)
    (atMost : tight ≤ postfixLevel)
    (le : level ≤ tight) :
    Derives level tokens expr := by
  induction tight, le using Nat.le_induction with
  | base => exact derives
  | succ tight _ inductionHypothesis =>
      exact inductionHypothesis (.tighter atMost derives) (Nat.le_of_succ_le atMost)

/-- An operator for numbers joins the equals sign of an assignment. -/
theorem assignTokens_of_arithmetic
    {op : Option BinOp}
    (arithmetic : op.all (fun op => !op.isComparison) = true) :
    assignTokens op = [.mark (assignSign op)] := by
  rcases op with _ | op
  · rfl
  · cases op <;> first | rfl | exact absurd arithmetic (by decide)

namespace Expr

mutual

/-- Whether no compound assignment compares, and no type of an array is a wildcard
where the grammar has none. -/
def isGrammatical :
    Expr → Bool
  | .intLit .. | .boolLit .. | .stringLit .. | .null _ | .name .. => true
  | .newArray _ component elements => component.isProper && areGrammatical elements
  | .binary _ _ left right => left.isGrammatical && right.isGrammatical
  | .assign _ _ op value => op.all (fun op => !op.isComparison) && value.isGrammatical
  | .call _ _ args => areGrammatical args
  | .methodCall _ receiver _ args => receiver.isGrammatical && areGrammatical args

/-- Whether each of the expressions is grammatical. -/
def areGrammatical :
    List Expr → Bool
  | [] => true
  | expr :: rest => expr.isGrammatical && areGrammatical rest

end

/-- Parentheses make an expression fit for every place. -/
theorem derives_parenthesized
    {level tight : Nat}
    {needed : Bool}
    {tokens : List Token}
    {expr : Expr}
    (derives : Derives tight tokens expr)
    (atMost : tight ≤ postfixLevel)
    (fits : needed = false → level ≤ tight)
    (exists_level : level ≤ postfixLevel) :
    Derives level (parenthesizedTokens needed tokens) expr := by
  cases needed with
  | false => exact derives.loosen atMost (fits rfl)
  | true =>
      have loosest : Derives 0 tokens expr := derives.loosen atMost tight.zero_le
      exact Derives.loosen (.parenthesized loosest) le_rfl exists_level

mutual

/-- A printed expression is that expression by the grammar, on every level that is
demanded of it. -/
theorem derives_tokensIn :
    ∀ (expr : Expr) {level demanded : Nat},
      expr.isNamed = true → expr.isGrammatical = true →
      level ≤ demanded → level ≤ postfixLevel →
        Derives level (expr.tokensIn demanded) expr.bare
  | .intLit _ value, _, _, _, _, _, atMost => Derives.loosen (.integer value) le_rfl atMost
  | .boolLit _ value, _, _, _, _, _, atMost => Derives.loosen (.truth value) le_rfl atMost
  | .stringLit _ value, _, _, _, _, _, atMost => Derives.loosen (.string value) le_rfl atMost
  | .null _, _, _, _, _, _, atMost => Derives.loosen .null le_rfl atMost
  | .name _ ref, _, _, names, _, _, atMost => Derives.loosen (.name names) le_rfl atMost
  | .newArray _ component elements, _, _, names, grammatical, _, atMost => by
      simp only [isNamed, isGrammatical, Bool.and_eq_true] at names grammatical
      have type : DerivesType (component.tokens ++ [.mark "[", .mark "]"])
          (.array .absent component.bare) :=
        .array (component.derives_tokens names.1 grammatical.1)
      exact Derives.loosen
        (.newArray type (derives_allTokens elements names.2 grammatical.2)) le_rfl atMost
  | .binary _ op left right, level, demanded, names, grammatical, le, atMost => by
      simp only [isNamed, isGrammatical, Bool.and_eq_true] at names grammatical
      have first := derives_tokensIn left names.1 grammatical.1 (Nat.le_refl op.precedence)
        op.precedence_lt.le
      have second := derives_tokensIn right names.2 grammatical.2
        (Nat.le_refl (op.precedence + 1)) op.precedence_lt
      refine derives_parenthesized (.binary op first second) op.precedence_lt.le ?_ atMost
      intro isLoose
      exact le.trans (not_lt.mp (of_decide_eq_false isLoose))
  | .assign _ target op value, level, demanded, names, grammatical, le, atMost => by
      simp only [isNamed, isGrammatical, Bool.and_eq_true] at names grammatical
      have inner := derives_tokensIn value names.2 grammatical.2 (Nat.le_refl 0) (Nat.zero_le _)
      rw [tokensIn, assignTokens_of_arithmetic grammatical.1]
      refine derives_parenthesized (.assign names.1 grammatical.1 inner) (Nat.zero_le _) ?_ atMost
      intro isLoosest
      exact le.trans (not_lt.mp (of_decide_eq_false isLoosest))
  | .call _ function args, _, _, names, grammatical, _, atMost => by
      simp only [isNamed, Bool.and_eq_true] at names
      exact Derives.loosen (.call names.1 (derives_allTokens args names.2 grammatical)) le_rfl
        atMost
  | .methodCall _ receiver method args, _, _, names, grammatical, _, atMost => by
      simp only [isNamed, isGrammatical, Bool.and_eq_true] at names grammatical
      have called := derives_tokensIn receiver names.1.1 grammatical.1
        (show postfixLevel ≤ receiverPrecedence by decide) le_rfl
      exact Derives.loosen
        (.methodCall called names.1.2 (derives_allTokens args names.2 grammatical.2)) le_rfl atMost

theorem derives_allTokens :
    ∀ exprs : List Expr,
      areNamed exprs = true → areGrammatical exprs = true →
        DerivesAll (commaSeparated (allTokens exprs)) (bareAll exprs)
  | [], _, _ => .none
  | [expr], names, grammatical => by
      simp only [areNamed, areGrammatical, Bool.and_true] at names grammatical
      rw [allTokens, allTokens, commaSeparated_singleton]
      exact .one (derives_tokensIn expr names grammatical (Nat.le_refl 0) (Nat.zero_le _))
  | expr :: second :: rest, names, grammatical => by
      simp only [areNamed, areGrammatical, Bool.and_eq_true] at names grammatical
      have others : DerivesAll (commaSeparated (allTokens (second :: rest)))
          (bareAll (second :: rest)) :=
        derives_allTokens (second :: rest) (by simpa [areNamed] using names.2)
          (by simpa [areGrammatical] using grammatical.2)
      rw [allTokens, allTokens, commaSeparated_cons]
      exact .more
        (derives_tokensIn expr names.1 grammatical.1 (Nat.le_refl 0) (Nat.zero_le _)) others

end

/-- The text of an expression is read back as that expression, and the grammar gives
its tokens no other tree, positions and bindings aside. -/
theorem text_readBack
    (expr : Expr)
    (names : expr.isNamed = true)
    (grammatical : expr.isGrammatical = true) :
    ∃ tokens,
      tokens? expr.text.toList = some tokens ∧
      readExpression? tokens = some expr.bare ∧
      ∀ tree, Derives 0 tokens tree ↔ tree = expr.bare := by
  have derives : Derives 0 (expr.tokensIn 0) expr.bare :=
    expr.derives_tokensIn names grammatical le_rfl (Nat.zero_le _)
  refine ⟨expr.tokensIn 0, (expr.spells_text names).tokens?_eq, derives.readExpression?_eq,
    fun tree => ⟨fun other => ?_, ?_⟩⟩
  · exact Option.some.inj (other.readExpression?_eq.symm.trans derives.readExpression?_eq)
  · rintro rfl
    exact derives

/-- A difference on the right of a difference, and an assignment that is called on,
stand in parentheses and are read back so. -/
theorem text_readBack_grouped :
    let name (text : String) : Expr := .name .absent (.unbound text)
    let called : Expr :=
      .methodCall .absent
        (.assign .absent ⟨.unbound "y", .absent⟩ none
          (.newArray .absent
            (.array .absent (.generic .absent "List" [.wildcardExtends .absent (.named .absent "T")]))
            [.stringLit .absent "\"\n", .null .absent]))
        ⟨"size", .absent⟩ [.boolLit .absent true, name "z"]
    let expr : Expr :=
      .assign .absent ⟨.unbound "x", .absent⟩ (some .sub)
        (.binary .absent .sub (name "a")
          (.binary .absent .sub (.binary .absent .mul called (.intLit .absent (-1))) (name "b")))
    expr.isNamed = true ∧ expr.isGrammatical = true ∧
      ∃ tokens,
        tokens? expr.text.toList = some tokens ∧
        readExpression? tokens = some expr.bare ∧
        ∀ tree, Derives 0 tokens tree ↔ tree = expr.bare :=
  ⟨by decide, by decide, text_readBack _ (by decide) (by decide)⟩

end Expr

end LoopLowering
