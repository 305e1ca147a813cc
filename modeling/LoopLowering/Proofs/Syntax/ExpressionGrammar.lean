import LoopLowering.Proofs.Syntax.TypeGrammar

namespace LoopLowering

/-!
# The grammar of expressions

Expressions have levels: assignments are the loosest, then come equality, relational,
additive and multiplicative operators, and calls are the tightest. Binary operators
group to the left and assignments to the right. A reader that decides by the next
token, and for an assignment by the next two, finds the tree that the grammar gives to
tokens, so the grammar gives them no other.
-/

/-- The level of the expressions that calls, names and literals are. The binary
operators have the levels of their binding strengths, and assignments level zero. -/
def postfixLevel :
    Nat :=
  5

/-- The sign of an assignment. -/
def assignSign
    (op : Option BinOp) :
    String :=
  (op.map BinOp.symbol).getD "" ++ "="

namespace Expr

mutual

/-- An expression without its positions, and with names that are not bound. -/
def bare :
    Expr → Expr
  | .intLit _ value => .intLit .absent value
  | .boolLit _ value => .boolLit .absent value
  | .stringLit _ value => .stringLit .absent value
  | .null _ => .null .absent
  | .name _ ref => .name .absent (.unbound ref.name)
  | .newArray _ component elements => .newArray .absent component.bare (bareAll elements)
  | .binary _ op left right => .binary .absent op left.bare right.bare
  | .assign _ target op value =>
      .assign .absent ⟨.unbound target.node.name, .absent⟩ op value.bare
  | .call _ function args => .call .absent ⟨function.node, .absent⟩ (bareAll args)
  | .methodCall _ receiver method args =>
      .methodCall .absent receiver.bare ⟨method.node, .absent⟩ (bareAll args)

/-- Expressions without their positions, and with names that are not bound. -/
def bareAll :
    List Expr → List Expr
  | [] => []
  | expr :: rest => expr.bare :: bareAll rest

end

end Expr

mutual

/-- Tokens are an expression of a level by the grammar. -/
inductive Derives :
    Nat → List Token → Expr → Prop where
  | integer (value : Int32) :
      Derives postfixLevel [.integer value.toInt] (.intLit .absent value)
  | truth (value : Bool) :
      Derives postfixLevel [.word (if value then "true" else "false")] (.boolLit .absent value)
  | string (value : String) :
      Derives postfixLevel [.string value] (.stringLit .absent value)
  | null :
      Derives postfixLevel [.word "null"] (.null .absent)
  | name {name : String} :
      isIdentifier name = true → Derives postfixLevel [.word name] (.name .absent (.unbound name))
  | newArray {typeTokens tokens : List Token} {component : TypeExpr} {elements : List Expr} :
      DerivesType typeTokens (.array .absent component) →
      DerivesAll tokens elements →
      Derives postfixLevel
        (.word "new" :: (typeTokens ++ .mark "\x7b" :: (tokens ++ [.mark "\x7d"])))
        (.newArray .absent component elements)
  | call {function : String} {tokens : List Token} {args : List Expr} :
      isIdentifier function = true →
      DerivesAll tokens args →
      Derives postfixLevel (.word function :: .mark "(" :: (tokens ++ [.mark ")"]))
        (.call .absent ⟨function, .absent⟩ args)
  | methodCall {method : String} {receiverTokens tokens : List Token} {receiver : Expr}
      {args : List Expr} :
      Derives postfixLevel receiverTokens receiver →
      isIdentifier method = true →
      DerivesAll tokens args →
      Derives postfixLevel
        (receiverTokens ++ .mark "." :: .word method :: .mark "(" :: (tokens ++ [.mark ")"]))
        (.methodCall .absent receiver ⟨method, .absent⟩ args)
  | parenthesized {tokens : List Token} {expr : Expr} :
      Derives 0 tokens expr → Derives postfixLevel (.mark "(" :: (tokens ++ [.mark ")"])) expr
  | binary (op : BinOp) {leftTokens rightTokens : List Token} {left right : Expr} :
      Derives op.precedence leftTokens left →
      Derives (op.precedence + 1) rightTokens right →
      Derives op.precedence (leftTokens ++ .mark op.symbol :: rightTokens)
        (.binary .absent op left right)
  | assign {target : String} {op : Option BinOp} {tokens : List Token} {value : Expr} :
      isIdentifier target = true →
      op.all (fun op => !op.isComparison) = true →
      Derives 0 tokens value →
      Derives 0 (.word target :: .mark (assignSign op) :: tokens)
        (.assign .absent ⟨.unbound target, .absent⟩ op value)
  /-- What binds tighter may stand where less is demanded. -/
  | tighter {level : Nat} {tokens : List Token} {expr : Expr} :
      level < postfixLevel → Derives (level + 1) tokens expr → Derives level tokens expr

/-- Tokens are expressions with commas between them by the grammar. -/
inductive DerivesAll :
    List Token → List Expr → Prop where
  | none :
      DerivesAll [] []
  | one {tokens : List Token} {expr : Expr} :
      Derives 0 tokens expr → DerivesAll tokens [expr]
  | more {tokens later : List Token} {expr second : Expr} {rest : List Expr} :
      Derives 0 tokens expr →
      DerivesAll later (second :: rest) →
      DerivesAll (tokens ++ .mark "," :: later) (expr :: second :: rest)

end

/-!
## Reading

Each reader gives back the tokens behind what it has read. Reading goes on there only if
they are fewer, which they always are, so it ends.
-/

/-- The binary operator with a spelling. -/
def BinOp.ofSymbol?
    (symbol : String) :
    Option BinOp :=
  [add, sub, mul, lt, le, gt, ge, eq, ne].find? (fun op => op.symbol == symbol)

/-- The operator of an assignment with a sign: none for a plain assignment. -/
def assignedOp?
    (sign : String) :
    Option (Option BinOp) :=
  [none, some .add, some .sub, some .mul].find? (fun op => assignSign op == sign)

/-- The target and the operator of an assignment, with what stands behind its sign. -/
def assignment? :
    List Token → Option (String × Option BinOp × List Token)
  | .word name :: .mark sign :: rest =>
      if isIdentifier name then (assignedOp? sign).map (fun op => (name, op, rest)) else none
  | _ => none

/-- The binary operator of a level, with what stands behind it. -/
def operator?
    (level : Nat) :
    List Token → Option (BinOp × List Token)
  | .mark symbol :: rest =>
      match BinOp.ofSymbol? symbol with
      | some op => if op.precedence = level then some (op, rest) else none
      | none => none
  | _ => none

mutual

/-- Read an expression of a level. -/
def readExpr?
    (level : Nat)
    (tokens : List Token) :
    Option (Expr × List Token) :=
  if level = 0 then
    match assignment? tokens with
    | some (target, op, behind) =>
        if behind.length < tokens.length then do
          let (value, rest) ← readExpr? 0 behind
          some (.assign .absent ⟨.unbound target, .absent⟩ op value, rest)
        else
          none
    | none => readExpr? 1 tokens
  else if level < postfixLevel then do
    let (left, behind) ← readExpr? (level + 1) tokens
    if behind.length < tokens.length then readOperators? level left behind else none
  else do
    let (head, behind) ← readPrimary? tokens
    if behind.length < tokens.length then readCalls? head behind else none
termination_by (tokens.length, postfixLevel - level + 1)
decreasing_by
  all_goals first
    | decreasing_tactic
    | exact Prod.Lex.right _ (by subst level; decide)

/-- Read the operators of a level behind an operand, and what they apply to. -/
def readOperators?
    (level : Nat)
    (left : Expr)
    (tokens : List Token) :
    Option (Expr × List Token) :=
  match operator? level tokens with
  | some (op, operand) =>
      if operand.length < tokens.length then do
        let (right, behind) ← readExpr? (level + 1) operand
        if behind.length < tokens.length then
          readOperators? level (.binary .absent op left right) behind
        else
          none
      else
        none
  | none => some (left, tokens)
termination_by (tokens.length, 0)

/-- Read an expression that is no call of a method and has no operator of its own. -/
def readPrimary?
    (tokens : List Token) :
    Option (Expr × List Token) :=
  match tokens with
  | .integer value :: rest =>
      if (Int32.ofInt value).toInt = value then
        some (.intLit .absent (Int32.ofInt value), rest)
      else
        none
  | .string value :: rest => some (.stringLit .absent value, rest)
  | .mark "(" :: rest => do
      let (expr, rest) ← readExpr? 0 rest
      match rest with
      | .mark ")" :: rest => some (expr, rest)
      | _ => none
  | .word "true" :: rest => some (.boolLit .absent true, rest)
  | .word "false" :: rest => some (.boolLit .absent false, rest)
  | .word "null" :: rest => some (.null .absent, rest)
  | .word "new" :: created => do
      let (type, rest) ← readType? created
      match type, rest with
      | .array _ component, .mark "\x7b" :: rest =>
          if rest.length < created.length then do
            let (elements, rest) ← readExprs? "\x7d" rest
            some (.newArray .absent component elements, rest)
          else
            none
      | _, _ => none
  | .word function :: .mark "(" :: rest =>
      if isIdentifier function then do
        let (args, rest) ← readExprs? ")" rest
        some (.call .absent ⟨function, .absent⟩ args, rest)
      else
        none
  | .word name :: rest =>
      if isIdentifier name then some (.name .absent (.unbound name), rest) else none
  | _ => none
termination_by (tokens.length, 0)

/-- Read the calls of methods behind an expression. -/
def readCalls?
    (receiver : Expr)
    (tokens : List Token) :
    Option (Expr × List Token) :=
  match tokens with
  | .mark "." :: .word method :: .mark "(" :: called =>
      if isIdentifier method then do
        let (args, behind) ← readExprs? ")" called
        if behind.length < called.length then
          readCalls? (.methodCall .absent receiver ⟨method, .absent⟩ args) behind
        else
          none
      else
        none
  | tokens => some (receiver, tokens)
termination_by (tokens.length, 0)

/-- Read expressions with commas between them, up to the mark behind them. -/
def readExprs?
    (closer : String)
    (tokens : List Token) :
    Option (List Expr × List Token) :=
  if tokens.head? = some (.mark closer) then
    some ([], tokens.tail)
  else do
    let (expr, behind) ← readExpr? 0 tokens
    match behind with
    | .mark "," :: rest =>
        if rest.length < tokens.length then do
          let (exprs, rest) ← readExprs? closer rest
          some (expr :: exprs, rest)
        else
          none
    | .mark mark :: rest => if mark = closer then some ([expr], rest) else none
    | _ => none
termination_by (tokens.length, postfixLevel + 2)

end

/-- The levels of the operators. -/
theorem BinOp.precedence_pos
    (op : BinOp) :
    0 < op.precedence := by
  cases op <;> decide

/-- Operators are looser than calls. -/
theorem BinOp.precedence_lt
    (op : BinOp) :
    op.precedence < postfixLevel := by
  cases op <;> decide

/-- An operator is found by its spelling. -/
theorem BinOp.ofSymbol?_symbol
    (op : BinOp) :
    ofSymbol? op.symbol = some op := by
  cases op <;> decide

/-- The operator of an assignment is found by its sign. -/
theorem assignedOp?_assignSign
    {op : Option BinOp}
    (arithmetic : op.all (fun op => !op.isComparison) = true) :
    assignedOp? (assignSign op) = some op := by
  rcases op with _ | op
  · decide
  · cases op <;> first | decide | exact absurd arithmetic (by decide)

/-- How tightly a token holds on to the expression before it: an operator by its level,
a call tighter than all of them, and a token that ends every expression not at all. -/
def Token.pull :
    Token → Nat
  | .mark text =>
      match BinOp.ofSymbol? text with
      | some op => op.precedence
      | none =>
          if text = "." then
            postfixLevel
          else if text = "(" ∨ (assignedOp? text).isSome then
            postfixLevel + 1
          else
            0
  | _ => 0

/-- Nothing behind an expression of a level holds on to it more tightly. -/
def Yields
    (level : Nat)
    (rest : List Token) :
    Prop :=
  ∀ token ∈ rest.head?, token.pull ≤ level

/-- An operator holds on to what is before it by its level. -/
theorem BinOp.pull_symbol
    (op : BinOp) :
    (Token.mark op.symbol).pull = op.precedence := by
  rw [Token.pull, op.ofSymbol?_symbol]

namespace Yields

variable
  {level : Nat}
  {rest : List Token}

theorem mono
    {tighter : Nat}
    (yields : Yields level rest)
    (le : level ≤ tighter) :
    Yields tighter rest :=
  fun token isHead => (yields token isHead).trans le

/-- A token of no strength yields to everything. -/
theorem closer
    {token : Token}
    (ends : token.pull = 0) :
    Yields level (token :: rest) := by
  rintro _ ⟨⟩
  rw [ends]
  exact level.zero_le

/-- Operators that yield are looser. -/
theorem operator?_eq
    (yields : Yields level rest) :
    operator? (level + 1) rest = none := by
  unfold operator?
  split
  · rename_i symbol later
    have pull := yields _ rfl
    rw [Token.pull] at pull
    split
    · rename_i op found
      simp only [found] at pull
      exact if_neg (by omega)
    · rfl
  · rfl

end Yields

/-- A call is tighter than every operator. -/
theorem pull_dot :
    (Token.mark ".").pull = postfixLevel := by
  decide

/-- What yields to calls is not the sign of an assignment. -/
theorem assignedOp?_of_yields
    {sign : String}
    {rest : List Token}
    (yields : Yields postfixLevel (.mark sign :: rest)) :
    assignedOp? sign = none := by
  have pull := yields _ rfl
  cases found : assignedOp? sign with
  | none => rfl
  | some op =>
      have isSign := List.find?_some found
      have member := List.mem_of_find?_eq_some found
      simp only [beq_iff_eq] at isSign
      subst isSign
      simp only [List.mem_cons, List.not_mem_nil, or_false] at member
      rcases member with rfl | rfl | rfl | rfl <;> revert pull <;> decide

/-! ## The first tokens -/

/-- Whether a token can be the first of an expression. -/
def Token.opens :
    Token → Bool
  | .mark text => text = "("
  | _ => true

/-- Expressions start with a token that can open one. -/
theorem Derives.exists_opens :
    ∀ {level : Nat} {tokens : List Token} {expr : Expr},
      Derives level tokens expr → ∃ token rest, tokens = token :: rest ∧ token.opens = true
  | _, _, _, .integer _ | _, _, _, .truth _ | _, _, _, .string _ | _, _, _, .null
  | _, _, _, .name _ | _, _, _, .newArray .. | _, _, _, .call .. | _, _, _, .parenthesized _
  | _, _, _, .assign .. => ⟨_, _, rfl, rfl⟩
  | _, _, _, .methodCall receiver .. => by
      obtain ⟨token, rest, rfl, opens⟩ := receiver.exists_opens
      exact ⟨token, _, rfl, opens⟩
  | _, _, _, .binary _ left _ => by
      obtain ⟨token, rest, rfl, opens⟩ := left.exists_opens
      exact ⟨token, _, rfl, opens⟩
  | _, _, _, .tighter _ derives => derives.exists_opens

/-- Expressions do not start with a token that ends a list of them. -/
theorem Derives.head?_ne
    {level : Nat}
    {tokens : List Token}
    {expr : Expr}
    (derives : Derives level tokens expr)
    {closer : String}
    (isCloser : closer = ")" ∨ closer = "\x7d")
    (rest : List Token) :
    (tokens ++ rest).head? ≠ some (.mark closer) := by
  obtain ⟨token, later, rfl, opens⟩ := derives.exists_opens
  rintro ⟨⟩
  rcases isCloser with rfl | rfl <;> exact absurd opens (by decide)

/-- What is behind an expression is less than what starts with it. -/
theorem Derives.length_lt
    {level : Nat}
    {tokens : List Token}
    {expr : Expr}
    (derives : Derives level tokens expr)
    (rest : List Token) :
    rest.length < (tokens ++ rest).length := by
  obtain ⟨token, later, rfl, -⟩ := derives.exists_opens
  simp only [List.cons_append, List.length_cons, List.length_append]
  omega

/-- An expression that is no assignment does not look like one. -/
theorem Derives.assignment?_eq :
    ∀ {level : Nat} {tokens : List Token} {expr : Expr},
      Derives level tokens expr → 0 < level →
      ∀ rest : List Token, Yields postfixLevel rest → assignment? (tokens ++ rest) = none
  | _, _, _, .integer _, _, _, _ | _, _, _, .string _, _, _, _
  | _, _, _, .parenthesized _, _, _, _ => rfl
  | _, _, _, .truth value, _, rest, _ => by
      have reserved : isIdentifier (if value then "true" else "false") = false := by
        cases value <;> decide
      unfold assignment?
      split <;> simp_all
  | _, _, _, .null, _, rest, _ => by
      have reserved : isIdentifier "null" = false := by decide
      unfold assignment?
      split <;> simp_all
  | _, _, _, .name _, _, rest, yields => by
      unfold assignment?
      split
      · rename_i sign _ same
        obtain ⟨-, rfl⟩ := List.cons.inj same
        rw [assignedOp?_of_yields yields]
        split <;> rfl
      · rfl
  | _, _, _, .newArray .., _, rest, _ => by
      have reserved : isIdentifier "new" = false := by decide
      unfold assignment?
      split <;> simp_all
  | _, _, _, .call .., _, rest, _ => by
      have noSign : assignedOp? "(" = none := by decide
      rw [List.cons_append, List.cons_append, assignment?, noSign]
      split <;> rfl
  | _, _, _, .methodCall receiver .., _, rest, _ => by
      rw [List.append_assoc]
      exact receiver.assignment?_eq (by decide) _ (by rintro _ ⟨⟩; decide)
  | _, _, _, .binary op left _, positive, rest, _ => by
      rw [List.append_assoc]
      refine left.assignment?_eq positive _ ?_
      rintro _ ⟨⟩
      rw [op.pull_symbol]
      exact op.precedence_lt.le
  | _, _, _, .assign .., positive, _, _ => absurd positive (by decide)
  | _, _, _, .tighter _ derives, _, rest, yields =>
      derives.assignment?_eq (Nat.succ_pos _) rest yields

/-! ## Reading what the grammar allows -/

/-- Read what may still belong to an expression of a level. -/
def readMore?
    (level : Nat)
    (head : Expr)
    (tokens : List Token) :
    Option (Expr × List Token) :=
  if level = 0 then
    some (head, tokens)
  else if level < postfixLevel then
    readOperators? level head tokens
  else
    readCalls? head tokens

/-- Nothing more belongs to an expression before what yields to a looser one. -/
theorem readMore?_eq
    {level : Nat}
    {rest : List Token}
    (head : Expr)
    (yields : Yields level rest)
    (atMost : level < postfixLevel) :
    readMore? (level + 1) head rest = some (head, rest) := by
  rw [readMore?, if_neg level.succ_ne_zero]
  split
  · rw [readOperators?, yields.operator?_eq]
  · rw [readCalls?]
    rintro method later rfl
    exact absurd (yields _ rfl) (by rw [pull_dot]; omega)

/-- Names, literals, lists and parentheses are followed by calls. -/
theorem readExpr?_of_primary
    {first : Token}
    {tokens rest : List Token}
    {head : Expr}
    (read : readPrimary? (first :: tokens ++ rest) = some (head, rest)) :
    readExpr? postfixLevel (first :: tokens ++ rest) = readMore? postfixLevel head rest := by
  have shorter : rest.length < (first :: tokens ++ rest).length := by
    simp only [List.cons_append, List.length_cons, List.length_append]
    omega
  rw [readExpr?, if_neg (by decide), if_neg (by decide), read]
  exact if_pos shorter

/-- An identifier before no parenthesis is a name. -/
theorem readPrimary?_name
    {name : String}
    {rest : List Token}
    (isName : isIdentifier name = true)
    (ends : ∀ later, rest ≠ .mark "(" :: later) :
    readPrimary? (.word name :: rest) = some (.name .absent (.unbound name), rest) := by
  rw [readPrimary?]
  · rw [if_pos isName]
  · exact ne_of_isIdentifier isName (by decide)
  · exact ne_of_isIdentifier isName (by decide)
  · exact ne_of_isIdentifier isName (by decide)
  · exact ne_of_isIdentifier isName (by decide)
  · exact ends

/-- An identifier before a parenthesis is a function. -/
theorem readPrimary?_call
    {function : String}
    {rest : List Token}
    (isName : isIdentifier function = true) :
    readPrimary? (.word function :: .mark "(" :: rest) = (do
      let (args, rest) ← readExprs? ")" rest
      some (.call .absent ⟨function, .absent⟩ args, rest)) := by
  rw [readPrimary?]
  · rw [if_pos isName]
  · exact ne_of_isIdentifier isName (by decide)
  · exact ne_of_isIdentifier isName (by decide)
  · exact ne_of_isIdentifier isName (by decide)
  · exact ne_of_isIdentifier isName (by decide)

mutual

/-- Tokens that are an expression of a level are read as it, up to what may still
belong to that level. -/
theorem Derives.readExpr?_eq :
    ∀ {level : Nat} {tokens : List Token} {expr : Expr},
      Derives level tokens expr →
      ∀ rest : List Token, Yields level rest →
        readExpr? level (tokens ++ rest) = readMore? level expr rest
  | _, _, _, .integer value, rest, _ => by
      refine readExpr?_of_primary ?_
      rw [List.singleton_append, readPrimary?, Int32.ofInt_toInt, if_pos rfl]
  | _, _, _, .truth value, rest, _ => by
      refine readExpr?_of_primary ?_
      rw [List.singleton_append]
      cases value <;> simp only [if_true, Bool.false_eq_true, if_false] <;> rw [readPrimary?]
  | _, _, _, .string value, rest, _ => by
      refine readExpr?_of_primary ?_
      rw [List.singleton_append, readPrimary?]
  | _, _, _, .null, rest, _ => by
      refine readExpr?_of_primary ?_
      rw [List.singleton_append, readPrimary?]
  | _, _, _, .name isName, rest, yields => by
      refine readExpr?_of_primary (readPrimary?_name isName ?_)
      rintro later rfl
      exact absurd (yields _ rfl) (by decide)
  | _, _, _, .newArray type elements, rest, _ => by
      refine readExpr?_of_primary ?_
      simp only [List.cons_append, List.append_assoc, List.nil_append]
      rw [readPrimary?, type.readType?_eq _ (by simp), readBrackets_of_ne (by simp)]
      simp only [Option.bind_eq_bind, Option.bind_some,
        length_behind_lt, if_true, elements.readExprs?_eq "\x7d" (.inr rfl) rest]
  | _, _, _, .call isName args, rest, _ => by
      refine readExpr?_of_primary ?_
      simp only [List.cons_append, List.append_assoc, List.nil_append]
      rw [readPrimary?_call isName, args.readExprs?_eq ")" (.inl rfl) rest]
      rfl
  | _, _, _, .methodCall receiver isName args, rest, _ => by
      simp only [List.cons_append, List.append_assoc, List.nil_append]
      rw [receiver.readExpr?_eq _ (by rintro _ ⟨⟩; exact pull_dot.le), readMore?,
        if_neg (by decide), if_neg (by decide), readCalls?, if_pos isName,
        args.readExprs?_eq ")" (.inl rfl) rest]
      exact if_pos (length_behind_lt _ _ rest)
  | _, _, _, .parenthesized expr, rest, _ => by
      refine readExpr?_of_primary ?_
      simp only [List.cons_append, List.append_assoc, List.nil_append]
      rw [readPrimary?, expr.readExpr?_eq _ (.closer (by decide))]
      rfl
  | _, _, _, @Derives.binary op _ rightTokens _ _ left right, rest, yields => by
      have looser : op.precedence ≠ 0 := op.precedence_pos.ne'
      have found : operator? op.precedence (.mark op.symbol :: (rightTokens ++ rest)) =
          some (op, rightTokens ++ rest) := by
        simp only [operator?, op.ofSymbol?_symbol, if_true]
      have operand := length_behind_lt [] (.mark op.symbol) (rightTokens ++ rest)
      have behind := (right.length_lt rest).trans operand
      rw [List.append_assoc, List.cons_append, left.readExpr?_eq]
      · rw [readMore?, if_neg looser, if_pos op.precedence_lt, readOperators?, found]
        simp only [right.readExpr?_eq rest (yields.mono (Nat.le_succ _)),
          readMore?_eq _ yields op.precedence_lt, Option.bind_eq_bind, Option.bind_some]
        rw [readMore?, if_neg looser, if_pos op.precedence_lt]
        exact (if_pos operand).trans (if_pos behind)
      · rintro _ ⟨⟩
        exact op.pull_symbol.le
  | _, _, _, .assign isName arithmetic value, rest, yields => by
      rw [List.cons_append, List.cons_append, readExpr?, if_pos rfl, assignment?, if_pos isName,
        assignedOp?_assignSign arithmetic, Option.map_some]
      simp only [value.readExpr?_eq rest yields]
      exact if_pos (length_behind_lt [_] _ _)
  | level, _, _, .tighter atMost derives, rest, yields => by
      have inner := derives.readExpr?_eq rest (yields.mono level.le_succ)
      rw [readMore?_eq _ yields atMost] at inner
      by_cases isLoosest : level = 0
      · subst isLoosest
        rw [readExpr?, if_pos rfl,
          derives.assignment?_eq Nat.one_pos rest (yields.mono (Nat.zero_le _))]
        exact inner
      · rw [readExpr?, if_neg isLoosest, if_pos atMost, inner, readMore?, if_neg isLoosest,
          if_pos atMost]
        exact if_pos (derives.length_lt rest)

theorem DerivesAll.readExprs?_eq :
    ∀ {tokens : List Token} {exprs : List Expr},
      DerivesAll tokens exprs →
      ∀ closer : String, closer = ")" ∨ closer = "\x7d" →
      ∀ rest : List Token,
        readExprs? closer (tokens ++ .mark closer :: rest) = some (exprs, rest)
  | _, _, .none, closer, _, rest => by
      rw [List.nil_append, readExprs?, if_pos List.head?_cons, List.tail_cons]
  | _, _, .one expr, closer, isCloser, rest => by
      have inner := expr.readExpr?_eq (.mark closer :: rest)
        (.closer (by rcases isCloser with rfl | rfl <;> decide))
      rw [readExprs?, inner, if_neg (expr.head?_ne isCloser _)]
      rcases isCloser with rfl | rfl <;> rfl
  | _, _, @DerivesAll.more _ others _ _ _ expr exprs, closer, isCloser, rest => by
      have inner := expr.readExpr?_eq (.mark "," :: (others ++ .mark closer :: rest))
        (.closer (by decide))
      rw [List.append_assoc, List.cons_append, readExprs?, inner,
        if_neg (expr.head?_ne isCloser _)]
      simp only [readMore?, if_true, Option.bind_eq_bind, Option.bind_some, length_behind_lt,
        exprs.readExprs?_eq closer isCloser rest]

end

/-- An expression that stands on its own. -/
def readExpression?
    (tokens : List Token) :
    Option Expr :=
  match readExpr? 0 tokens with
  | some (expr, []) => some expr
  | _ => none

/-- The tree of tokens is the one that is read. -/
theorem Derives.readExpression?_eq
    {tokens : List Token}
    {expr : Expr}
    (derives : Derives 0 tokens expr) :
    readExpression? tokens = some expr := by
  have read := derives.readExpr?_eq [] (by simp [Yields])
  rw [List.append_nil] at read
  rw [readExpression?, read]
  rfl

end LoopLowering
