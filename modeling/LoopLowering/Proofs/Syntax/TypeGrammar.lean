import LoopLowering.Proofs.Syntax.PrintedTokens

namespace LoopLowering

/-!
# The grammar of written types

A written type is a name, perhaps with type arguments, and any number of empty
brackets behind it; wildcards stand for type arguments only. Tokens that are a type by
this grammar are read as that type by a reader that never looks back, so the grammar
gives them no other.
-/

namespace TypeExpr

mutual

/-- A written type without its positions. -/
def bare :
    TypeExpr → TypeExpr
  | .named _ name => .named .absent name
  | .generic _ name args => .generic .absent name (bareAll args)
  | .array _ component => .array .absent component.bare
  | .wildcard _ => .wildcard .absent
  | .wildcardExtends _ bound => .wildcardExtends .absent bound.bare

/-- Written types without their positions. -/
def bareAll :
    List TypeExpr → List TypeExpr
  | [] => []
  | type :: rest => type.bare :: bareAll rest

end

mutual

/-- Whether a written type is no wildcard, and has wildcards only as type arguments. -/
def isProper :
    TypeExpr → Bool
  | .named .. => true
  | .generic _ _ args => areArguments args
  | .array _ component => component.isProper
  | .wildcard _ | .wildcardExtends .. => false

/-- Whether a written type can be a type argument. -/
def isArgument :
    TypeExpr → Bool
  | .named .. => true
  | .generic _ _ args => areArguments args
  | .array _ component => component.isProper
  | .wildcard _ => true
  | .wildcardExtends _ bound => bound.isProper

/-- Whether written types can be type arguments. -/
def areArguments :
    List TypeExpr → Bool
  | [] => true
  | type :: rest => type.isArgument && areArguments rest

end

end TypeExpr

mutual

/-- Tokens are a type by the grammar. -/
inductive DerivesType :
    List Token → TypeExpr → Prop where
  | named {name : String} :
      isTypeName name = true → DerivesType [.word name] (.named .absent name)
  | generic {name : String} {tokens : List Token} {args : List TypeExpr} :
      isIdentifier name = true →
      DerivesTypeArguments tokens args →
      DerivesType (.word name :: .mark "<" :: (tokens ++ [.mark ">"])) (.generic .absent name args)
  | array {tokens : List Token} {component : TypeExpr} :
      DerivesType tokens component →
      DerivesType (tokens ++ [.mark "[", .mark "]"]) (.array .absent component)

/-- Tokens are a type argument by the grammar. -/
inductive DerivesTypeArgument :
    List Token → TypeExpr → Prop where
  | type {tokens : List Token} {type : TypeExpr} :
      DerivesType tokens type → DerivesTypeArgument tokens type
  | wildcard :
      DerivesTypeArgument [.mark "?"] (.wildcard .absent)
  | wildcardExtends {tokens : List Token} {bound : TypeExpr} :
      DerivesType tokens bound →
      DerivesTypeArgument (.mark "?" :: .word "extends" :: tokens) (.wildcardExtends .absent bound)

/-- Tokens are type arguments with commas between them by the grammar. -/
inductive DerivesTypeArguments :
    List Token → List TypeExpr → Prop where
  | none :
      DerivesTypeArguments [] []
  | one {tokens : List Token} {type : TypeExpr} :
      DerivesTypeArgument tokens type → DerivesTypeArguments tokens [type]
  | more {tokens later : List Token} {type second : TypeExpr} {rest : List TypeExpr} :
      DerivesTypeArgument tokens type →
      DerivesTypeArguments later (second :: rest) →
      DerivesTypeArguments (tokens ++ .mark "," :: later) (type :: second :: rest)

end

/-- Read the empty brackets behind a type. -/
def readBrackets
    (type : TypeExpr) :
    List Token → TypeExpr × List Token
  | .mark "[" :: .mark "]" :: rest => readBrackets (.array .absent type) rest
  | tokens => (type, tokens)

mutual

/-- Read a type. -/
def readType?
    (tokens : List Token) :
    Option (TypeExpr × List Token) :=
  match tokens with
  | .word name :: .mark "<" :: rest =>
      if isIdentifier name then do
        let (args, rest) ← readTypeArguments? rest
        some (readBrackets (.generic .absent name args) rest)
      else
        none
  | .word name :: rest =>
      if isTypeName name then some (readBrackets (.named .absent name) rest) else none
  | _ => none
termination_by (tokens.length, 0)

/-- Read a type argument. -/
def readTypeArgument?
    (tokens : List Token) :
    Option (TypeExpr × List Token) :=
  match tokens with
  | .mark "?" :: .word "extends" :: rest => do
      let (bound, rest) ← readType? rest
      some (.wildcardExtends .absent bound, rest)
  | .mark "?" :: rest => some (.wildcard .absent, rest)
  | tokens => readType? tokens
termination_by (tokens.length, 1)

/-- Read type arguments up to the mark behind them. -/
def readTypeArguments?
    (tokens : List Token) :
    Option (List TypeExpr × List Token) :=
  match tokens with
  | .mark ">" :: rest => some ([], rest)
  | tokens => do
      let (type, behind) ← readTypeArgument? tokens
      match behind with
      | .mark "," :: rest =>
          -- a type argument has at least one token; asked here so that reading surely ends
          if rest.length < tokens.length then do
            let (types, rest) ← readTypeArguments? rest
            some (type :: types, rest)
          else
            none
      | .mark ">" :: rest => some ([type], rest)
      | _ => none
termination_by (tokens.length, 2)

end

/-- Behind a type without brackets nothing belongs to it. -/
theorem readBrackets_of_ne
    {type : TypeExpr}
    {rest : List Token}
    (ends : rest.head? ≠ some (.mark "[")) :
    readBrackets type rest = (type, rest) := by
  rw [readBrackets]
  rintro type rfl
  exact ends rfl

/-- A type starts with a word. -/
theorem DerivesType.exists_word :
    ∀ {tokens : List Token} {type : TypeExpr},
      DerivesType tokens type → ∃ name rest, tokens = .word name :: rest
  | _, _, .named _ => ⟨_, _, rfl⟩
  | _, _, .generic .. => ⟨_, _, rfl⟩
  | _, _, .array component => by
      obtain ⟨name, rest, rfl⟩ := component.exists_word
      exact ⟨name, rest ++ [.mark "[", .mark "]"], rfl⟩

/-- A type argument does not start with the end of the arguments. -/
theorem DerivesTypeArgument.exists_head
    {tokens : List Token}
    {type : TypeExpr}
    (derives : DerivesTypeArgument tokens type) :
    ∃ token rest, tokens = token :: rest ∧ token ≠ .mark ">" := by
  cases derives with
  | type derives =>
      obtain ⟨name, rest, rfl⟩ := derives.exists_word
      exact ⟨_, _, rfl, by simp⟩
  | wildcard => exact ⟨_, _, rfl, by decide⟩
  | wildcardExtends => exact ⟨_, _, rfl, by decide⟩

mutual

/-- Tokens that are a type are read as it. -/
theorem DerivesType.readType?_eq :
    ∀ {tokens : List Token} {type : TypeExpr},
      DerivesType tokens type →
      ∀ rest : List Token, rest.head? ≠ some (.mark "<") →
        readType? (tokens ++ rest) = some (readBrackets type rest)
  | _, _, .named isName, rest, ends => by
      rw [List.singleton_append, readType?]
      · rw [if_pos isName]
      · rintro _ rfl
        exact ends rfl
  | _, _, .generic isName args, rest, _ => by
      simp only [List.cons_append, List.append_assoc, List.nil_append]
      rw [readType?, if_pos isName, args.readTypeArguments?_eq rest]
      rfl
  | _, _, .array component, rest, _ => by
      rw [List.append_assoc, component.readType?_eq _ (by simp)]
      rfl

theorem DerivesTypeArgument.readTypeArgument?_eq :
    ∀ {tokens : List Token} {type : TypeExpr},
      DerivesTypeArgument tokens type →
      ∀ (mark : String) (rest : List Token), mark = "," ∨ mark = ">" →
        readTypeArgument? (tokens ++ .mark mark :: rest) = some (type, .mark mark :: rest)
  | _, _, .type derives, mark, rest, ends => by
      obtain ⟨name, later, shape⟩ := derives.exists_word
      have read := derives.readType?_eq (.mark mark :: rest)
        (by rcases ends with rfl | rfl <;> simp)
      rw [readBrackets_of_ne (by rcases ends with rfl | rfl <;> simp)] at read
      rw [readTypeArgument?, read]
      all_goals simp [shape]
  | _, _, .wildcard, mark, rest, _ => by
      rw [List.singleton_append, readTypeArgument?]
      simp_all
  | _, _, .wildcardExtends bound, mark, rest, ends => by
      have read := bound.readType?_eq (.mark mark :: rest) (by rcases ends with rfl | rfl <;> simp)
      rw [readBrackets_of_ne (by rcases ends with rfl | rfl <;> simp)] at read
      rw [List.cons_append, List.cons_append, readTypeArgument?, read]
      rfl

theorem DerivesTypeArguments.readTypeArguments?_eq :
    ∀ {tokens : List Token} {types : List TypeExpr},
      DerivesTypeArguments tokens types →
      ∀ rest : List Token,
        readTypeArguments? (tokens ++ .mark ">" :: rest) = some (types, rest)
  | _, _, .none, rest => by
      rw [List.nil_append, readTypeArguments?]
  | _, _, .one first, rest => by
      have read := first.readTypeArgument?_eq ">" rest (.inr rfl)
      obtain ⟨token, later, shape, noEnd⟩ := first.exists_head
      rw [readTypeArguments?, read]
      · rfl
      · simp [shape, noEnd]
  | _, _, @DerivesTypeArguments.more _ later _ _ _ first others, rest => by
      have read := first.readTypeArgument?_eq "," (later ++ .mark ">" :: rest) (.inl rfl)
      obtain ⟨token, _, shape, noEnd⟩ := first.exists_head
      rw [List.append_assoc, List.cons_append, readTypeArguments?, read]
      · simp only [Option.bind_eq_bind, Option.bind_some, length_behind_lt, if_true,
          others.readTypeArguments?_eq rest]
      · simp [shape, noEnd]

end

end LoopLowering
