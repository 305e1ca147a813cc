import LoopLowering.Types.Declarations
import LoopLowering.Proofs.Code.Steps

namespace LoopLowering

/-!
# Written types

What a written type stands for, and when the type variables in scope matter for it.

## What written types mean

Of a class table, resolving a written type only asks which classes there are and
how many type arguments each takes. Whether a type resolves depends on these
numbers; what it resolves to does not depend on the table at all.
-/

/-- The number of type arguments of each class that a written type may refer
to. -/
abbrev Arities := String → Option Nat

/-- The number of type arguments of each class of a table. -/
def ClassTable.arities
    (table : ClassTable) :
    Arities :=
  fun name => (table.class? name).map fun info => info.typeParams.length

namespace TypeExpr

mutual

/-- The type that a written type stands for if it resolves. -/
def meaning
    (typeVars : NameTable Ty) :
    TypeExpr → Ty
  | .named _ name =>
      match Primitive.ofName? name with
      | some kind => .primitive kind
      | none =>
          match typeVars.find? name with
          | some bound => .typeVar name bound
          | none => .named name
  | .generic _ name args => .classType name (meanings typeVars args)
  | .array _ component => .array (component.meaning typeVars)
  | .wildcard _ => .wildcard
  | .wildcardExtends _ bound => .wildcardExtends (bound.meaning typeVars)

/-- The types that written types stand for if they resolve. -/
def meanings
    (typeVars : NameTable Ty) :
    List TypeExpr → List Ty
  | [] => []
  | type :: rest => type.meaning typeVars :: meanings typeVars rest

end

/-- Written types mean one type each. -/
theorem length_meanings
    (typeVars : NameTable Ty)
    (types : List TypeExpr) :
    (meanings typeVars types).length = types.length := by
  induction types with
  | nil =>
      rfl
  | cons type rest inductionHypothesis =>
      exact congrArg Nat.succ inductionHypothesis

mutual

/-- Whether a written type resolves: its names are known, each generic class
takes as many arguments as there are, and none of them is primitive. -/
def resolves
    (arities : Arities)
    (typeVars : NameTable Ty) :
    TypeExpr → Bool
  | .named _ name =>
      (Primitive.ofName? name).isSome || typeVars.contains name || (arities name).isSome
  | .generic _ name args =>
      arities name == some args.length && allResolve arities typeVars args &&
        !(meanings typeVars args).any Ty.isPrimitive
  | .array _ component => component.resolves arities typeVars
  | .wildcard _ => true
  | .wildcardExtends _ bound => bound.resolves arities typeVars

/-- Whether all of some written types resolve. -/
def allResolve
    (arities : Arities)
    (typeVars : NameTable Ty) :
    List TypeExpr → Bool
  | [] => true
  | type :: rest => type.resolves arities typeVars && allResolve arities typeVars rest

end

end TypeExpr

namespace ClassTable

variable
  {table : ClassTable}
  {typeVars : NameTable Ty}

/-- A class takes as many arguments as it has type parameters. -/
theorem checkArity_eq_ok
    {name : String}
    {count : Nat}
    {result : Unit} :
    table.checkArity name count = .ok result ↔ table.arities name = some count := by
  unfold checkArity arities
  cases table.class? name with
  | none =>
      simp
  | some info =>
      simp

/-- Arguments are accepted if none of them is primitive. -/
theorem checkArguments_eq_ok
    {args : List Ty}
    {result : Unit} :
    checkArguments args = .ok result ↔ args.any Ty.isPrimitive = false := by
  unfold checkArguments
  split
  · next arg found =>
      simp only [reduceCtorEq, false_iff, Bool.not_eq_false, List.any_eq_true]
      exact ⟨arg, List.mem_of_find?_eq_some found, List.find?_some found⟩
  · next missing =>
      simpa using missing

/-- A name resolves to what it means. -/
theorem resolveName_eq_ok
    {span : Span}
    {name : String}
    {ty : Ty} :
    table.resolveName typeVars name = .ok ty ↔
      (TypeExpr.named span name).resolves table.arities typeVars = true ∧
        (TypeExpr.named span name).meaning typeVars = ty := by
  have isClass : (table.arities name).isSome = table.classes.contains name := by
    simp [arities, class?, NameTable.contains]
  unfold resolveName TypeExpr.resolves TypeExpr.meaning
  rw [isClass]
  cases isKeyword : Primitive.ofName? name with
  | some kind =>
      simp
  | none =>
      cases isVariable : typeVars.find? name with
      | some bound =>
          simp [NameTable.contains, isVariable]
      | none =>
          cases table.classes.contains name <;> simp [NameTable.contains, isVariable]

mutual

/-- A written type resolves to what it means. -/
theorem resolve_eq_ok :
    ∀ {type : TypeExpr} {ty : Ty},
      table.resolve typeVars type = .ok ty ↔
        type.resolves table.arities typeVars = true ∧ type.meaning typeVars = ty
  | .named span name, ty => by
      rw [resolve]
      exact resolveName_eq_ok
  | .generic span name args, ty => by
      simp only [resolve, bind_eq_ok, pure_eq_ok, checkArity_eq_ok, resolveAll_eq_ok,
        checkArguments_eq_ok, TypeExpr.resolves, TypeExpr.meaning, Bool.and_eq_true, beq_iff_eq,
        Bool.not_eq_true']
      constructor
      · rintro ⟨-, arity, tys, ⟨resolve, rfl⟩, -, values, rfl⟩
        exact ⟨⟨⟨arity, resolve⟩, values⟩, rfl⟩
      · rintro ⟨⟨⟨arity, resolve⟩, values⟩, rfl⟩
        exact ⟨(), arity, _, ⟨resolve, rfl⟩, (), values, rfl⟩
  | .array span component, ty => by
      simp only [resolve, bind_eq_ok, pure_eq_ok, @resolve_eq_ok component,
        TypeExpr.resolves, TypeExpr.meaning]
      constructor
      · rintro ⟨-, ⟨resolves, rfl⟩, rfl⟩
        exact ⟨resolves, rfl⟩
      · rintro ⟨resolves, rfl⟩
        exact ⟨_, ⟨resolves, rfl⟩, rfl⟩
  | .wildcard span, ty => by
      simp [resolve, TypeExpr.resolves, TypeExpr.meaning]
  | .wildcardExtends span bound, ty => by
      simp only [resolve, bind_eq_ok, pure_eq_ok, @resolve_eq_ok bound,
        TypeExpr.resolves, TypeExpr.meaning]
      constructor
      · rintro ⟨-, ⟨resolves, rfl⟩, rfl⟩
        exact ⟨resolves, rfl⟩
      · rintro ⟨resolves, rfl⟩
        exact ⟨_, ⟨resolves, rfl⟩, rfl⟩

theorem resolveAll_eq_ok :
    ∀ {types : List TypeExpr} {tys : List Ty},
      table.resolveAll typeVars types = .ok tys ↔
        TypeExpr.allResolve table.arities typeVars types = true ∧
          TypeExpr.meanings typeVars types = tys
  | [], tys => by
      simp [resolveAll, TypeExpr.allResolve, TypeExpr.meanings]
  | type :: rest, tys => by
      simp only [resolveAll, bind_eq_ok, pure_eq_ok, @resolve_eq_ok type,
        @resolveAll_eq_ok rest, TypeExpr.allResolve, TypeExpr.meanings,
        Bool.and_eq_true]
      constructor
      · rintro ⟨-, ⟨resolves, rfl⟩, -, ⟨others, rfl⟩, rfl⟩
        exact ⟨⟨resolves, others⟩, rfl⟩
      · rintro ⟨⟨resolves, others⟩, rfl⟩
        exact ⟨_, ⟨resolves, rfl⟩, _, ⟨others, rfl⟩, rfl⟩

end

end ClassTable

/-!
## Type variables in written types

A written type means the same with and without type variables in scope exactly
if it mentions none of them. A variable hides a class of its name, so a written
type that mentions one may resolve also where it is not in scope, to another
type.
-/

namespace TypeExpr

mutual

/-- Whether a written type mentions one of the type variables in scope. -/
def mentions
    (isVariable : String → Bool) :
    TypeExpr → Bool
  | .named _ name => (Primitive.ofName? name).isNone && isVariable name
  | .generic _ _ args => anyMentions isVariable args
  | .array _ component => component.mentions isVariable
  | .wildcard _ => false
  | .wildcardExtends _ bound => bound.mentions isVariable

/-- Whether one of some written types mentions one of the type variables in
scope. -/
def anyMentions
    (isVariable : String → Bool) :
    List TypeExpr → Bool
  | [] => false
  | type :: rest => type.mentions isVariable || anyMentions isVariable rest

end

section Meaning

variable
  {arities : Arities}
  {typeVars : NameTable Ty}

mutual

/-- A written type means the same without the type variables exactly if it
mentions none of them. -/
theorem meaning_eq_iff :
    ∀ {type : TypeExpr},
      type.meaning [] = type.meaning typeVars ↔ type.mentions typeVars.contains = false
  | .named _ name => by
      unfold meaning mentions NameTable.contains
      cases Primitive.ofName? name with
      | some kind =>
          simp
      | none =>
          cases typeVars.find? name <;> simp [NameTable.find?, Ty.named]
  | .generic _ name args => by
      simp only [meaning, mentions, Ty.classType.injEq, true_and]
      exact meanings_eq_iff
  | .array _ component => by
      simp only [meaning, mentions, Ty.array.injEq]
      exact meaning_eq_iff
  | .wildcard _ => by
      simp [meaning, mentions]
  | .wildcardExtends _ bound => by
      simp only [meaning, mentions, Ty.wildcardExtends.injEq]
      exact meaning_eq_iff

theorem meanings_eq_iff :
    ∀ {types : List TypeExpr},
      meanings [] types = meanings typeVars types ↔
        anyMentions typeVars.contains types = false
  | [] => by
      simp [meanings, anyMentions]
  | type :: rest => by
      simp only [meanings, anyMentions, List.cons.injEq, Bool.or_eq_false_iff]
      exact and_congr meaning_eq_iff meanings_eq_iff

end

mutual

/-- A written type that mentions none of the type variables resolves without
them. -/
theorem resolves_of_not_mentions :
    ∀ {type : TypeExpr},
      type.mentions typeVars.contains = false →
      type.resolves arities typeVars = true →
      type.resolves arities [] = true
  | .named _ name, absent, resolves => by
      simp only [mentions, Bool.and_eq_false_iff, Option.isNone_eq_false_iff] at absent
      simp only [TypeExpr.resolves, Bool.or_eq_true] at resolves ⊢
      rcases resolves with (isKeyword | isVariable) | isClass
      · exact .inl (.inl isKeyword)
      · rcases absent with isKeyword | isClass
        · exact .inl (.inl isKeyword)
        · rw [isClass] at isVariable
          cases isVariable
      · exact .inr isClass
  | .generic _ name args, absent, resolves => by
      simp only [mentions] at absent
      simp only [TypeExpr.resolves, Bool.and_eq_true] at resolves ⊢
      rw [meanings_eq_iff.mpr absent]
      exact ⟨⟨resolves.1.1, allResolve_of_not_mention absent resolves.1.2⟩, resolves.2⟩
  | .array _ component, absent, resolves => by
      simp only [mentions, TypeExpr.resolves] at absent resolves ⊢
      exact resolves_of_not_mentions absent resolves
  | .wildcard _, absent, resolves => by
      simp [TypeExpr.resolves]
  | .wildcardExtends _ bound, absent, resolves => by
      simp only [mentions, TypeExpr.resolves] at absent resolves ⊢
      exact resolves_of_not_mentions absent resolves

theorem allResolve_of_not_mention :
    ∀ {types : List TypeExpr},
      anyMentions typeVars.contains types = false →
      allResolve arities typeVars types = true →
      allResolve arities [] types = true
  | [], absent, resolve => by
      simp [allResolve]
  | type :: rest, absent, resolve => by
      simp only [anyMentions, Bool.or_eq_false_iff] at absent
      simp only [allResolve, Bool.and_eq_true] at resolve ⊢
      exact ⟨resolves_of_not_mentions absent.1 resolve.1,
        allResolve_of_not_mention absent.2 resolve.2⟩

end

end Meaning

end TypeExpr

end LoopLowering
