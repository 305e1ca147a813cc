import LoopLowering.Proofs.Types.SoundTables
import LoopLowering.Proofs.Types.WrittenTypes
import LoopLowering.Types.Builtins

namespace LoopLowering

/-!
# Well-formed types

A type is well-formed if its class types, at every depth, have as many arguments as their
classes take, no class is instantiated at a primitive type, and wildcards stand for type
arguments only, bounded by reference types. Resolution checks the names, the numbers of
arguments and the arguments themselves. It checks neither where a wildcard stands nor what
bounds it, so what a written type resolves to is well-formed exactly if the wildcards are
written where they belong.
-/

/-! ### Types -/

/-- Whether a class type may have some number of arguments: its class is declared and takes as
many, unless the type is raw. -/
def ClassTable.takesArguments
    (table : ClassTable)
    (name : String)
    (count : Nat) :
    Bool :=
  match table.class? name with
  | some info => count == 0 || info.typeParams.length == count
  | none => false

namespace Ty

mutual

/-- Whether a type is well-formed where it stands: as a type argument or anywhere else. -/
def isWellFormed
    (table : ClassTable)
    (asArgument : Bool) :
    Ty → Bool
  | .primitive _ => !asArgument
  | .classType name args => table.takesArguments name args.length && areWellFormed table args
  | .typeVar _ bound => bound.isWellFormed table false
  | .array component => component.isWellFormed table false
  | .wildcard => asArgument
  | .wildcardExtends bound =>
      asArgument && bound.isWellFormed table false && !bound.isPrimitive
  | .null | .void | .unknown => true

/-- Whether all type arguments of a list are well-formed. -/
def areWellFormed
    (table : ClassTable) :
    List Ty → Bool
  | [] => true
  | arg :: rest => arg.isWellFormed table true && areWellFormed table rest

end

end Ty

/-! ### Written types -/

namespace TypeExpr

mutual

/-- Whether every wildcard of a written type stands for a type argument, and none is bounded
by the keyword of a primitive type. -/
def placesWildcards
    (asArgument : Bool) :
    TypeExpr → Bool
  | .named .. => true
  | .generic _ _ args => allPlaceWildcards args
  | .array _ component => component.placesWildcards false
  | .wildcard _ => asArgument
  | .wildcardExtends _ bound =>
      asArgument && bound.placesWildcards false && !bound.isKeyword

/-- Whether every wildcard in a list of written type arguments is placed well. -/
def allPlaceWildcards :
    List TypeExpr → Bool
  | [] => true
  | arg :: rest => arg.placesWildcards true && allPlaceWildcards rest

end

/-- A written type means a primitive type exactly if it is a keyword. -/
theorem isPrimitive_meaning
    (typeVars : NameTable Ty)
    (type : TypeExpr) :
    (type.meaning typeVars).isPrimitive = type.isKeyword := by
  cases type with
  | named span name =>
      simp only [meaning, isKeyword]
      cases Primitive.ofName? name with
      | some kind =>
          rfl
      | none =>
          cases typeVars.find? name <;> rfl
  | _ =>
      simp [meaning, isKeyword, Ty.isPrimitive]

section Meaning

variable
  {table : ClassTable}
  {typeVars : NameTable Ty}

/-- The type variables in scope have well-formed bounds. -/
def BoundsWellFormed
    (table : ClassTable)
    (typeVars : NameTable Ty) :
    Prop :=
  ∀ name bound, typeVars.find? name = some bound → bound.isWellFormed table false = true

/-- A class that takes some number of arguments may have them. -/
theorem takesArguments_of_arities
    {name : String}
    {count : Nat}
    (takes : table.arities name = some count) :
    table.takesArguments name count = true := by
  obtain ⟨info, isInfo, rfl⟩ := Option.map_eq_some_iff.mp takes
  simp [ClassTable.takesArguments, isInfo]

/-- A class that exists may be left raw. -/
theorem takesArguments_zero
    {name : String}
    (known : (table.arities name).isSome = true) :
    table.takesArguments name 0 = true := by
  obtain ⟨info, isInfo⟩ := Option.isSome_iff_exists.mp (by simpa [ClassTable.arities] using known)
  simp [ClassTable.takesArguments, isInfo]

mutual

/-- What a written type means is well-formed exactly if the wildcards are placed well. An
argument must not be primitive, which is checked where it is written. -/
theorem isWellFormed_meaning
    (bounds : BoundsWellFormed table typeVars)
    {asArgument : Bool} :
    ∀ {type : TypeExpr},
      type.resolves table.arities typeVars = true →
      (asArgument = true → type.isKeyword = false) →
      (type.meaning typeVars).isWellFormed table asArgument = type.placesWildcards asArgument
  | .named _ name, resolves, notKeyword => by
      simp only [TypeExpr.resolves, isKeyword, meaning, placesWildcards] at resolves notKeyword ⊢
      cases isKeyword : Primitive.ofName? name with
      | some kind =>
          cases asArgument with
          | false =>
              rfl
          | true =>
              simp [isKeyword] at notKeyword
      | none =>
          cases isVariable : typeVars.find? name with
          | some bound =>
              exact bounds name bound isVariable
          | none =>
              have known : (table.arities name).isSome = true := by
                simpa [isKeyword, NameTable.contains, isVariable] using resolves
              simp [Ty.named, Ty.isWellFormed, Ty.areWellFormed, takesArguments_zero known]
  | .generic _ name args, resolves, _ => by
      simp only [TypeExpr.resolves, Bool.and_eq_true, beq_iff_eq, Bool.not_eq_true'] at resolves
      obtain ⟨⟨arity, allResolve⟩, noPrimitive⟩ := resolves
      have takes : table.takesArguments name (meanings typeVars args).length = true := by
        rw [length_meanings]
        exact takesArguments_of_arities arity
      simp only [meaning, Ty.isWellFormed, placesWildcards, takes, Bool.true_and]
      exact areWellFormed_meanings bounds allResolve noPrimitive
  | .array _ component, resolves, _ => by
      simp only [meaning, Ty.isWellFormed, placesWildcards]
      exact isWellFormed_meaning bounds resolves nofun
  | .wildcard _, _, _ => rfl
  | .wildcardExtends _ bound, resolves, _ => by
      have sameBound : (bound.meaning typeVars).isWellFormed table false =
          bound.placesWildcards false := isWellFormed_meaning bounds resolves nofun
      simp only [meaning, Ty.isWellFormed, placesWildcards, sameBound, isPrimitive_meaning]

theorem areWellFormed_meanings
    (bounds : BoundsWellFormed table typeVars) :
    ∀ {args : List TypeExpr},
      allResolve table.arities typeVars args = true →
      (meanings typeVars args).any Ty.isPrimitive = false →
      Ty.areWellFormed table (meanings typeVars args) = allPlaceWildcards args
  | [], _, _ => rfl
  | arg :: rest, resolve, noPrimitive => by
      simp only [allResolve, Bool.and_eq_true] at resolve
      simp only [meanings, List.any_cons, Bool.or_eq_false_iff, isPrimitive_meaning] at noPrimitive
      have sameFirst : (arg.meaning typeVars).isWellFormed table true = arg.placesWildcards true :=
        isWellFormed_meaning bounds resolve.1 fun _ => noPrimitive.1
      have sameRest : Ty.areWellFormed table (meanings typeVars rest) = allPlaceWildcards rest :=
        areWellFormed_meanings bounds resolve.2 noPrimitive.2
      simp only [meanings, Ty.areWellFormed, allPlaceWildcards, sameFirst, sameRest]

end

end Meaning

end TypeExpr

namespace ClassTable

/-- Where the bounds of the type variables are well-formed, what a written type resolves to is
well-formed exactly if each of its wildcards stands for a type argument and none is bounded by
a primitive type. -/
theorem resolve_isWellFormed_iff
    {table : ClassTable}
    {typeVars : NameTable Ty}
    (bounds : TypeExpr.BoundsWellFormed table typeVars)
    {type : TypeExpr}
    {ty : Ty}
    (resolved : table.resolve typeVars type = .ok ty) :
    ty.isWellFormed table false = true ↔ type.placesWildcards false = true := by
  obtain ⟨resolves, rfl⟩ := resolve_eq_ok.mp resolved
  have same : (type.meaning typeVars).isWellFormed table false = type.placesWildcards false :=
    TypeExpr.isWellFormed_meaning bounds resolves nofun
  rw [same]

/-- The written type of lists of elements that extend a bound. -/
def listOfAny
    (bound : TypeExpr) :
    TypeExpr :=
  .generic .absent "List" [.wildcardExtends .absent bound]

/-- Lists of elements that extend the arrays of a type variable are well-formed. Lists of
elements that extend a primitive type are not, although they resolve. -/
theorem listOfAny_isWellFormed :
    (TypeExpr.BoundsWellFormed builtin [("T", .string)] ∧
      builtin.resolve [("T", .string)] (listOfAny (.array .absent (.named .absent "T"))) =
        .ok (.classType "List" [.wildcardExtends (.array (.typeVar "T" .string))]) ∧
      (Ty.classType "List" [.wildcardExtends (.array (.typeVar "T" .string))]).isWellFormed
        builtin false = true) ∧
    (TypeExpr.BoundsWellFormed builtin [] ∧
      builtin.resolve [] (listOfAny (.named .absent "int")) =
        .ok (.classType "List" [.wildcardExtends .int]) ∧
      ¬(Ty.classType "List" [.wildcardExtends .int]).isWellFormed builtin false = true) := by
  have bounds : TypeExpr.BoundsWellFormed builtin [("T", .string)] := by
    intro name bound isVariable
    obtain ⟨-, rfl⟩ := List.mem_singleton.mp (NameTable.mem_of_find? isVariable)
    decide
  have noBounds : TypeExpr.BoundsWellFormed builtin [] := nofun
  have resolved : builtin.resolve [("T", .string)]
      (listOfAny (.array .absent (.named .absent "T"))) =
        .ok (.classType "List" [.wildcardExtends (.array (.typeVar "T" .string))]) := by
    rfl
  have primitive : builtin.resolve [] (listOfAny (.named .absent "int")) =
      .ok (.classType "List" [.wildcardExtends .int]) := by
    rfl
  exact ⟨⟨bounds, resolved, (resolve_isWellFormed_iff bounds resolved).mpr (by decide)⟩,
    noBounds, primitive, (not_congr (resolve_isWellFormed_iff noBounds primitive)).mpr (by decide)⟩

end ClassTable

end LoopLowering
