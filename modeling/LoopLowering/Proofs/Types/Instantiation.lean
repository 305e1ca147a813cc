import LoopLowering.Proofs.Types.DeclarationOrder
import LoopLowering.Proofs.Types.SupertypeSearch

namespace LoopLowering

/-!
# Instantiations of supertypes

What a generic class inherits is declared once, for its own parameters. The
supertype search from any instantiation goes the same way as the one from the
class at its parameters, and finds what that one finds with the arguments in the
places of the parameters. Every step of the search substitutes for the
parameters of another class, which may have the same names; as declared
supertypes use the parameters of their own class only, substitutions compose
without capture.

## Substitutions compose
-/

namespace Ty

mutual

/-- Whether every type variable of a type has one of some names. Bounds of variables do not
count, as a variable is replaced with its bound. -/
def usesOnly
    (names : List String) :
    Ty → Bool
  | .typeVar name _ => names.contains name
  | .classType _ args => useOnly names args
  | .array component => component.usesOnly names
  | .wildcardExtends bound => bound.usesOnly names
  | .primitive _ | .wildcard | .null | .void | .unknown => true

/-- Whether every type variable of some types has one of some names. -/
def useOnly
    (names : List String) :
    List Ty → Bool
  | [] => true
  | ty :: rest => ty.usesOnly names && useOnly names rest

end

/-- The table that binds the same names to the replacements after a substitution. -/
def substituteBindings
    (later bindings : List (String × Ty)) :
    List (String × Ty) :=
  bindings.map (Prod.map id (substitute later))

/-- A name is bound to its replacement after a substitution. -/
theorem lookup_substituteBindings
    (later : List (String × Ty))
    (name : String)
    (bindings : List (String × Ty)) :
    (substituteBindings later bindings).lookup name =
      (bindings.lookup name).map (substitute later) := by
  induction bindings with
  | nil =>
      rfl
  | cons entry rest inductionHypothesis =>
      obtain ⟨bound, ty⟩ := entry
      rw [substituteBindings, List.map_cons, ← substituteBindings, Prod.map_apply, id,
        List.lookup_cons, List.lookup_cons, inductionHypothesis]
      cases name == bound <;> rfl

/-- Whether each of some names is bound. -/
def BindsAll
    (bindings : List (String × Ty))
    (names : List String) :
    Prop :=
  ∀ name ∈ names, (bindings.lookup name).isSome = true

mutual

/-- Two substitutions in turn are one, where the first replaces every variable. -/
theorem substitute_substitute
    {names : List String}
    {bindings : List (String × Ty)}
    (bindsAll : BindsAll bindings names)
    (later : List (String × Ty)) :
    ∀ {ty : Ty},
      ty.usesOnly names = true →
      (ty.substitute bindings).substitute later =
        ty.substitute (substituteBindings later bindings)
  | .typeVar name _, uses => by
      obtain ⟨replacement, found⟩ := Option.isSome_iff_exists.mp
        (bindsAll name (by simpa [usesOnly] using uses))
      simp [substitute, lookup_substituteBindings, found]
  | .classType name args, uses => by
      simp only [usesOnly] at uses
      simp only [substitute, substituteAll_substituteAll bindsAll later uses]
  | .array component, uses => by
      simp only [usesOnly] at uses
      simp only [substitute, substitute_substitute bindsAll later uses]
  | .wildcardExtends bound, uses => by
      simp only [usesOnly] at uses
      simp only [substitute, substitute_substitute bindsAll later uses]
  | .primitive _, _ | .wildcard, _ | .null, _ | .void, _ | .unknown, _ => by
      simp only [substitute]

theorem substituteAll_substituteAll
    {names : List String}
    {bindings : List (String × Ty)}
    (bindsAll : BindsAll bindings names)
    (later : List (String × Ty)) :
    ∀ {types : List Ty},
      useOnly names types = true →
      substituteAll later (substituteAll bindings types) =
        substituteAll (substituteBindings later bindings) types
  | [], _ => rfl
  | ty :: rest, uses => by
      simp only [useOnly, Bool.and_eq_true] at uses
      simp only [substituteAll, substitute_substitute bindsAll later uses.1,
        substituteAll_substituteAll bindsAll later uses.2]

end

/-!
## Replacing parameters by arguments
-/

mutual

/-- A type with arguments put in the places of parameters: a variable of the name of a
parameter stands for the argument in the same position, and everything else is
kept. -/
inductive Replaces
    (names : List String)
    (args : List Ty) :
    Ty →
    Ty →
    Prop where
  | parameter
      {position : Nat}
      {name : String}
      {bound arg : Ty}
      (isName : names[position]? = some name)
      (isArg : args[position]? = some arg) :
      Replaces names args (.typeVar name bound) arg
  | variable
      {name : String}
      {bound : Ty}
      (isOther : name ∉ names) :
      Replaces names args (.typeVar name bound) (.typeVar name bound)
  | classType
      {name : String}
      {types replaced : List Ty}
      (each : ReplacesAll names args types replaced) :
      Replaces names args (.classType name types) (.classType name replaced)
  | array
      {component replaced : Ty}
      (inside : Replaces names args component replaced) :
      Replaces names args (.array component) (.array replaced)
  | wildcardExtends
      {bound replaced : Ty}
      (inside : Replaces names args bound replaced) :
      Replaces names args (.wildcardExtends bound) (.wildcardExtends replaced)
  | primitive
      (kind : Primitive) :
      Replaces names args (.primitive kind) (.primitive kind)
  | wildcard :
      Replaces names args .wildcard .wildcard
  | null :
      Replaces names args .null .null
  | void :
      Replaces names args .void .void
  | unknown :
      Replaces names args .unknown .unknown

/-- Types with arguments put in the places of parameters. -/
inductive ReplacesAll
    (names : List String)
    (args : List Ty) :
    List Ty →
    List Ty →
    Prop where
  | nil :
      ReplacesAll names args [] []
  | cons
      {ty replaced : Ty}
      {rest others : List Ty}
      (first : Replaces names args ty replaced)
      (later : ReplacesAll names args rest others) :
      ReplacesAll names args (ty :: rest) (replaced :: others)

end

/-- What a table of names and arguments binds a name to stands in the same position. -/
theorem exists_position_of_lookup
    {name : String}
    {arg : Ty} :
    ∀ {names : List String} {args : List Ty},
      (names.zip args).lookup name = some arg →
      ∃ position : Nat, names[position]? = some name ∧ args[position]? = some arg
  | first :: names, ty :: args, found => by
      rw [List.zip_cons_cons, List.lookup_cons] at found
      by_cases same : name = first
      · subst same
        rw [beq_self_eq_true] at found
        exact ⟨0, rfl, found⟩
      · rw [beq_eq_false_iff_ne.mpr same] at found
        obtain ⟨position, isName, isArg⟩ := exists_position_of_lookup found
        exact ⟨position + 1, isName, isArg⟩

section Replacing

variable
  {names : List String}
  {args : List Ty}

mutual

/-- Substituting arguments for as many names puts them in the places of the names. -/
theorem replaces_substitute
    (sameLength : names.length = args.length) :
    ∀ ty : Ty,
      Replaces names args ty (ty.substitute (names.zip args))
  | .typeVar name bound => by
      rw [substitute]
      cases found : (names.zip args).lookup name with
      | some arg =>
          obtain ⟨_, isName, isArg⟩ := exists_position_of_lookup found
          exact .parameter isName isArg
      | none =>
          refine .variable fun isName => ?_
          rw [← List.map_fst_zip (Nat.le_of_eq sameLength)] at isName
          obtain ⟨entry, inZip, rfl⟩ := List.mem_map.mp isName
          simpa using List.lookup_eq_none_iff.mp found entry inZip
  | .classType _ types => by
      rw [substitute]
      exact .classType (replacesAll_substituteAll sameLength types)
  | .array component => by
      rw [substitute]
      exact .array (replaces_substitute sameLength component)
  | .wildcardExtends bound => by
      rw [substitute]
      exact .wildcardExtends (replaces_substitute sameLength bound)
  | .primitive kind => by
      rw [substitute]
      exact .primitive kind
  | .wildcard => by
      rw [substitute]
      exact .wildcard
  | .null => by
      rw [substitute]
      exact .null
  | .void => by
      rw [substitute]
      exact .void
  | .unknown => by
      rw [substitute]
      exact .unknown

theorem replacesAll_substituteAll
    (sameLength : names.length = args.length) :
    ∀ types : List Ty,
      ReplacesAll names args types (substituteAll (names.zip args) types)
  | [] => .nil
  | ty :: rest =>
      .cons (replaces_substitute sameLength ty) (replacesAll_substituteAll sameLength rest)

end

end Replacing

end Ty

namespace ClassType

/-- A class type with its arguments substituted. -/
def substitute
    (bindings : List (String × Ty))
    (classType : ClassType) :
    ClassType :=
  ⟨classType.name, Ty.substituteAll bindings classType.args⟩

end ClassType

namespace ClassInfo

/-- The names of the parameters of a class. -/
def paramNames
    (info : ClassInfo) :
    List String :=
  info.typeParams.map TypeVariable.name

/-- The parameters of a class as type arguments. -/
def paramTypes
    (info : ClassInfo) :
    List Ty :=
  info.typeParams.map fun param => .typeVar param.name param.bound

/-- The parameters of a class are bound to substituted arguments. -/
theorem bindings_substituteAll
    (info : ClassInfo)
    (later : List (String × Ty))
    (args : List Ty) :
    info.bindings (Ty.substituteAll later args) =
      Ty.substituteBindings later (info.bindings args) := by
  simp only [bindings, Ty.substituteBindings, Ty.substituteAll_eq_map, List.zip_map_right,
    List.map_reverse]

/-- Each parameter of a class is bound where there are enough arguments. -/
theorem bindsAll_bindings
    {info : ClassInfo}
    {args : List Ty}
    (enough : args.length = info.typeParams.length) :
    Ty.BindsAll (info.bindings args) info.paramNames := by
  intro name member
  have inFirst : name ∈ (info.paramNames.zip args).map Prod.fst := by
    rw [List.map_fst_zip (by simp [paramNames, enough])]
    exact member
  obtain ⟨entry, inZip, rfl⟩ := List.mem_map.mp inFirst
  exact List.lookup_isSome_iff.mpr ⟨entry, List.mem_reverse.mpr inZip, by simp⟩

/-- Putting arguments in the places of distinct parameters gives the arguments. -/
theorem substituteAll_params :
    ∀ {params : List TypeVariable} {args : List Ty},
      (params.map TypeVariable.name).Nodup →
      args.length = params.length →
      Ty.substituteAll ((params.map TypeVariable.name).zip args)
        (params.map fun param => .typeVar param.name param.bound) = args
  | [], [], _, _ => rfl
  | param :: params, arg :: args, distinct, enough => by
      obtain ⟨notAgain, restDistinct⟩ := List.nodup_cons.mp distinct
      have others := substituteAll_params restDistinct (Nat.succ.inj enough)
      simp only [List.map_cons, List.zip_cons_cons, Ty.substituteAll, Ty.substitute,
        List.lookup_cons_self, Option.getD_some, List.cons.injEq, true_and]
      refine Eq.trans ?_ others
      simp only [Ty.substituteAll_eq_map, List.map_map]
      refine List.map_congr_left fun other member => ?_
      -- The first parameter hides none of the others, as its name is another.
      have differs : other.name ≠ param.name := fun same =>
        notAgain (List.mem_map.mpr ⟨other, member, same⟩)
      simp [Ty.substitute, List.lookup_cons, beq_eq_false_iff_ne.mpr differs]

end ClassInfo

/-!
## Searches from instantiations
-/

namespace ClassTable

/-- A class type has no arguments or as many as its class has parameters, if that is
declared. -/
def FitsArity
    (table : ClassTable)
    (classType : ClassType) :
    Prop :=
  classType.args = [] ∨
    ∀ {info}, table.class? classType.name = some info →
      classType.args.length = info.typeParams.length

/-- A class type that a class may inherit from: it uses the parameters of that class only,
and has as many arguments as its own class has parameters. -/
structure InScope
    (table : ClassTable)
    (info : ClassInfo)
    (declared : ClassType) :
    Prop where
  useOnly : Ty.useOnly info.paramNames declared.args = true
  fits : table.FitsArity declared

/-- The classes of a table inherit from class types in their own scope. -/
def WellScoped
    (table : ClassTable) :
    Prop :=
  ∀ {name info}, table.class? name = some info →
    ∀ declared ∈ info.inheritedClasses, table.InScope info declared

/-- A class type as its class fits it, and what a substitution makes of it. -/
def Substitutes
    (table : ClassTable)
    (later : List (String × Ty))
    (declared seen : ClassType) :
    Prop :=
  table.FitsArity declared ∧ seen = declared.substitute later

/-- A substitution keeps the class. -/
theorem Substitutes.sameName
    {table : ClassTable}
    {later : List (String × Ty)}
    {declared seen : ClassType}
    (substitutes : table.Substitutes later declared seen) :
    declared.name = seen.name := by
  rw [substitutes.2]
  rfl

namespace WellScoped

variable
  {table : ClassTable}

/-- A class that is seen through a use of another has as many arguments as it was
declared with, or none. -/
theorem fits_seenClass
    (wellScoped : table.WellScoped)
    {name : String}
    {info : ClassInfo}
    (found : table.class? name = some info)
    (args : List Ty)
    {declared : ClassType}
    (member : declared ∈ info.inheritedClasses) :
    table.FitsArity (info.seenClass args declared) := by
  unfold ClassInfo.seenClass FitsArity
  split
  · exact .inl rfl
  · rcases (wellScoped found declared member).fits with noArgs | enough
    · exact .inl (by simp [noArgs, Ty.substituteAll])
    · exact .inr fun isOther => by simpa [Ty.substituteAll_eq_map] using enough isOther

/-- A class is seen through a substituted use as it is seen through the use itself,
substituted. -/
theorem seenClass_substitute
    (wellScoped : table.WellScoped)
    {classType : ClassType}
    {info : ClassInfo}
    (found : table.class? classType.name = some info)
    (fits : table.FitsArity classType)
    (later : List (String × Ty))
    {declared : ClassType}
    (member : declared ∈ info.inheritedClasses) :
    info.seenClass (classType.substitute later).args declared =
      (info.seenClass classType.args declared).substitute later := by
  have sameRaw :
      info.isRaw (Ty.substituteAll later classType.args) = info.isRaw classType.args := by
    simp [ClassInfo.isRaw, Ty.substituteAll_eq_map]
  simp only [ClassInfo.seenClass, ClassType.substitute, sameRaw]
  split
  · rfl
  · next notRaw =>
      have enough : classType.args.length = info.typeParams.length := by
        rcases fits with noArgs | enough
        · simp only [ClassInfo.isRaw, noArgs, List.isEmpty_nil, Bool.true_and, Bool.not_eq_true,
            Bool.not_eq_false', List.isEmpty_iff] at notRaw
          simp [noArgs, notRaw]
        · exact enough found
      rw [info.bindings_substituteAll, Ty.substituteAll_substituteAll
        (ClassInfo.bindsAll_bindings enough) later (wellScoped found declared member).useOnly]

/-- A substituted use of a class goes on to what the use itself goes on to, substituted. -/
theorem substitutes_parentClasses
    (wellScoped : table.WellScoped)
    (inherits : table.InheritsClasses)
    {later : List (String × Ty)}
    {declared seen : ClassType}
    (substitutes : table.Substitutes later declared seen) :
    List.Forall₂ (table.Substitutes later) (table.parentClasses declared)
      (table.parentClasses seen) := by
  obtain ⟨fits, rfl⟩ := substitutes
  exact inherits.forall₂_parentClasses rfl fun found inherited member =>
    ⟨wellScoped.fits_seenClass found declared.args member,
      wellScoped.seenClass_substitute found fits later member⟩

/-- The supertypes of a substituted use of a class are those of the use itself,
substituted. -/
theorem findSupertype_substitute
    (wellScoped : table.WellScoped)
    (inherits : table.InheritsClasses)
    {classType : ClassType}
    (fits : table.FitsArity classType)
    (later : List (String × Ty))
    (target : String) :
    table.findSupertype (classType.substitute later).toTy target =
      (table.findSupertype classType.toTy target).map (ClassType.substitute later) := by
  obtain ⟨met, walksSubstituted, areRelated⟩ := (table.walks_parentClasses [classType]).related
    Substitutes.sameName (wellScoped.substitutes_parentClasses inherits)
    (List.forall₂_cons.mpr ⟨⟨fits, rfl⟩, .nil⟩)
  obtain rfl := walksSubstituted.unique (table.walks_parentClasses [classType.substitute later])
  have foundAlike := rel_find?_name Substitutes.sameName areRelated target
  simp only [findSupertype, inherits.parents_eq, ClassType.inheritingClass?_toTy,
    Option.toList_some]
  generalize (table.reachable table.parentClasses [classType]).find? _ = result at foundAlike ⊢
  generalize (table.reachable table.parentClasses [classType.substitute later]).find? _ = seen
    at foundAlike ⊢
  cases foundAlike with
  | none =>
      rfl
  | some isRelated =>
      rw [isRelated.2]
      rfl

end WellScoped

end ClassTable

/-!
## Tables of units

What a class of a unit inherits is written where only the parameters of the class
are in scope, and each written type has as many arguments as the class it names
takes there. A class that takes more later is one that was not defined yet, and
was named without arguments.
-/

namespace TypeExpr

mutual

/-- A written type means one that uses only the variables in scope. -/
theorem usesOnly_meaning
    {typeVars : NameTable Ty}
    {names : List String}
    (inScope : ∀ {name bound}, typeVars.find? name = some bound → name ∈ names) :
    ∀ type : TypeExpr,
      (type.meaning typeVars).usesOnly names = true
  | .named _ name => by
      unfold meaning
      cases Primitive.ofName? name with
      | some kind =>
          rfl
      | none =>
          cases isVariable : typeVars.find? name with
          | some bound =>
              simpa [Ty.usesOnly] using inScope isVariable
          | none =>
              rfl
  | .generic _ _ args => by
      simpa only [meaning, Ty.usesOnly] using useOnly_meanings inScope args
  | .array _ component => by
      simpa only [meaning, Ty.usesOnly] using usesOnly_meaning inScope component
  | .wildcard _ => rfl
  | .wildcardExtends _ bound => by
      simpa only [meaning, Ty.usesOnly] using usesOnly_meaning inScope bound

theorem useOnly_meanings
    {typeVars : NameTable Ty}
    {names : List String}
    (inScope : ∀ {name bound}, typeVars.find? name = some bound → name ∈ names) :
    ∀ types : List TypeExpr,
      Ty.useOnly names (meanings typeVars types) = true
  | [] => rfl
  | type :: rest => by
      simp only [meanings, Ty.useOnly, usesOnly_meaning inScope type,
        useOnly_meanings inScope rest, Bool.and_self]

end

/-- A written type that resolves to a class has no arguments or as many as the class
takes. -/
theorem arity_of_meaning
    {arities : Arities}
    {typeVars : NameTable Ty}
    {type : TypeExpr}
    (resolves : type.resolves arities typeVars = true)
    {classType : ClassType}
    (isClass : (type.meaning typeVars).classType? = some classType) :
    classType.args = [] ∨ arities classType.name = some classType.args.length := by
  cases type with
  | named span name =>
      unfold meaning at isClass
      split at isClass
      · cases isClass
      · split at isClass
        · cases isClass
        · cases isClass
          exact .inl rfl
  | generic span name args =>
      simp only [TypeExpr.resolves, Bool.and_eq_true, beq_iff_eq] at resolves
      simp only [meaning, Ty.classType?, Option.some.injEq] at isClass
      subst isClass
      exact .inr (by rw [resolves.1.1, length_meanings])
  | _ =>
      cases isClass

/-- A meaning among those of written types that resolve is that of one of them. -/
theorem exists_of_mem_meanings
    {arities : Arities}
    {typeVars : NameTable Ty}
    {ty : Ty} :
    ∀ {types : List TypeExpr},
      allResolve arities typeVars types = true →
      ty ∈ meanings typeVars types →
      ∃ type : TypeExpr, type.resolves arities typeVars = true ∧ type.meaning typeVars = ty
  | type :: rest, resolve, member => by
      simp only [allResolve, Bool.and_eq_true] at resolve
      rcases List.mem_cons.mp member with rfl | inRest
      · exact ⟨type, resolve.1, rfl⟩
      · exact exists_of_mem_meanings resolve.2 inRest

end TypeExpr

namespace ClassDecl

/-- A variable in the scope of a class is one of its parameters. -/
theorem mem_paramNames_of_find?
    (decl : ClassDecl)
    {name : String}
    {bound : Ty}
    (found : decl.typeVars.find? name = some bound) :
    name ∈ decl.meaning.paramNames := by
  have member := NameTable.mem_of_find? found
  simp only [typeVars, NameTable.ofList, List.mem_reverse, List.mem_map, Prod.mk.injEq] at member
  obtain ⟨param, inParams, isName, -⟩ := member
  exact List.mem_map.mpr ⟨param, inParams, isName⟩

/-- What a class inherits from is the root class or written in its declaration. -/
theorem exists_written
    {arities : Arities}
    {decl : ClassDecl}
    (resolves : decl.resolves arities = true)
    {ty : Ty}
    (member : ty ∈ decl.meaning.supertypes) :
    ty = .object ∨
      ∃ type : TypeExpr, type.resolves arities decl.typeVars = true ∧
        type.meaning decl.typeVars = ty := by
  simp only [ClassDecl.resolves, Bool.and_eq_true] at resolves
  obtain ⟨⟨⟨-, superclassResolves⟩, interfacesResolve⟩, -⟩ := resolves
  rcases List.mem_append.mp member with inSuperclass | inInterfaces
  · simp only [meaning, Option.mem_toList] at inSuperclass
    cases written : decl.superclass with
    | some type =>
        rw [written] at inSuperclass superclassResolves
        exact .inr ⟨type, superclassResolves, Option.some.inj inSuperclass⟩
    | none =>
        rw [written] at inSuperclass
        cases isInterface : decl.isInterface with
        | true =>
            simp [isInterface] at inSuperclass
        | false =>
            simp only [isInterface, Bool.false_eq_true, if_false, Option.some.injEq] at inSuperclass
            exact .inl inSuperclass.symm
  · exact .inr (TypeExpr.exists_of_mem_meanings interfacesResolve inInterfaces)

end ClassDecl

namespace CompilationUnit

variable
  {unit : CompilationUnit}

/-- A class takes as many arguments as it has parameters in the end, or none while it has
not been defined. -/
theorem arity_of_aritiesAfter
    (once : unit.DeclaresOnce)
    {earlier later : List ClassDecl}
    (order : unit.classDecls = earlier ++ later)
    {name : String}
    {count : Nat}
    (takes : unit.aritiesAfter earlier name = some count) :
    count = 0 ∨
      ∀ {info}, unit.meaning.class? name = some info → count = info.typeParams.length := by
  have earlierDistinct : (earlier.map fun decl => decl.name.node).Nodup := by
    have distinct := once.distinct
    rw [order, List.map_append] at distinct
    exact (List.nodup_append.mp distinct).1
  simp only [class?_meaning once]
  unfold aritiesAfter at takes
  cases isEarlier : ClassDecl.named? earlier name with
  | some decl =>
      have ⟨inEarlier, isNamed⟩ := (ClassDecl.named?_eq_some earlierDistinct).mp isEarlier
      have declared : ClassDecl.named? unit.classDecls name = some decl :=
        (ClassDecl.named?_eq_some once.distinct).mpr ⟨by simp [order, inEarlier], isNamed⟩
      simp only [isEarlier, Option.some.injEq] at takes
      right
      intro info found
      simp only [declared, Option.map_some, Option.some_or, Option.some.injEq] at found
      rw [← found, ← takes, ClassDecl.meaning, TypeParam.length_meanings]
  | none =>
      simp only [isEarlier] at takes
      cases declared : ClassDecl.named? unit.classDecls name with
      | some decl =>
          simp only [declared, Option.isSome_some, if_true, Option.some.injEq] at takes
          exact .inl takes.symm
      | none =>
          simp only [declared, Option.isSome_none, Bool.false_eq_true, if_false,
            ClassTable.arities, Option.map_eq_some_iff] at takes
          obtain ⟨info, builtinFound, rfl⟩ := takes
          right
          intro other found
          simp only [Option.map_none, Option.none_or, builtinFound, Option.some.injEq] at found
          rw [found]

/-- A builtin class is the same in the table of every unit. -/
theorem class?_meaning_of_builtin
    (once : unit.DeclaresOnce)
    {name : String}
    {info : ClassInfo}
    (isBuiltin : ClassTable.builtin.class? name = some info) :
    unit.meaning.class? name = some info := by
  rw [class?_meaning once, isBuiltin]
  cases isDeclared : ClassDecl.named? unit.classDecls name with
  | none =>
      rfl
  | some decl =>
      obtain ⟨inUnit, rfl⟩ := (ClassDecl.named?_eq_some once.distinct).mp isDeclared
      rw [once.isNew decl inUnit] at isBuiltin
      cases isBuiltin

/-- A class of a unit inherits from what is written in its scope. -/
theorem inScope_of_mem_classDecls
    (once : unit.DeclaresOnce)
    (inOrder : unit.ResolvesInOrder unit.classDecls)
    {decl : ClassDecl}
    (inUnit : decl ∈ unit.classDecls)
    {declared : ClassType}
    (member : declared ∈ decl.meaning.inheritedClasses) :
    unit.meaning.InScope decl.meaning declared := by
  obtain ⟨earlier, later, order⟩ := List.append_of_mem inUnit
  obtain ⟨ty, isSupertype, isClass⟩ := List.mem_filterMap.mp member
  rcases ClassDecl.exists_written (inOrder earlier decl later order) isSupertype with
    rfl | ⟨type, resolves, rfl⟩
  · cases isClass
    exact ⟨rfl, .inl rfl⟩
  · have uses := TypeExpr.usesOnly_meaning decl.mem_paramNames_of_find? type
    rw [Ty.eq_toTy_of_classType? isClass, ClassType.toTy, Ty.usesOnly] at uses
    refine ⟨uses, ?_⟩
    rcases TypeExpr.arity_of_meaning resolves isClass with noArgs | takes
    · exact .inl noArgs
    · rcases arity_of_aritiesAfter once order takes with noArgs | enough
      · exact .inl (List.eq_nil_of_length_eq_zero noArgs)
      · exact .inr enough

/-- The builtin classes use their own parameters only, and inherit from builtin classes with
as many arguments as these have parameters. -/
theorem builtin_wellScoped :
    ∀ entry ∈ ClassTable.builtin.classes, ∀ declared ∈ entry.2.inheritedClasses,
      Ty.useOnly entry.2.paramNames declared.args = true ∧
        (declared.args = [] ∨
          ClassTable.builtin.arities declared.name = some declared.args.length) := by
  decide +kernel

/-- A builtin class inherits from what is in its scope in every unit. -/
theorem inScope_of_builtin
    (once : unit.DeclaresOnce)
    {name : String}
    {info : ClassInfo}
    (isBuiltin : ClassTable.builtin.class? name = some info)
    {declared : ClassType}
    (member : declared ∈ info.inheritedClasses) :
    unit.meaning.InScope info declared := by
  obtain ⟨uses, noArgs | takes⟩ :=
    builtin_wellScoped _ (NameTable.mem_of_find? isBuiltin) declared member
  · exact ⟨uses, .inl noArgs⟩
  · obtain ⟨other, otherBuiltin, enough⟩ := Option.map_eq_some_iff.mp takes
    refine ⟨uses, .inr fun isOther => ?_⟩
    rw [class?_meaning_of_builtin once otherBuiltin, Option.some.injEq] at isOther
    rw [← isOther, enough]

/-- The classes of a unit inherit from class types in their own scope. -/
theorem wellScoped_meaning
    (once : unit.DeclaresOnce)
    (inOrder : unit.ResolvesInOrder unit.classDecls) :
    unit.meaning.WellScoped := by
  intro name info found declared member
  rw [class?_meaning once] at found
  cases isDeclared : ClassDecl.named? unit.classDecls name with
  | some decl =>
      simp only [isDeclared, Option.map_some, Option.some_or, Option.some.injEq] at found
      subst found
      obtain ⟨inUnit, -⟩ := (ClassDecl.named?_eq_some once.distinct).mp isDeclared
      exact inScope_of_mem_classDecls once inOrder inUnit member
  | none =>
      simp only [isDeclared, Option.map_none, Option.none_or] at found
      exact inScope_of_builtin once found member

end CompilationUnit

namespace ClassTable

/-- In the table of a unit whose classes inherit from class types only, let a class have
distinct parameters. Its instantiations have a supertype of a name exactly if the
class has one at its own parameters, and it is that one with the arguments in the
places of the parameters; the arguments may be any types. -/
theorem findSupertype_instantiated
    {unit : CompilationUnit}
    {table : ClassTable}
    (built : ofUnit unit = .ok table)
    (inherits : table.InheritsClasses)
    {name : String}
    {info : ClassInfo}
    (found : table.class? name = some info)
    (distinct : info.paramNames.Nodup)
    {args : List Ty}
    (enough : args.length = info.typeParams.length)
    (target : String) :
    ((table.findSupertype (.classType name args) target).isSome = true ↔
      (table.findSupertype (.classType name info.paramTypes) target).isSome = true) ∧
    ∀ general, table.findSupertype (.classType name info.paramTypes) target = some general →
      ∃ seen, table.findSupertype (.classType name args) target = some seen ∧
        seen.name = general.name ∧
        Ty.ReplacesAll info.paramNames args general.args seen.args := by
  obtain ⟨⟨once, inOrder, -⟩, rfl⟩ := ofUnit_eq_ok.mp built
  have wellScoped : unit.meaning.WellScoped := CompilationUnit.wellScoped_meaning once inOrder
  have fits : unit.meaning.FitsArity ⟨name, info.paramTypes⟩ := by
    refine .inr fun isFound => ?_
    rw [Option.some.inj (found.symm.trans isFound)]
    exact List.length_map _
  have instantiated : (ClassType.mk name info.paramTypes).substitute (info.paramNames.zip args) =
      ⟨name, args⟩ := by
    rw [ClassType.substitute, ClassInfo.paramNames, ClassInfo.paramTypes,
      ClassInfo.substituteAll_params distinct enough]
  have searched :=
    wellScoped.findSupertype_substitute inherits fits (info.paramNames.zip args) target
  rw [instantiated] at searched
  simp only [ClassType.toTy] at searched
  rw [searched]
  refine ⟨by simp, fun general isGeneral =>
    ⟨general.substitute (info.paramNames.zip args), by rw [isGeneral]; rfl, rfl, ?_⟩⟩
  have sameLength : info.paramNames.length = args.length := by simp [ClassInfo.paramNames, enough]
  exact Ty.replacesAll_substituteAll sameLength general.args

end ClassTable

/-- Two generic interfaces whose parameters have the names of those of builtin interfaces;
the second passes its own on in the other order. -/
def CompilationUnit.swappedParameters :
    CompilationUnit where
  name := "Main"
  source := none
  classes := [
    .unplaced {
      name := .unplaced "Pair"
      typeParams := [⟨"E", none⟩, ⟨"T", none⟩]
      isInterface := true
      superclass := none
      interfaces := [.generic .absent "Collection" [.named .absent "T"]]
      methods := []
    },
    .unplaced {
      name := .unplaced "Swap"
      typeParams := [⟨"E", none⟩, ⟨"T", none⟩]
      isInterface := true
      superclass := none
      interfaces := [.generic .absent "Pair" [.named .absent "T", .named .absent "E"]]
      methods := []
    }]
  functions := []
  methods := []

/-- A swapped pair is iterable at its first argument, also where that is itself a type
variable with the name of the second parameter. -/
theorem swappedParameters_findSupertype :
    ∃ table info,
      ClassTable.ofUnit CompilationUnit.swappedParameters = .ok table ∧
      table.InheritsClasses ∧
      table.class? "Swap" = some info ∧
      info.paramNames.Nodup ∧
      table.findSupertype (.classType "Swap" info.paramTypes) "Iterable" =
        some ⟨"Iterable", [.typeVar "E" .object]⟩ ∧
      ∃ seen,
        table.findSupertype (.classType "Swap" [.typeVar "T" .object, .wildcard]) "Iterable" =
          some seen ∧
        Ty.ReplacesAll ["E", "T"] [.typeVar "T" .object, .wildcard] [.typeVar "E" .object]
          seen.args := by
  let unit := CompilationUnit.swappedParameters
  have built : ClassTable.ofUnit unit = .ok unit.meaning := by rfl
  have inherits : unit.meaning.InheritsClasses :=
    ClassTable.inheritsClasses_of_entries (by decide +kernel)
  obtain ⟨info, found⟩ : ∃ info, unit.meaning.class? "Swap" = some info := ⟨_, rfl⟩
  have paramNames : info.paramNames = ["E", "T"] := by
    cases found
    rfl
  have distinct : info.paramNames.Nodup := by
    rw [paramNames]
    decide
  have enough : ([.typeVar "T" .object, .wildcard] : List Ty).length = info.typeParams.length := by
    cases found
    rfl
  have general : unit.meaning.findSupertype (.classType "Swap" info.paramTypes) "Iterable" =
      some ⟨"Iterable", [.typeVar "E" .object]⟩ := by
    cases found
    decide +kernel
  obtain ⟨seen, isSeen, -, replaces⟩ :=
    (ClassTable.findSupertype_instantiated built inherits found distinct enough "Iterable").2
      _ general
  rw [paramNames] at replaces
  exact ⟨unit.meaning, info, built, inherits, found, distinct, general, seen, isSeen, replaces⟩

end LoopLowering
