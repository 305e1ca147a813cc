import LoopLowering.Proofs.Types.WrittenTypes
import LoopLowering.Types.Builtins

namespace LoopLowering

/-!
# What declarations mean

A declaration is accepted if the written types in it resolve, and what it then
declares does not depend on the class table it is resolved against.
-/

namespace TypeParam

/-- The type variable a type parameter declares, given those before it. -/
def meaning
    (typeVars : NameTable Ty)
    (param : TypeParam) :
    TypeVariable :=
  ⟨param.name, (param.bound.map (TypeExpr.meaning typeVars)).getD .object⟩

/-- The type variables that type parameters declare. -/
def meanings
    (typeVars : NameTable Ty) :
    List TypeParam → List TypeVariable
  | [] => []
  | param :: rest =>
      param.meaning typeVars ::
        meanings (typeVars.insert param.name (param.meaning typeVars).bound) rest

/-- Whether the bounds of type parameters resolve. -/
def allResolve
    (arities : Arities)
    (typeVars : NameTable Ty) :
    List TypeParam → Bool
  | [] => true
  | param :: rest =>
      param.bound.all (TypeExpr.resolves arities typeVars) &&
        allResolve arities (typeVars.insert param.name (param.meaning typeVars).bound) rest

/-- Each type parameter declares a type variable. -/
theorem length_meanings :
    ∀ (params : List TypeParam) (typeVars : NameTable Ty),
      (meanings typeVars params).length = params.length
  | [], _ => rfl
  | _ :: rest, _ => congrArg Nat.succ (length_meanings rest _)

end TypeParam

namespace MethodSignature

/-- The signature a method declares. -/
def meaning
    (typeVars : NameTable Ty)
    (method : MethodSignature) :
    Signature :=
  ⟨TypeExpr.meanings typeVars method.params,
    (method.returnType.map (TypeExpr.meaning typeVars)).getD .void⟩

/-- Whether the written types of a method resolve. -/
def resolves
    (arities : Arities)
    (typeVars : NameTable Ty)
    (method : MethodSignature) :
    Bool :=
  TypeExpr.allResolve arities typeVars method.params &&
    method.returnType.all (TypeExpr.resolves arities typeVars)

end MethodSignature

namespace FunctionDecl

/-- The parameters and the result of a function, which has no type variables. -/
def asMethod
    (decl : FunctionDecl) :
    MethodSignature :=
  ⟨decl.name.node, decl.params, decl.returnType⟩

end FunctionDecl

namespace ClassDecl

/-- The type variables in the scope of a class. -/
def typeVars
    (decl : ClassDecl) :
    NameTable Ty :=
  .ofList ((TypeParam.meanings [] decl.typeParams).map fun param => (param.name, param.bound))

/-- The class a declaration declares. -/
def meaning
    (decl : ClassDecl) :
    ClassInfo where
  name := decl.name.node
  internalName := decl.name.node
  typeParams := TypeParam.meanings [] decl.typeParams
  isInterface := decl.isInterface
  superclass :=
    match decl.superclass with
    | some type => some (type.meaning decl.typeVars)
    | none => if decl.isInterface then none else some .object
  interfaces := TypeExpr.meanings decl.typeVars decl.interfaces
  methods := .ofList (decl.methods.map fun method => (method.name, method.meaning decl.typeVars))

/-- Whether the written types of a class resolve. -/
def resolves
    (arities : Arities)
    (decl : ClassDecl) :
    Bool :=
  TypeParam.allResolve arities [] decl.typeParams &&
    decl.superclass.all (TypeExpr.resolves arities decl.typeVars) &&
    TypeExpr.allResolve arities decl.typeVars decl.interfaces &&
    decl.methods.all (MethodSignature.resolves arities decl.typeVars)

end ClassDecl

namespace ClassTable

variable
  {table after : ClassTable}
  {typeVars : NameTable Ty}

/-- A type in a declaration resolves to what it means. -/
theorem resolveDeclared_eq_ok
    {type : TypeExpr}
    {ty : Ty} :
    table.resolveDeclared typeVars type = .ok ty ↔
      type.resolves table.arities typeVars = true ∧ type.meaning typeVars = ty := by
  rw [← resolve_eq_ok, resolveDeclared]
  split
  · next resolved =>
      simp [resolved]
  · next failed =>
      simp [failed]

/-- Types in a declaration resolve to what they mean. -/
theorem resolveDeclaredAll_eq_ok :
    ∀ {types : List TypeExpr} {tys : List Ty},
      table.resolveDeclaredAll typeVars types = .ok tys ↔
        TypeExpr.allResolve table.arities typeVars types = true ∧
          TypeExpr.meanings typeVars types = tys
  | type :: rest, tys => by
      simp only [resolveDeclaredAll, bind_eq_ok, pure_eq_ok, resolveDeclared_eq_ok,
        @resolveDeclaredAll_eq_ok rest, TypeExpr.allResolve, TypeExpr.meanings,
        Bool.and_eq_true]
      constructor
      · rintro ⟨-, ⟨resolves, rfl⟩, -, ⟨others, rfl⟩, rfl⟩
        exact ⟨⟨resolves, others⟩, rfl⟩
      · rintro ⟨⟨resolves, others⟩, rfl⟩
        exact ⟨_, ⟨resolves, rfl⟩, _, ⟨others, rfl⟩, rfl⟩
  | [], tys => by
      simp [resolveDeclaredAll, TypeExpr.allResolve, TypeExpr.meanings]

/-- A signature resolves to what it means. -/
theorem resolveSignature_eq_ok
    {method : MethodSignature}
    {signature : Signature} :
    table.resolveSignature typeVars method.params method.returnType = .ok signature ↔
      method.resolves table.arities typeVars = true ∧ method.meaning typeVars = signature := by
  have returned : ∀ {written : Option TypeExpr} {ty : Ty},
      table.resolveReturn typeVars written = .ok ty ↔
        written.all (TypeExpr.resolves table.arities typeVars) = true ∧
          (written.map (TypeExpr.meaning typeVars)).getD .void = ty := by
    intro written ty
    cases written with
    | none =>
        simp [resolveReturn]
    | some type =>
        simpa [resolveReturn] using resolveDeclared_eq_ok
  simp only [resolveSignature, bind_eq_ok, pure_eq_ok, resolveDeclaredAll_eq_ok, returned,
    MethodSignature.resolves, MethodSignature.meaning, Bool.and_eq_true]
  constructor
  · rintro ⟨-, ⟨params, rfl⟩, -, ⟨result, rfl⟩, rfl⟩
    exact ⟨⟨params, result⟩, rfl⟩
  · rintro ⟨⟨params, result⟩, rfl⟩
    exact ⟨_, ⟨params, rfl⟩, _, ⟨result, rfl⟩, rfl⟩

/-- Type parameters resolve to what they mean. -/
theorem resolveTypeParams_eq_ok :
    ∀ {params : List TypeParam} {typeVars : NameTable Ty} {declared : List TypeVariable},
      table.resolveTypeParams typeVars params = .ok declared ↔
        TypeParam.allResolve table.arities typeVars params = true ∧
          TypeParam.meanings typeVars params = declared
  | [], typeVars, declared => by
      simp [resolveTypeParams, TypeParam.allResolve, TypeParam.meanings]
  | param :: rest, typeVars, declared => by
      have rest_eq_ok : ∀ {bound : Ty},
          (do
            let following ← table.resolveTypeParams (typeVars.insert param.name bound) rest
            return ⟨param.name, bound⟩ :: following : Except DeclarationError _) = .ok declared ↔
            TypeParam.allResolve table.arities (typeVars.insert param.name bound) rest = true ∧
              ⟨param.name, bound⟩ :: TypeParam.meanings (typeVars.insert param.name bound) rest =
                declared := by
        intro bound
        simp only [bind_eq_ok, pure_eq_ok, @resolveTypeParams_eq_ok rest]
        constructor
        · rintro ⟨-, ⟨others, rfl⟩, rfl⟩
          exact ⟨others, rfl⟩
        · rintro ⟨others, rfl⟩
          exact ⟨_, ⟨others, rfl⟩, rfl⟩
      simp only [resolveTypeParams, TypeParam.allResolve, TypeParam.meanings, TypeParam.meaning]
      cases isBound : param.bound with
      | none =>
          exact rest_eq_ok.trans (by simp)
      | some bound =>
          simp only [Option.all_some, Option.map_some, Option.getD_some, Bool.and_eq_true]
          rw [bind_eq_ok]
          constructor
          · rintro ⟨_, bounded, following⟩
            obtain ⟨resolves, rfl⟩ := resolveDeclared_eq_ok.mp bounded
            obtain ⟨others, isFollowing⟩ := rest_eq_ok.mp following
            exact ⟨⟨resolves, others⟩, isFollowing⟩
          · rintro ⟨⟨resolves, others⟩, rfl⟩
            exact ⟨_, resolveDeclared_eq_ok.mpr ⟨resolves, rfl⟩, rest_eq_ok.mpr ⟨others, rfl⟩⟩

/-- Methods resolve to what they mean. -/
theorem resolveMethods_eq_ok :
    ∀ {methods : List MethodSignature} {signatures : List (String × Signature)},
      table.resolveMethods typeVars methods = .ok signatures ↔
        methods.all (MethodSignature.resolves table.arities typeVars) = true ∧
          methods.map (fun method => (method.name, method.meaning typeVars)) = signatures
  | [], signatures => by
      simp [resolveMethods]
  | method :: rest, signatures => by
      simp only [resolveMethods, bind_eq_ok, pure_eq_ok, resolveSignature_eq_ok,
        @resolveMethods_eq_ok rest, List.all_cons, List.map_cons, Bool.and_eq_true]
      constructor
      · rintro ⟨-, ⟨resolves, rfl⟩, -, ⟨others, rfl⟩, rfl⟩
        exact ⟨⟨resolves, others⟩, rfl⟩
      · rintro ⟨⟨resolves, others⟩, rfl⟩
        exact ⟨_, ⟨resolves, rfl⟩, _, ⟨others, rfl⟩, rfl⟩

/-- A class is announced if its name is new. -/
theorem announce_eq_ok
    {decl : ClassDecl} :
    announce decl table = .ok after ↔
      (table.arities decl.name.node).isSome = false ∧
        table.addClass (.announced decl.name.node decl.isInterface) = after := by
  have isKnown : (table.arities decl.name.node).isSome =
      table.classes.contains decl.name.node := by
    simp [arities, class?, NameTable.contains]
  rw [isKnown, announce]
  cases table.classes.contains decl.name.node <;> simp

/-- A class is defined if its written types resolve, and as what they mean. -/
theorem define_eq_ok
    {decl : ClassDecl} :
    define decl table = .ok after ↔
      decl.resolves table.arities = true ∧ table.addClass decl.meaning = after := by
  have inherited : ∀ {superclass : Option Ty},
      table.resolveSuperclass decl.typeVars decl = .ok superclass ↔
        decl.superclass.all (TypeExpr.resolves table.arities decl.typeVars) = true ∧
          decl.meaning.superclass = superclass := by
    intro superclass
    unfold resolveSuperclass ClassDecl.meaning
    cases decl.superclass with
    | none =>
        simp
    | some type =>
        cases resolved : table.resolveDeclared decl.typeVars type with
        | error cause =>
            have fails : type.resolves table.arities decl.typeVars = false := by
              refine Bool.eq_false_iff.mpr fun succeeds => ?_
              have isOk := resolveDeclared_eq_ok.mpr ⟨succeeds, rfl⟩
              rw [resolved] at isOk
              cases isOk
            simp [Except.map, resolved, fails]
        | ok ty =>
            obtain ⟨resolves, rfl⟩ := resolveDeclared_eq_ok.mp resolved
            simp [Except.map, resolved, resolves]
  simp only [define, bind_eq_ok, pure_eq_ok, resolveTypeParams_eq_ok]
  constructor
  · rintro ⟨-, ⟨params, rfl⟩, superclass, isSuperclass, interfaces, areInterfaces, methods,
      areMethods, rfl⟩
    obtain ⟨inherits, rfl⟩ := inherited.mp isSuperclass
    obtain ⟨implements, rfl⟩ := resolveDeclaredAll_eq_ok.mp areInterfaces
    obtain ⟨declares, rfl⟩ := resolveMethods_eq_ok.mp areMethods
    refine ⟨?_, rfl⟩
    simp only [ClassDecl.resolves, Bool.and_eq_true]
    exact ⟨⟨⟨params, inherits⟩, implements⟩, declares⟩
  · rintro ⟨resolves, rfl⟩
    simp only [ClassDecl.resolves, Bool.and_eq_true] at resolves
    obtain ⟨⟨⟨params, inherits⟩, implements⟩, declares⟩ := resolves
    exact ⟨_, ⟨params, rfl⟩, _, inherited.mpr ⟨inherits, rfl⟩, _,
      resolveDeclaredAll_eq_ok.mpr ⟨implements, rfl⟩, _,
      resolveMethods_eq_ok.mpr ⟨declares, rfl⟩, rfl⟩

/-- A function is declared if its written types resolve, and as what they
mean. -/
theorem declareFunction_eq_ok
    {decl : FunctionDecl} :
    declareFunction decl table = .ok after ↔
      decl.asMethod.resolves table.arities [] = true ∧
        table.addFunction decl.name.node (decl.asMethod.meaning []) = after := by
  have resolved : ∀ {signature : Signature},
      table.resolveSignature [] decl.params decl.returnType = .ok signature ↔
        decl.asMethod.resolves table.arities [] = true ∧ decl.asMethod.meaning [] = signature := by
    intro signature
    exact @resolveSignature_eq_ok table [] decl.asMethod signature
  simp only [declareFunction, bind_eq_ok, pure_eq_ok, resolved]
  constructor
  · rintro ⟨-, ⟨resolves, rfl⟩, rfl⟩
    exact ⟨resolves, rfl⟩
  · rintro ⟨resolves, rfl⟩
    exact ⟨_, ⟨resolves, rfl⟩, rfl⟩

/-- Declarations are made in turn if each is accepted after those before it. -/
theorem declareAll_eq_ok
    {declare : α → ClassTable → Except DeclarationError ClassTable}
    {accepts : α → ClassTable → Prop}
    {add : α → ClassTable → ClassTable}
    (declare_eq_ok : ∀ {decl table after},
      declare decl table = .ok after ↔ accepts decl table ∧ add decl table = after) :
    ∀ {decls : List α} {table after : ClassTable},
      declareAll declare decls table = .ok after ↔
        (∀ earlier decl later, decls = earlier ++ decl :: later →
          accepts decl (earlier.foldl (fun table decl => add decl table) table)) ∧
        decls.foldl (fun table decl => add decl table) table = after
  | [], table, after => by
      simp [declareAll]
  | first :: rest, table, after => by
      simp only [declareAll, bind_eq_ok, declare_eq_ok, declareAll_eq_ok declare_eq_ok,
        List.foldl_cons]
      constructor
      · rintro ⟨-, ⟨accepted, rfl⟩, others, rfl⟩
        refine ⟨fun earlier decl later split => ?_, rfl⟩
        rcases List.cons_eq_append_iff.mp split with ⟨rfl, isHead⟩ | ⟨before, rfl, isRest⟩
        · cases isHead
          exact accepted
        · exact others before decl later isRest
      · rintro ⟨accepted, rfl⟩
        exact ⟨_, ⟨accepted [] first rest rfl, rfl⟩,
          fun earlier decl later split => accepted (first :: earlier) decl later (by simp [split]),
          rfl⟩

end ClassTable

/-!
## The order of class declarations

The classes of a unit may refer to each other in any order as long as none is
given type arguments before it is defined: until then a class of the unit takes
none. Apart from that, units that declare the same classes in different orders
have tables with the same entries.
-/

/-- Two class tables declare the same classes and functions. -/
structure ClassTable.SameEntries
    (first second : ClassTable) :
    Prop where
  classes : ∀ name, first.class? name = second.class? name
  functions : ∀ name, first.function? name = second.function? name
  owner : first.owner = second.owner

namespace ClassDecl

/-- The declaration of a class among others. -/
def named?
    (decls : List ClassDecl)
    (name : String) :
    Option ClassDecl :=
  decls.find? fun decl => decl.name.node == name

/-- A class that is declared once is found by its name. -/
theorem named?_eq_some
    {decls : List ClassDecl}
    (distinct : (decls.map fun decl => decl.name.node).Nodup)
    {name : String}
    {decl : ClassDecl} :
    named? decls name = some decl ↔ decl ∈ decls ∧ decl.name.node = name := by
  constructor
  · intro found
    exact ⟨List.mem_of_find?_eq_some found, by simpa using List.find?_some found⟩
  · rintro ⟨member, rfl⟩
    induction decls with
    | nil =>
        cases member
    | cons first rest inductionHypothesis =>
        obtain ⟨isNew, restDistinct⟩ := List.nodup_cons.mp distinct
        rcases List.mem_cons.mp member with rfl | inRest
        · simp [named?]
        · have differs : first.name.node ≠ decl.name.node := fun same =>
            isNew (List.mem_map.mpr ⟨decl, inRest, same.symm⟩)
          simpa [named?, List.find?_cons, differs] using inductionHypothesis restDistinct inRest

/-- A class is found among others if it has been declared. -/
theorem isSome_named?
    (decls : List ClassDecl)
    (name : String) :
    (named? decls name).isSome = true ↔ ∃ decl ∈ decls, decl.name.node = name := by
  simp [named?, List.find?_isSome]

/-- Which classes there are does not depend on their order. -/
theorem named?_perm
    {decls others : List ClassDecl}
    (reordered : decls.Perm others)
    (distinct : (others.map fun decl => decl.name.node).Nodup)
    (name : String) :
    named? decls name = named? others name := by
  have sameDistinct := (reordered.map fun decl => decl.name.node).nodup_iff.mpr distinct
  refine Option.ext fun decl => ?_
  rw [named?_eq_some sameDistinct, named?_eq_some distinct, reordered.mem_iff]

end ClassDecl

namespace ClassTable

/-- Declare classes in turn. -/
def addClasses
    (info : ClassDecl → ClassInfo)
    (decls : List ClassDecl)
    (table : ClassTable) :
    ClassTable :=
  decls.foldl (fun table decl => table.addClass (info decl)) table

/-- Declare functions in turn. -/
def addFunctions
    (decls : List FunctionDecl)
    (table : ClassTable) :
    ClassTable :=
  decls.foldl (fun table decl => table.addFunction decl.name.node (decl.asMethod.meaning [])) table

/-- The class that an announcement makes known. -/
def announcement
    (decl : ClassDecl) :
    ClassInfo :=
  .announced decl.name.node decl.isInterface

/-- A declared class is found by its name. -/
theorem class?_addClass
    (info : ClassInfo)
    (table : ClassTable)
    (name : String) :
    (table.addClass info).class? name = if name = info.name then some info else table.class? name :=
  NameTable.find?_insert name info.name info table.classes

/-- Classes that are declared once are found by their names. -/
theorem class?_addClasses
    {info : ClassDecl → ClassInfo}
    (isNamed : ∀ decl, (info decl).name = decl.name.node)
    (name : String) :
    ∀ {decls : List ClassDecl} (table : ClassTable),
      (decls.map fun decl => decl.name.node).Nodup →
      (table.addClasses info decls).class? name =
        ((ClassDecl.named? decls name).map info).or (table.class? name)
  | [], table, _ => rfl
  | first :: rest, table, distinct => by
      obtain ⟨isNew, restDistinct⟩ := List.nodup_cons.mp distinct
      rw [addClasses, List.foldl_cons, ← addClasses,
        class?_addClasses isNamed name (table.addClass (info first)) restDistinct, class?_addClass,
        isNamed]
      by_cases same : name = first.name.node
      · subst same
        have missing : ClassDecl.named? rest first.name.node = none := by
          rw [← Option.not_isSome_iff_eq_none, ClassDecl.isSome_named?]
          exact fun found => isNew (List.mem_map.mpr found)
        have isFirst : ClassDecl.named? (first :: rest) first.name.node = some first := by
          simp [ClassDecl.named?]
        simp [missing, isFirst]
      · have differs : (first.name.node == name) = false := by
          simpa using Ne.symm same
        simp [ClassDecl.named?, differs, same]

/-- Declaring classes declares no functions. -/
theorem functions_addClasses
    (info : ClassDecl → ClassInfo) :
    ∀ (decls : List ClassDecl) (table : ClassTable),
      (table.addClasses info decls).functions = table.functions ∧
        (table.addClasses info decls).owner = table.owner
  | [], _ => ⟨rfl, rfl⟩
  | first :: rest, table => functions_addClasses info rest (table.addClass (info first))

/-- Declaring functions declares no classes. -/
theorem classes_addFunctions :
    ∀ (decls : List FunctionDecl) (table : ClassTable),
      (table.addFunctions decls).classes = table.classes ∧
        (table.addFunctions decls).owner = table.owner
  | [], _ => ⟨rfl, rfl⟩
  | _ :: rest, _ => classes_addFunctions rest _

/-- The functions that are declared do not depend on the classes. -/
theorem functions_addFunctions :
    ∀ (decls : List FunctionDecl) {table other : ClassTable},
      table.functions = other.functions →
      table.owner = other.owner →
      (table.addFunctions decls).functions = (other.addFunctions decls).functions
  | [], _, _, functions, _ => functions
  | _ :: rest, _, _, functions, owner =>
      functions_addFunctions rest (by simp only [addFunction, functions, owner]) owner

/-- Classes are announced if no name is declared twice. -/
theorem announceAll_eq_ok :
    ∀ {decls : List ClassDecl} {table after : ClassTable},
      declareAll announce decls table = .ok after ↔
        ((decls.map fun decl => decl.name.node).Nodup ∧
          ∀ decl ∈ decls, table.class? decl.name.node = none) ∧
        table.addClasses announcement decls = after
  | [], table, after => by
      simp [declareAll, addClasses]
  | first :: rest, table, after => by
      have isNew : (table.arities first.name.node).isSome = false ↔
          table.class? first.name.node = none := by
        simp [arities]
      simp only [declareAll, bind_eq_ok, announce_eq_ok, @announceAll_eq_ok rest, isNew,
        List.map_cons, List.nodup_cons, List.forall_mem_cons]
      have others : (∀ decl ∈ rest, (table.addClass (announcement first)).class?
          decl.name.node = none) ↔
            first.name.node ∉ rest.map (fun decl => decl.name.node) ∧
              ∀ decl ∈ rest, table.class? decl.name.node = none := by
        simp only [class?_addClass, announcement, ClassInfo.announced, List.mem_map, not_exists,
          not_and]
        constructor
        · intro all
          refine ⟨fun decl member same => ?_, fun decl member => ?_⟩
          · have missing := all decl member
            simp [same] at missing
          · have missing := all decl member
            split at missing
            · cases missing
            · exact missing
        · rintro ⟨differs, missing⟩ decl member
          rw [if_neg (differs decl member)]
          exact missing decl member
      constructor
      · rintro ⟨-, ⟨headNew, rfl⟩, ⟨restDistinct, restNew⟩, rfl⟩
        obtain ⟨notAgain, restNew⟩ := others.mp restNew
        exact ⟨⟨⟨notAgain, restDistinct⟩, headNew, restNew⟩, rfl⟩
      · rintro ⟨⟨⟨notAgain, restDistinct⟩, headNew, restNew⟩, rfl⟩
        exact ⟨_, ⟨headNew, rfl⟩, ⟨restDistinct, others.mpr ⟨notAgain, restNew⟩⟩, rfl⟩

end ClassTable

namespace CompilationUnit

/-- The classes of a unit in the order they are written. -/
def classDecls
    (unit : CompilationUnit) :
    List ClassDecl :=
  unit.classes.map Spanned.node

/-- The functions of a unit in the order they are written. -/
def functionDecls
    (unit : CompilationUnit) :
    List FunctionDecl :=
  unit.functions.map Spanned.node

/-- No class of a unit is declared twice, and none has the name of a builtin
class. -/
structure DeclaresOnce
    (unit : CompilationUnit) :
    Prop where
  distinct : (unit.classDecls.map fun decl => decl.name.node).Nodup
  isNew : ∀ decl ∈ unit.classDecls, ClassTable.builtin.class? decl.name.node = none

/-- The number of type arguments of each class once some classes of a unit are
defined. The others of the unit do not take any yet. -/
def aritiesAfter
    (unit : CompilationUnit)
    (defined : List ClassDecl) :
    Arities :=
  fun name =>
    match ClassDecl.named? defined name with
    | some decl => some decl.typeParams.length
    | none =>
        if (ClassDecl.named? unit.classDecls name).isSome then
          some 0
        else
          ClassTable.builtin.arities name

/-- The written types of each class resolve once the classes before it in an
order are defined. -/
def ResolvesInOrder
    (unit : CompilationUnit)
    (order : List ClassDecl) :
    Prop :=
  ∀ earlier decl later, order = earlier ++ decl :: later →
    decl.resolves (unit.aritiesAfter earlier) = true

/-- The written types of the functions of a unit resolve once all its classes are
defined. -/
def FunctionsResolve
    (unit : CompilationUnit) :
    Prop :=
  ∀ decl ∈ unit.functionDecls, decl.asMethod.resolves (unit.aritiesAfter unit.classDecls) [] = true

/-- The table of a unit whose classes have been announced. -/
def announced
    (unit : CompilationUnit) :
    ClassTable :=
  { ClassTable.builtin with owner := unit.name }.addClasses ClassTable.announcement unit.classDecls

/-- The table of a unit. -/
def meaning
    (unit : CompilationUnit) :
    ClassTable :=
  (unit.announced.addClasses ClassDecl.meaning unit.classDecls).addFunctions unit.functionDecls

variable
  {unit : CompilationUnit}

/-- Where some classes of a unit are defined, they take as many type arguments as
they have type parameters. -/
theorem arities_addClasses
    (once : unit.DeclaresOnce)
    {defined later : List ClassDecl}
    (order : unit.classDecls = defined ++ later) :
    (unit.announced.addClasses ClassDecl.meaning defined).arities = unit.aritiesAfter defined := by
  have definedDistinct : (defined.map fun decl => decl.name.node).Nodup := by
    have distinct := once.distinct
    rw [order, List.map_append] at distinct
    exact (List.nodup_append.mp distinct).1
  funext name
  rw [ClassTable.arities, ClassTable.class?_addClasses (fun _ => rfl) name _ definedDistinct,
    announced, ClassTable.class?_addClasses (fun _ => rfl) name _ once.distinct, aritiesAfter]
  cases ClassDecl.named? defined name with
  | some decl =>
      simp [ClassDecl.meaning, TypeParam.length_meanings]
  | none =>
      cases ClassDecl.named? unit.classDecls name with
      | some decl =>
          simp [ClassTable.announcement, ClassInfo.announced]
      | none =>
          rfl

/-- A class of the table of a unit is one of the unit or a builtin one. -/
theorem class?_meaning
    (once : unit.DeclaresOnce)
    (name : String) :
    unit.meaning.class? name =
      ((ClassDecl.named? unit.classDecls name).map ClassDecl.meaning).or
        (ClassTable.builtin.class? name) := by
  have sameClasses : unit.meaning.class? name =
      (unit.announced.addClasses ClassDecl.meaning unit.classDecls).class? name :=
    congrArg (List.lookup name) (ClassTable.classes_addFunctions unit.functionDecls _).1
  rw [sameClasses, ClassTable.class?_addClasses (fun _ => rfl) name _ once.distinct, announced,
    ClassTable.class?_addClasses (fun _ => rfl) name _ once.distinct]
  cases ClassDecl.named? unit.classDecls name with
  | some decl =>
      rfl
  | none =>
      rfl

end CompilationUnit

namespace ClassTable

open CompilationUnit

/-- A unit has a table if its classes are declared once and all written types
resolve, and then it is what the declarations mean. -/
theorem ofUnit_eq_ok
    {unit : CompilationUnit}
    {table : ClassTable} :
    ofUnit unit = .ok table ↔
      (unit.DeclaresOnce ∧ unit.ResolvesInOrder unit.classDecls ∧ unit.FunctionsResolve) ∧
        unit.meaning = table := by
  have announces : ∀ {after : ClassTable},
      declareAll announce unit.classDecls { builtin with owner := unit.name } = .ok after ↔
        unit.DeclaresOnce ∧ unit.announced = after := by
    intro after
    rw [announceAll_eq_ok]
    exact and_congr_left fun _ => ⟨fun once => ⟨once.1, once.2⟩, fun once =>
      ⟨once.distinct, once.isNew⟩⟩
  have defines : ∀ {after : ClassTable}, unit.DeclaresOnce →
      (declareAll define unit.classDecls unit.announced = .ok after ↔
        unit.ResolvesInOrder unit.classDecls ∧
          unit.announced.addClasses ClassDecl.meaning unit.classDecls = after) := by
    intro after once
    rw [declareAll_eq_ok define_eq_ok]
    refine and_congr_left fun _ => forall_congr' fun earlier => forall_congr' fun decl =>
      forall_congr' fun later => imp_congr_right fun order => ?_
    rw [← arities_addClasses once order]
    rfl
  have declares : ∀ {after : ClassTable}, unit.DeclaresOnce →
      (declareAll declareFunction unit.functionDecls
          (unit.announced.addClasses ClassDecl.meaning unit.classDecls) = .ok after ↔
        unit.FunctionsResolve ∧ unit.meaning = after) := by
    intro after once
    have sameArities : ∀ decls : List FunctionDecl,
        ((unit.announced.addClasses ClassDecl.meaning unit.classDecls).addFunctions decls).arities =
          unit.aritiesAfter unit.classDecls := by
      intro decls
      rw [← arities_addClasses once (List.append_nil _).symm]
      funext name
      simp only [arities, class?, (classes_addFunctions decls _).1]
    rw [declareAll_eq_ok declareFunction_eq_ok]
    refine and_congr_left fun _ => ⟨fun all decl member => ?_, fun all earlier decl later order => ?_⟩
    · obtain ⟨earlier, later, order⟩ := List.append_of_mem member
      rw [← sameArities earlier]
      exact all earlier decl later order
    · have resolves := all decl (by simp [order])
      rw [← sameArities earlier] at resolves
      exact resolves
  simp only [ofUnit, bind_eq_ok]
  constructor
  · rintro ⟨_, isAnnounced, _, isDefined, isDeclared⟩
    obtain ⟨once, rfl⟩ := announces.mp isAnnounced
    obtain ⟨classes, rfl⟩ := (defines once).mp isDefined
    obtain ⟨functions, rfl⟩ := (declares once).mp isDeclared
    exact ⟨⟨once, classes, functions⟩, rfl⟩
  · rintro ⟨⟨once, classes, functions⟩, rfl⟩
    exact ⟨_, announces.mpr ⟨once, rfl⟩, _, (defines once).mpr ⟨classes, rfl⟩,
      (declares once).mpr ⟨functions, rfl⟩⟩

/-- If the classes of a unit are declared in another order, the tables have the
same entries. There is one as long as every written type resolves where no class
takes type arguments before it is defined in that order. -/
theorem ofUnit_reorder
    {unit : CompilationUnit}
    {classes : List (Spanned ClassDecl)}
    (reordered : classes.Perm unit.classes) :
    (∀ table other, ofUnit unit = .ok table → ofUnit { unit with classes := classes } = .ok other →
      table.SameEntries other) ∧
    ((∃ other, ofUnit { unit with classes := classes } = .ok other) ↔
      unit.DeclaresOnce ∧ unit.ResolvesInOrder (classes.map Spanned.node) ∧
        unit.FunctionsResolve) := by
  have sameDecls : ({ unit with classes := classes } : CompilationUnit).classDecls.Perm
      unit.classDecls := reordered.map Spanned.node
  have sameOnce : ({ unit with classes := classes } : CompilationUnit).DeclaresOnce ↔
      unit.DeclaresOnce := by
    have sameNames := (sameDecls.map fun decl => decl.name.node).nodup_iff
    exact ⟨fun once => ⟨sameNames.mp once.distinct, fun decl member =>
        once.isNew decl (sameDecls.mem_iff.mpr member)⟩,
      fun once => ⟨sameNames.mpr once.distinct, fun decl member =>
        once.isNew decl (sameDecls.mem_iff.mp member)⟩⟩
  constructor
  · intro table other built builtOther
    obtain ⟨⟨once, -, -⟩, rfl⟩ := ofUnit_eq_ok.mp built
    obtain ⟨⟨otherOnce, -, -⟩, rfl⟩ := ofUnit_eq_ok.mp builtOther
    refine ⟨fun name => ?_, fun name => ?_, ?_⟩
    · rw [class?_meaning once, class?_meaning otherOnce,
        ClassDecl.named?_perm sameDecls once.distinct]
    · refine congrArg (List.lookup name) (functions_addFunctions _ ?_ ?_)
      · simp only [announced, (functions_addClasses _ _ _).1]
      · simp only [announced, (functions_addClasses _ _ _).2]
    · simp only [meaning, announced, (classes_addFunctions _ _).2, (functions_addClasses _ _ _).2]
  · have sameArities : unit.DeclaresOnce → ∀ defined,
        ({ unit with classes := classes } : CompilationUnit).aritiesAfter defined =
          unit.aritiesAfter defined := by
      intro once defined
      funext name
      simp only [aritiesAfter, ClassDecl.named?_perm sameDecls once.distinct]
    have allArities : unit.DeclaresOnce →
        unit.aritiesAfter ({ unit with classes := classes } : CompilationUnit).classDecls =
          unit.aritiesAfter unit.classDecls := by
      intro once
      funext name
      simp only [aritiesAfter, ClassDecl.named?_perm sameDecls once.distinct]
    simp only [ofUnit_eq_ok, exists_and_left, exists_eq', and_true, sameOnce]
    refine and_congr_right fun once => and_congr ?_ ?_
    · simp only [ResolvesInOrder, sameArities once]
      rfl
    · simp only [FunctionsResolve, sameArities once, allArities once]
      rfl

end ClassTable

/-- A unit with a class of boxes, which take a type argument, after a class that
refers to boxes of strings. -/
def CompilationUnit.boxesLast :
    CompilationUnit where
  name := "Main"
  source := none
  classes := [
    .unplaced {
      name := .unplaced "Shelf"
      typeParams := []
      isInterface := false
      superclass := none
      interfaces := []
      methods := [⟨"first", [], some (.generic .absent "Box" [.named .absent "String"])⟩]
    },
    .unplaced {
      name := .unplaced "Box"
      typeParams := [⟨"T", none⟩]
      isInterface := false
      superclass := none
      interfaces := []
      methods := []
    }]
  functions := []
  methods := []

/-- The boxes have to be declared before a class refers to them: only one of the
two orders has a table. -/
theorem boxesLast_reorder :
    CompilationUnit.boxesLast.classes.reverse.Perm CompilationUnit.boxesLast.classes ∧
      (∃ table, ClassTable.ofUnit
        { CompilationUnit.boxesLast with
          classes := CompilationUnit.boxesLast.classes.reverse } = .ok table) ∧
      ¬∃ table, ClassTable.ofUnit CompilationUnit.boxesLast = .ok table := by
  have once : CompilationUnit.boxesLast.DeclaresOnce := ⟨by decide, by decide⟩
  have functions : CompilationUnit.boxesLast.FunctionsResolve := by
    simp [CompilationUnit.FunctionsResolve, CompilationUnit.functionDecls,
      CompilationUnit.boxesLast]
  refine ⟨List.reverse_perm _, ?_, ?_⟩
  · refine (ClassTable.ofUnit_reorder (List.reverse_perm _)).2.mpr ⟨once, ?_, functions⟩
    intro earlier decl later order
    obtain _ | ⟨box, _ | ⟨shelf, rest⟩⟩ := earlier
    · obtain ⟨rfl, -⟩ := List.cons_eq_cons.mp order
      decide
    · obtain ⟨rfl, isRest⟩ := List.cons_eq_cons.mp order
      obtain ⟨rfl, -⟩ := List.cons_eq_cons.mp isRest
      decide +kernel
    · simp [CompilationUnit.boxesLast] at order
  · intro built
    obtain ⟨-, inOrder, -⟩ :=
      (ClassTable.ofUnit_reorder (.refl CompilationUnit.boxesLast.classes)).2.mp built
    have resolves := inOrder [] _ _ rfl
    revert resolves
    decide +kernel

end LoopLowering
