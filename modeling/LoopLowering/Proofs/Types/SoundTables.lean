import LoopLowering.Proofs.Types.ValueTypes
import LoopLowering.Types.Declarations

namespace LoopLowering

/-!
# Sound class tables

A class table is sound when its declarations mention types of values only. The
table of a unit is sound, and what is found in a sound table through a sound
receiver is sound again: inheritance only erases and substitutes.
-/

namespace TypeExpr

/-- Whether a written type is the keyword of a primitive type. -/
def isKeyword :
    TypeExpr → Bool
  | .named _ name => (Primitive.ofName? name).isSome
  | _ => false

mutual

/-- Whether no wildcard in a written type is bounded by a primitive type, if
that is asked for. -/
def isAllowed
    (strict : Bool) :
    TypeExpr → Bool
  | .named .. | .wildcard _ => true
  | .generic _ _ args => areAllowed strict args
  | .array _ component => component.isAllowed strict
  | .wildcardExtends _ bound => bound.isAllowed strict && !(strict && bound.isKeyword)

/-- Whether every written type of a list is allowed. -/
def areAllowed
    (strict : Bool) :
    List TypeExpr → Bool
  | [] => true
  | type :: rest => type.isAllowed strict && areAllowed strict rest

end

mutual

/-- Every written type is allowed leniently. -/
theorem isAllowed_lenient :
    ∀ type : TypeExpr,
      type.isAllowed false = true
  | .named .. | .wildcard _ => by
      simp [isAllowed]
  | .generic _ _ args => by
      simpa [isAllowed] using areAllowed_lenient args
  | .array _ component => by
      simpa [isAllowed] using isAllowed_lenient component
  | .wildcardExtends _ bound => by
      simpa [isAllowed] using isAllowed_lenient bound

theorem areAllowed_lenient :
    ∀ types : List TypeExpr,
      areAllowed false types = true
  | [] => by
      simp [areAllowed]
  | type :: rest => by
      simp [areAllowed, isAllowed_lenient type, areAllowed_lenient rest]

end

/-- An optional written type is allowed leniently. -/
theorem all_isAllowed_lenient
    (type : Option TypeExpr) :
    type.all (isAllowed false) = true := by
  cases type <;> simp [isAllowed_lenient]

end TypeExpr

/-- Whether the bound of a type parameter is allowed. -/
def TypeParam.isAllowed
    (strict : Bool)
    (param : TypeParam) :
    Bool :=
  match param.bound with
  | some bound => bound.isAllowed strict && !(strict && bound.isKeyword)
  | none => true

namespace NameTable

/-- A declaration that is found is in the table. -/
theorem mem_of_find?
    {name : String}
    {value : α}
    {table : NameTable α}
    (found : table.find? name = some value) :
    (name, value) ∈ table := by
  induction table with
  | nil =>
      simp [find?] at found
  | cons entry rest inductionHypothesis =>
      rw [find?, List.lookup_cons] at found
      by_cases same : name == entry.1
      · simp only [same, Option.some.injEq] at found
        have sameName := eq_of_beq same
        simp [sameName, ← found]
      · simp only [same] at found
        exact List.mem_cons_of_mem _ (inductionHypothesis found)

end NameTable

/-- Type variables whose bounds are types of values. -/
def SoundVars
    (strict : Bool)
    (typeVars : NameTable Ty) :
    Prop :=
  ∀ entry ∈ typeVars, (Ty.typeVar entry.1 entry.2).isValue strict = true

namespace SoundVars

theorem nil
    (strict : Bool) :
    SoundVars strict [] := by
  simp [SoundVars]

/-- Bring a variable into scope. -/
theorem insert
    {strict : Bool}
    {typeVars : NameTable Ty}
    (sound : SoundVars strict typeVars)
    {name : String}
    {bound : Ty}
    (boundSound : (Ty.typeVar name bound).isValue strict = true) :
    SoundVars strict (typeVars.insert name bound) := by
  intro entry member
  rcases List.mem_cons.mp member with rfl | older
  · exact boundSound
  · exact sound entry older

end SoundVars

namespace Signature

/-- Whether a signature mentions types of values only, the result apart, which
may be void. -/
def isSound
    (strict : Bool)
    (signature : Signature) :
    Bool :=
  signature.params.all (Ty.isValue strict) &&
    (signature.returnType == .void || signature.returnType.isValue strict)

/-- The result of a sound signature is void or a value. -/
theorem isResult_returnType
    {strict : Bool}
    {signature : Signature}
    (sound : signature.isSound strict = true) :
    signature.returnType.IsResult strict := by
  simp only [isSound, Bool.and_eq_true, Bool.or_eq_true, beq_iff_eq] at sound
  exact .inr sound.2

end Signature

/-- Whether the declaration of a class mentions types of values only. -/
def ClassInfo.isSound
    (strict : Bool)
    (info : ClassInfo) :
    Bool :=
  info.supertypes.all (Ty.isValue strict) &&
    info.methods.all (fun entry => entry.2.isSound strict)

namespace ClassTable

/-- The declarations of a table mention types of values only. -/
structure Sound
    (strict : Bool)
    (table : ClassTable) :
    Prop where
  classes : ∀ entry ∈ table.classes, entry.2.isSound strict = true
  functions : ∀ entry ∈ table.functions, entry.2.signature.isSound strict = true

/-- The table of builtin classes is sound. -/
theorem builtin_sound
    (strict : Bool)
    (owner : String) :
    Sound strict { builtin with owner := owner } where
  classes := by
    change ∀ entry ∈ builtin.classes, _
    cases strict <;> decide
  functions := by
    simp [builtin]

mutual

/-- A written type resolves to a type of values, which is primitive only if it
was written by its keyword. -/
theorem resolve_isValue
    {strict : Bool}
    {table : ClassTable}
    {typeVars : NameTable Ty}
    (vars : SoundVars strict typeVars) :
    ∀ {type : TypeExpr} {ty : Ty},
      type.isAllowed strict = true →
      table.resolve typeVars type = .ok ty →
      ty.isValue strict = true ∧ (ty.isPrimitive = true → type.isKeyword = true)
  | .named _ name, ty, _, resolved => by
      simp only [resolve, resolveName] at resolved
      split at resolved
      · next kind keyword =>
          cases resolved
          simp [Ty.isValue, TypeExpr.isKeyword, keyword]
      · split at resolved
        · next bound found =>
            cases resolved
            exact ⟨vars _ (NameTable.mem_of_find? found), by simp [Ty.isPrimitive]⟩
        · split at resolved
          · cases resolved
            simp [Ty.named, Ty.isValue, Ty.areArguments, Ty.isPrimitive]
          · cases resolved
  | .generic _ name args, ty, allowed, resolved => by
      simp only [TypeExpr.isAllowed] at allowed
      simp only [resolve, bind, Except.bind] at resolved
      split at resolved
      · cases resolved
      · split at resolved
        · cases resolved
        · next types typesResolved =>
            have values := resolveAll_isValue vars allowed typesResolved
            simp only [checkArguments] at resolved
            cases primitive : types.find? Ty.isPrimitive with
            | some arg =>
                simp [primitive] at resolved
            | none =>
                simp only [primitive, pure, Except.pure, Except.ok.injEq] at resolved
                subst resolved
                rw [List.find?_eq_none] at primitive
                refine ⟨?_, by simp [Ty.isPrimitive]⟩
                rw [Ty.isValue, Ty.areArguments_iff]
                intro arg member
                exact ⟨values arg member, by simpa using primitive arg member⟩
  | .array _ component, ty, allowed, resolved => by
      simp only [TypeExpr.isAllowed] at allowed
      simp only [resolve, bind, Except.bind] at resolved
      split at resolved
      · cases resolved
      · next componentTy componentResolved =>
          cases resolved
          exact ⟨(resolve_isValue vars allowed componentResolved).1, by simp [Ty.isPrimitive]⟩
  | .wildcard _, ty, _, resolved => by
      cases resolved
      simp [Ty.isValue, Ty.isPrimitive]
  | .wildcardExtends _ bound, ty, allowed, resolved => by
      simp only [TypeExpr.isAllowed, Bool.and_eq_true] at allowed
      simp only [resolve, bind, Except.bind] at resolved
      split at resolved
      · cases resolved
      · next boundTy boundResolved =>
          cases resolved
          obtain ⟨value, keyword⟩ := resolve_isValue vars allowed.1 boundResolved
          refine ⟨?_, by simp [Ty.isPrimitive]⟩
          simp only [Ty.isValue, value, Bool.true_and]
          cases primitive : boundTy.isPrimitive with
          | false =>
              simp
          | true =>
              simpa [keyword primitive] using allowed.2

theorem resolveAll_isValue
    {strict : Bool}
    {table : ClassTable}
    {typeVars : NameTable Ty}
    (vars : SoundVars strict typeVars) :
    ∀ {types : List TypeExpr} {tys : List Ty},
      TypeExpr.areAllowed strict types = true →
      table.resolveAll typeVars types = .ok tys →
      ∀ ty ∈ tys, ty.isValue strict = true
  | [], tys, _, resolved => by
      cases resolved
      simp
  | type :: rest, tys, allowed, resolved => by
      simp only [TypeExpr.areAllowed, Bool.and_eq_true] at allowed
      simp only [resolveAll, bind, Except.bind] at resolved
      split at resolved
      · cases resolved
      · next head headResolved =>
          split at resolved
          · cases resolved
          · next tail tailResolved =>
              cases resolved
              intro ty member
              rcases List.mem_cons.mp member with rfl | inTail
              · exact (resolve_isValue vars allowed.1 headResolved).1
              · exact resolveAll_isValue vars allowed.2 tailResolved ty inTail

end

end ClassTable

/-!
## Sound units

The class table of a unit is sound. The written types of a unit are allowed
leniently whatever they are, and strictly if no wildcard and no type parameter
is bounded by a primitive type.
-/

namespace MethodSignature

/-- Whether the written types of a method are allowed. -/
def isAllowed
    (strict : Bool)
    (method : MethodSignature) :
    Bool :=
  TypeExpr.areAllowed strict method.params &&
    method.returnType.all (TypeExpr.isAllowed strict)

end MethodSignature

namespace ClassDecl

/-- Whether the written types of a class are allowed. -/
def isAllowed
    (strict : Bool)
    (decl : ClassDecl) :
    Bool :=
  decl.typeParams.all (TypeParam.isAllowed strict) &&
    decl.superclass.all (TypeExpr.isAllowed strict) &&
    TypeExpr.areAllowed strict decl.interfaces &&
    decl.methods.all (MethodSignature.isAllowed strict)

end ClassDecl

namespace FunctionDecl

/-- Whether the written types of a function are allowed. -/
def isAllowed
    (strict : Bool)
    (decl : FunctionDecl) :
    Bool :=
  TypeExpr.areAllowed strict decl.params &&
    decl.returnType.all (TypeExpr.isAllowed strict)

end FunctionDecl

namespace CompilationUnit

/-- Whether the written types of the classes and functions of a unit are
allowed. -/
def isAllowed
    (strict : Bool)
    (unit : CompilationUnit) :
    Bool :=
  unit.classes.all (fun decl => decl.node.isAllowed strict) &&
    unit.functions.all (fun decl => decl.node.isAllowed strict)

end CompilationUnit

/-- A type parameter is allowed leniently. -/
theorem TypeParam.isAllowed_lenient
    (param : TypeParam) :
    param.isAllowed false = true := by
  unfold TypeParam.isAllowed
  split <;> simp [TypeExpr.isAllowed_lenient]

/-- Every unit is allowed leniently. -/
theorem CompilationUnit.isAllowed_lenient
    (unit : CompilationUnit) :
    unit.isAllowed false = true := by
  simp [CompilationUnit.isAllowed, ClassDecl.isAllowed, FunctionDecl.isAllowed,
    MethodSignature.isAllowed, TypeExpr.all_isAllowed_lenient, TypeExpr.areAllowed_lenient,
    TypeParam.isAllowed_lenient]

namespace ClassTable

variable
  {strict : Bool}
  {table table' : ClassTable}
  {typeVars : NameTable Ty}

/-- A type in a declaration resolves to a type of values. -/
theorem resolveDeclared_isValue
    (vars : SoundVars strict typeVars)
    {type : TypeExpr}
    (allowed : type.isAllowed strict = true)
    {ty : Ty}
    (resolved : table.resolveDeclared typeVars type = .ok ty) :
    ty.isValue strict = true ∧ (ty.isPrimitive = true → type.isKeyword = true) := by
  simp only [resolveDeclared] at resolved
  split at resolved
  · next found resolves =>
      cases resolved
      exact resolve_isValue vars allowed resolves
  · cases resolved

/-- Types in a declaration resolve to types of values. -/
theorem resolveDeclaredAll_isValue
    (vars : SoundVars strict typeVars) :
    ∀ {types : List TypeExpr} {tys : List Ty},
      TypeExpr.areAllowed strict types = true →
      table.resolveDeclaredAll typeVars types = .ok tys →
      tys.all (Ty.isValue strict) = true
  | [], tys, _, resolved => by
      cases resolved
      rfl
  | type :: rest, tys, allowed, resolved => by
      simp only [TypeExpr.areAllowed, Bool.and_eq_true] at allowed
      simp only [resolveDeclaredAll, bind, Except.bind] at resolved
      split at resolved
      · cases resolved
      · next head headResolved =>
          split at resolved
          · cases resolved
          · next tail tailResolved =>
              cases resolved
              rw [List.all_cons, (resolveDeclared_isValue vars allowed.1 headResolved).1,
                resolveDeclaredAll_isValue vars allowed.2 tailResolved]
              rfl

/-- A resolved signature is sound. -/
theorem resolveSignature_isSound
    (vars : SoundVars strict typeVars)
    {params : List TypeExpr}
    {returnType : Option TypeExpr}
    (paramsAllowed : TypeExpr.areAllowed strict params = true)
    (returnAllowed : returnType.all (TypeExpr.isAllowed strict) = true)
    {signature : Signature}
    (resolved : table.resolveSignature typeVars params returnType = .ok signature) :
    signature.isSound strict = true := by
  simp only [resolveSignature, bind, Except.bind] at resolved
  split at resolved
  · cases resolved
  · next tys paramsResolved =>
      split at resolved
      · cases resolved
      · next ty returnResolved =>
          cases resolved
          have values := resolveDeclaredAll_isValue vars paramsAllowed paramsResolved
          rw [Signature.isSound, values]
          cases returnType with
          | none =>
              cases returnResolved
              rfl
          | some type =>
              simp only [Option.all_some] at returnAllowed
              simp [(resolveDeclared_isValue vars returnAllowed returnResolved).1]

/-- Resolved type parameters have sound bounds. -/
theorem resolveTypeParams_sound :
    ∀ {params : List TypeParam} {typeVars : NameTable Ty} {resolvedParams : List TypeVariable},
      SoundVars strict typeVars →
      params.all (TypeParam.isAllowed strict) = true →
      table.resolveTypeParams typeVars params = .ok resolvedParams →
      ∀ entry ∈ resolvedParams, (Ty.typeVar entry.name entry.bound).isValue strict = true
  | [], _, resolvedParams, _, _, resolved => by
      cases resolved
      simp
  | param :: rest, typeVars, resolvedParams, vars, allowed, resolved => by
      simp only [List.all_cons, Bool.and_eq_true] at allowed
      obtain ⟨paramAllowed, restAllowed⟩ := allowed
      unfold TypeParam.isAllowed at paramAllowed
      simp only [resolveTypeParams, bind, Except.bind] at resolved
      cases written : param.bound with
      | none =>
          have boundSound : (Ty.typeVar param.name Ty.object).isValue strict = true := by
            simp [Ty.isValue, Ty.object, Ty.areArguments, Ty.isPrimitive]
          simp only [written] at resolved
          split at resolved
          · cases resolved
          · next following followingResolved =>
              cases resolved
              intro entry member
              rcases List.mem_cons.mp member with rfl | inRest
              · exact boundSound
              · exact resolveTypeParams_sound (vars.insert boundSound) restAllowed
                  followingResolved entry inRest
      | some type =>
          simp only [written, Bool.and_eq_true] at paramAllowed resolved
          split at resolved
          · cases resolved
          next bound boundResolved =>
            obtain ⟨value, keyword⟩ := resolveDeclared_isValue vars paramAllowed.1 boundResolved
            have boundSound : (Ty.typeVar param.name bound).isValue strict = true := by
              simp only [Ty.isValue, value, Bool.true_and]
              cases primitive : bound.isPrimitive with
              | false =>
                  simp
              | true =>
                  simpa [keyword primitive] using paramAllowed.2
            split at resolved
            · cases resolved
            · next following followingResolved =>
                cases resolved
                intro entry member
                rcases List.mem_cons.mp member with rfl | inRest
                · exact boundSound
                · exact resolveTypeParams_sound (vars.insert boundSound) restAllowed
                    followingResolved entry inRest

/-- Resolved methods are sound. -/
theorem resolveMethods_isSound
    (vars : SoundVars strict typeVars) :
    ∀ {methods : List MethodSignature} {signatures : List (String × Signature)},
      methods.all (MethodSignature.isAllowed strict) = true →
      table.resolveMethods typeVars methods = .ok signatures →
      ∀ entry ∈ signatures, entry.2.isSound strict = true
  | [], signatures, _, resolved => by
      cases resolved
      simp
  | method :: rest, signatures, allowed, resolved => by
      simp only [List.all_cons, Bool.and_eq_true, MethodSignature.isAllowed] at allowed
      simp only [resolveMethods, bind, Except.bind] at resolved
      split at resolved
      · cases resolved
      · next signature signatureResolved =>
          split at resolved
          · cases resolved
          · next others othersResolved =>
              cases resolved
              intro entry member
              rcases List.mem_cons.mp member with rfl | inRest
              · exact resolveSignature_isSound vars allowed.1.1 allowed.1.2 signatureResolved
              · exact resolveMethods_isSound vars
                  (by simpa [MethodSignature.isAllowed] using allowed.2) othersResolved entry inRest

/-- Declaring a sound class keeps a table sound. -/
theorem Sound.addClass
    (sound : table.Sound strict)
    {info : ClassInfo}
    (infoSound : info.isSound strict = true) :
    (table.addClass info).Sound strict where
  classes := by
    intro entry member
    rcases List.mem_cons.mp member with rfl | older
    · exact infoSound
    · exact sound.classes entry older
  functions := sound.functions

/-- Announcing a class keeps a table sound. -/
theorem announce_sound
    {decl : ClassDecl}
    (sound : table.Sound strict)
    (announced : announce decl table = .ok table') :
    table'.Sound strict := by
  simp only [announce] at announced
  split at announced
  · cases announced
  · cases announced
    exact sound.addClass (by simp [ClassInfo.isSound, ClassInfo.announced, ClassInfo.supertypes])

/-- Defining an allowed class keeps a table sound. -/
theorem define_sound
    {decl : ClassDecl}
    (allowed : decl.isAllowed strict = true)
    (sound : table.Sound strict)
    (defined : define decl table = .ok table') :
    table'.Sound strict := by
  simp only [ClassDecl.isAllowed, Bool.and_eq_true] at allowed
  obtain ⟨⟨⟨paramsAllowed, superclassAllowed⟩, interfacesAllowed⟩, methodsAllowed⟩ := allowed
  simp only [define, bind, Except.bind] at defined
  split at defined
  · cases defined
  next typeVariables variablesResolved =>
    have vars : SoundVars strict
        (NameTable.ofList (typeVariables.map (fun param => (param.name, param.bound)))) := by
      intro entry member
      simp only [NameTable.ofList, List.mem_reverse, List.mem_map] at member
      obtain ⟨typeVariable, inVariables, rfl⟩ := member
      exact resolveTypeParams_sound (.nil strict) paramsAllowed variablesResolved typeVariable
        inVariables
    split at defined
    · cases defined
    next superclass superclassResolved =>
      split at defined
      · cases defined
      next interfaces interfacesResolved =>
        split at defined
        · cases defined
        next methods methodsResolved =>
          cases defined
          refine sound.addClass ?_
          have superclassSound : superclass.toList.all (Ty.isValue strict) = true := by
            simp only [resolveSuperclass] at superclassResolved
            split at superclassResolved
            · next type written =>
                simp only [written, Option.all_some] at superclassAllowed
                cases typeResolved : table.resolveDeclared
                    (NameTable.ofList (typeVariables.map (fun param => (param.name, param.bound))))
                    type with
                | error cause =>
                    simp [typeResolved, Except.map] at superclassResolved
                | ok ty =>
                    simp only [typeResolved, Except.map, Except.ok.injEq] at superclassResolved
                    subst superclassResolved
                    simp [(resolveDeclared_isValue vars superclassAllowed typeResolved).1]
            · cases superclassResolved
              cases decl.isInterface <;> simp [Ty.object, Ty.isValue, Ty.areArguments]
          have methodsSound := resolveMethods_isSound vars methodsAllowed methodsResolved
          simp only [ClassInfo.isSound, ClassInfo.supertypes, List.all_append, superclassSound,
            resolveDeclaredAll_isValue vars interfacesAllowed interfacesResolved, NameTable.ofList,
            List.all_reverse, Bool.true_and, List.all_eq_true]
          exact methodsSound

/-- Declaring an allowed function keeps a table sound. -/
theorem declareFunction_sound
    {decl : FunctionDecl}
    (allowed : decl.isAllowed strict = true)
    (sound : table.Sound strict)
    (declared : declareFunction decl table = .ok table') :
    table'.Sound strict := by
  simp only [FunctionDecl.isAllowed, Bool.and_eq_true] at allowed
  simp only [declareFunction, bind, Except.bind] at declared
  split at declared
  · cases declared
  · next signature resolved =>
      cases declared
      refine ⟨sound.classes, ?_⟩
      intro entry member
      rcases List.mem_cons.mp member with rfl | older
      · exact resolveSignature_isSound (.nil strict) allowed.1 allowed.2 resolved
      · exact sound.functions entry older

/-- Declarations that each keep a table sound keep it sound in turn. -/
theorem declareAll_sound
    {declare : α → ClassTable → Except DeclarationError ClassTable} :
    ∀ {decls : List α} {table table' : ClassTable},
      (∀ decl ∈ decls, ∀ {before after : ClassTable},
        before.Sound strict →
        declare decl before = .ok after →
        after.Sound strict) →
      table.Sound strict →
      declareAll declare decls table = .ok table' →
      table'.Sound strict
  | [], _, _, _, sound, declared => by
      cases declared
      exact sound
  | decl :: rest, table, table', each, sound, declared => by
      simp only [declareAll, bind, Except.bind] at declared
      split at declared
      · cases declared
      · next middle first =>
          exact declareAll_sound (fun other member => each other (by simp [member]))
            (each decl (by simp) sound first) declared

/-- The table of a unit is sound. -/
theorem ofUnit_sound
    {unit : CompilationUnit}
    (allowed : unit.isAllowed strict = true)
    (built : ofUnit unit = .ok table) :
    table.Sound strict := by
  simp only [CompilationUnit.isAllowed, Bool.and_eq_true, List.all_eq_true] at allowed
  simp only [ofUnit, bind, Except.bind] at built
  split at built
  · cases built
  next announcedTable announced =>
    split at built
    · cases built
    next definedTable defined =>
      have announcedSound : announcedTable.Sound strict :=
        declareAll_sound (fun _ _ _ _ sound announces => announce_sound sound announces)
          (builtin_sound strict unit.name) announced
      have definedSound : definedTable.Sound strict := by
        refine declareAll_sound (fun decl member _ _ sound defines => ?_) announcedSound defined
        obtain ⟨placed, inUnit, rfl⟩ := List.mem_map.mp member
        exact define_sound (allowed.1 placed inUnit) sound defines
      refine declareAll_sound (fun decl member _ _ sound declares => ?_) definedSound built
      obtain ⟨placed, inUnit, rfl⟩ := List.mem_map.mp member
      exact declareFunction_sound (allowed.2 placed inUnit) sound declares

end ClassTable

end LoopLowering
