import LoopLowering.Proofs.Types.HierarchyWalks
import LoopLowering.Proofs.Types.SoundTables

namespace LoopLowering

/-!
# Searches through a class hierarchy

The search for a supertype is a recursion that remembers the names it has
visited, and the search for a method a loop over a list of class types. Both are
written here as rules, without a bound on their steps. Each ends on every table,
and finds what the table's own functions find: some class that a chain of
supertypes leads to, if there is one.
-/

namespace Ty

/-- The type that bounds a type variable or a wildcard. -/
def upperBound? :
    Ty → Option Ty
  | .typeVar _ bound => some bound
  | .wildcard => some object
  | .wildcardExtends bound => some bound
  | _ => none

/-- A type variable or wildcard inherits through its bound. -/
theorem inheritingClass?_upperBound?
    {ty bound : Ty}
    (bounded : ty.upperBound? = some bound) :
    ty.inheritingClass? = bound.inheritingClass? := by
  cases ty with
  | typeVar name bound =>
      cases bounded
      rfl
  | wildcard =>
      cases bounded
      rfl
  | wildcardExtends bound =>
      cases bounded
      rfl
  | _ =>
      cases bounded

end Ty

namespace ClassTable

/-!
## The search for a supertype
-/

/-- The recursive search for a class among types, one after the other: a class of
another name that has not been visited is searched among its supertypes before
the types behind it. The names visited are handed on. -/
inductive Searches
    (table : ClassTable)
    (target : String) :
    (visited : List String) →
    (types : List Ty) →
    (after : List String) →
    (found : Option ClassType) →
    Prop where
  | nothing
      (visited : List String) :
      Searches table target visited [] visited none
  | finds
      (visited : List String)
      (args rest : List Ty) :
      Searches table target visited (.classType target args :: rest) visited (some ⟨target, args⟩)
  | again
      {visited after : List String}
      {name : String}
      {args rest : List Ty}
      {found : Option ClassType}
      (differs : name ≠ target)
      (known : name ∈ visited)
      (later : Searches table target visited rest after found) :
      Searches table target visited (.classType name args :: rest) after found
  | inherited
      {visited after : List String}
      {name : String}
      {args rest : List Ty}
      {found : ClassType}
      (differs : name ≠ target)
      (isNew : name ∉ visited)
      (inner : Searches table target (name :: visited) (table.directSupertypes ⟨name, args⟩) after
        (some found)) :
      Searches table target visited (.classType name args :: rest) after (some found)
  | beyond
      {visited since after : List String}
      {name : String}
      {args rest : List Ty}
      {found : Option ClassType}
      (differs : name ≠ target)
      (isNew : name ∉ visited)
      (inner : Searches table target (name :: visited) (table.directSupertypes ⟨name, args⟩) since
        none)
      (later : Searches table target since rest after found) :
      Searches table target visited (.classType name args :: rest) after found
  | bounded
      {visited after : List String}
      {ty bound : Ty}
      {rest : List Ty}
      {found : Option ClassType}
      (isBound : ty.upperBound? = some bound)
      (later : Searches table target visited (bound :: rest) after found) :
      Searches table target visited (ty :: rest) after found
  | skips
      {visited after : List String}
      {ty : Ty}
      {rest : List Ty}
      {found : Option ClassType}
      (noClass : ty.classType? = none)
      (noBound : ty.upperBound? = none)
      (later : Searches table target visited rest after found) :
      Searches table target visited (ty :: rest) after found

namespace Searches

variable
  {table : ClassTable}
  {target : String}
  {visited after : List String}
  {types rest : List Ty}
  {found : Option ClassType}

/-- A search has one result. -/
theorem unique
    (searches : table.Searches target visited types after found)
    {otherAfter : List String}
    {otherFound : Option ClassType}
    (again : table.Searches target visited types otherAfter otherFound) :
    after = otherAfter ∧ found = otherFound := by
  induction searches generalizing otherAfter otherFound with
  | nothing visited =>
      cases again
      exact ⟨rfl, rfl⟩
  | finds visited args rest =>
      cases again with
      | finds => exact ⟨rfl, rfl⟩
      | again differs | inherited differs | beyond differs => exact absurd rfl differs
      | bounded isBound => cases isBound
      | skips noClass => cases noClass
  | again differs known later inductionHypothesis =>
      cases again with
      | finds => exact absurd rfl differs
      | again _ _ laterAgain => exact inductionHypothesis laterAgain
      | inherited _ isNew | beyond _ isNew => exact absurd known isNew
      | bounded isBound => cases isBound
      | skips noClass => cases noClass
  | inherited differs isNew inner inductionHypothesis =>
      cases again with
      | finds => exact absurd rfl differs
      | again _ known => exact absurd known isNew
      | inherited _ _ innerAgain => exact inductionHypothesis innerAgain
      | beyond _ _ innerAgain => cases (inductionHypothesis innerAgain).2
      | bounded isBound => cases isBound
      | skips noClass => cases noClass
  | beyond differs isNew inner later innerHypothesis laterHypothesis =>
      cases again with
      | finds => exact absurd rfl differs
      | again _ known => exact absurd known isNew
      | inherited _ _ innerAgain => cases (innerHypothesis innerAgain).2
      | beyond _ _ innerAgain laterAgain =>
          obtain ⟨rfl, -⟩ := innerHypothesis innerAgain
          exact laterHypothesis laterAgain
      | bounded isBound => cases isBound
      | skips noClass => cases noClass
  | bounded isBound later inductionHypothesis =>
      cases again with
      | bounded isBoundAgain laterAgain =>
          cases isBound.symm.trans isBoundAgain
          exact inductionHypothesis laterAgain
      | skips _ noBound => cases isBound.symm.trans noBound
      | _ => cases isBound
  | skips noClass noBound later inductionHypothesis =>
      cases again with
      | bounded isBound => cases isBound.symm.trans noBound
      | skips _ _ laterAgain => exact inductionHypothesis laterAgain
      | _ => cases noClass

/-- A search passes over a type that inherits from no class. -/
theorem ofClassless :
    ∀ {ty : Ty},
      ty.inheritingClass? = none →
      table.Searches target visited rest after found →
      table.Searches target visited (ty :: rest) after found
  | .classType _ _, noClass, _ | .wildcard, noClass, _ => by
      cases noClass
  | .typeVar _ _, noClass, searches | .wildcardExtends _, noClass, searches =>
      .bounded rfl (ofClassless noClass searches)
  | .primitive _, _, searches | .array _, _, searches | .null, _, searches
  | .void, _, searches | .unknown, _, searches =>
      .skips rfl rfl searches

/-- A search looks at a type as at the class through which it inherits. -/
theorem ofClass :
    ∀ {ty : Ty} {classType : ClassType},
      ty.inheritingClass? = some classType →
      table.Searches target visited (classType.toTy :: rest) after found →
      table.Searches target visited (ty :: rest) after found
  | .classType _ _, _, isClass, searches => by
      cases isClass
      exact searches
  | .wildcard, _, isClass, searches => by
      cases isClass
      exact .bounded rfl searches
  | .typeVar _ _, _, isClass, searches | .wildcardExtends _, _, isClass, searches =>
      .bounded rfl (ofClass isClass searches)
  | .primitive _, _, isClass, _ | .array _, _, isClass, _ | .null, _, isClass, _
  | .void, _, isClass, _ | .unknown, _, isClass, _ => by
      cases isClass

/-- A search passes over types that inherit from no class. -/
theorem ofClassless_append
    {skipped : List Ty}
    (noClass : ∀ ty ∈ skipped, ty.inheritingClass? = none)
    (searches : table.Searches target visited rest after found) :
    table.Searches target visited (skipped ++ rest) after found := by
  induction skipped with
  | nil =>
      exact searches
  | cons ty others inductionHypothesis =>
      obtain ⟨headNoClass, othersNoClass⟩ := List.forall_mem_cons.mp noClass
      exact ofClassless headNoClass (inductionHypothesis othersNoClass)

/-- A search goes on behind some types only if it finds nothing among them. -/
theorem split
    {first second : List Ty}
    (searches : table.Searches target visited (first ++ second) after found) :
    (found.isSome = true ∧ table.Searches target visited first after found) ∨
      ∃ since, table.Searches target visited first since none ∧
        table.Searches target since second after found := by
  generalize whole : first ++ second = types at searches
  induction searches generalizing first with
  | nothing visited =>
      obtain ⟨rfl, rfl⟩ := List.append_eq_nil_iff.mp whole
      exact .inr ⟨visited, .nothing visited, .nothing visited⟩
  | finds visited args rest =>
      rcases List.append_eq_cons_iff.mp whole with ⟨rfl, rfl⟩ | ⟨others, rfl, rfl⟩
      · exact .inr ⟨visited, .nothing visited, .finds visited args rest⟩
      · exact .inl ⟨rfl, .finds visited args others⟩
  | again differs known later inductionHypothesis =>
      rcases List.append_eq_cons_iff.mp whole with ⟨rfl, rfl⟩ | ⟨others, rfl, rfl⟩
      · exact .inr ⟨_, .nothing _, .again differs known later⟩
      · rcases inductionHypothesis rfl with ⟨isFound, inFirst⟩ | ⟨since, inFirst, inSecond⟩
        · exact .inl ⟨isFound, .again differs known inFirst⟩
        · exact .inr ⟨since, .again differs known inFirst, inSecond⟩
  | inherited differs isNew inner _ =>
      rcases List.append_eq_cons_iff.mp whole with ⟨rfl, rfl⟩ | ⟨others, rfl, rfl⟩
      · exact .inr ⟨_, .nothing _, .inherited differs isNew inner⟩
      · exact .inl ⟨rfl, .inherited differs isNew inner⟩
  | beyond differs isNew inner later _ inductionHypothesis =>
      rcases List.append_eq_cons_iff.mp whole with ⟨rfl, rfl⟩ | ⟨others, rfl, rfl⟩
      · exact .inr ⟨_, .nothing _, .beyond differs isNew inner later⟩
      · rcases inductionHypothesis rfl with ⟨isFound, inFirst⟩ | ⟨since, inFirst, inSecond⟩
        · exact .inl ⟨isFound, .beyond differs isNew inner inFirst⟩
        · exact .inr ⟨since, .beyond differs isNew inner inFirst, inSecond⟩
  | @bounded _ _ ty bound rest _ isBound later inductionHypothesis =>
      rcases List.append_eq_cons_iff.mp whole with ⟨rfl, rfl⟩ | ⟨others, rfl, rfl⟩
      · exact .inr ⟨_, .nothing _, .bounded isBound later⟩
      · rcases @inductionHypothesis (bound :: others) rfl with
          ⟨isFound, inFirst⟩ | ⟨since, inFirst, inSecond⟩
        · exact .inl ⟨isFound, .bounded isBound inFirst⟩
        · exact .inr ⟨since, .bounded isBound inFirst, inSecond⟩
  | skips noClass noBound later inductionHypothesis =>
      rcases List.append_eq_cons_iff.mp whole with ⟨rfl, rfl⟩ | ⟨others, rfl, rfl⟩
      · exact .inr ⟨_, .nothing _, .skips noClass noBound later⟩
      · rcases inductionHypothesis rfl with ⟨isFound, inFirst⟩ | ⟨since, inFirst, inSecond⟩
        · exact .inl ⟨isFound, .skips noClass noBound inFirst⟩
        · exact .inr ⟨since, .skips noClass noBound inFirst, inSecond⟩

end Searches

/-- A search finds the class of its target that the walk through the same types
meets. -/
theorem Walks.exists_searches
    {table : ClassTable}
    {target : String}
    {visited : List String}
    {pending met : List ClassType}
    (walks : Walks table.parents visited pending met)
    (isNew : target ∉ visited)
    {types : List Ty}
    (classes : types.filterMap Ty.inheritingClass? = pending) :
    ∃ after, table.Searches target visited types after
      (met.find? fun classType => classType.name == target) := by
  induction walks generalizing types with
  | done visited =>
      have searches : table.Searches target visited (types ++ []) visited none :=
        .ofClassless_append (List.filterMap_eq_nil_iff.mp classes) (.nothing visited)
      rw [List.append_nil] at searches
      exact ⟨visited, searches⟩
  | @again _ classType _ _ known later inductionHypothesis =>
      obtain ⟨skipped, ty, others, rfl, noClass, isClass, restClasses⟩ :=
        List.filterMap_eq_cons_iff.mp classes
      obtain ⟨after, searches⟩ := inductionHypothesis isNew restClasses
      have differs : classType.name ≠ target := fun same => isNew (same ▸ known)
      exact ⟨after, .ofClassless_append noClass (.ofClass isClass (.again differs known searches))⟩
  | @enters visited classType rest met classNew later inductionHypothesis =>
      obtain ⟨skipped, ty, others, rfl, noClass, isClass, restClasses⟩ :=
        List.filterMap_eq_cons_iff.mp classes
      obtain ⟨name, args⟩ := classType
      by_cases same : name = target
      · subst same
        refine ⟨visited, .ofClassless_append noClass (.ofClass isClass ?_)⟩
        rw [List.find?_cons_of_pos (by simp)]
        exact .finds visited args others
      · rw [List.find?_cons_of_neg (by simpa using same)]
        have classesAhead : (table.directSupertypes ⟨name, args⟩ ++ others).filterMap
            Ty.inheritingClass? = table.parents ⟨name, args⟩ ++ rest := by
          rw [List.filterMap_append, restClasses]
          rfl
        have stillNew : target ∉ name :: visited := by
          simp [isNew, Ne.symm same]
        obtain ⟨after, searches⟩ := inductionHypothesis stillNew classesAhead
        refine ⟨after, .ofClassless_append noClass (.ofClass isClass ?_)⟩
        -- What is found among the supertypes ends the search of the whole list.
        rcases searches.split with ⟨isFound, inner⟩ | ⟨since, inner, searchesOthers⟩
        · obtain ⟨found, isThis⟩ := Option.isSome_iff_exists.mp isFound
          rw [isThis] at inner ⊢
          exact .inherited same classNew inner
        · exact .beyond same classNew inner searchesOthers

/-- The search for a supertype ends, and its result is the one of the table. -/
theorem searches_iff
    (table : ClassTable)
    (ty : Ty)
    (target : String)
    (found : Option ClassType) :
    (∃ after, table.Searches target [] [ty] after found) ↔
      found = table.findSupertype ty target := by
  have classes : [ty].filterMap Ty.inheritingClass? = ty.inheritingClass?.toList := by
    cases isClass : ty.inheritingClass? <;> simp [isClass]
  have isNew : target ∉ ([] : List String) := List.not_mem_nil
  obtain ⟨after, searches⟩ := (table.walks_parents _).exists_searches isNew classes
  constructor
  · rintro ⟨otherAfter, again⟩
    exact (again.unique searches).2
  · rintro rfl
    exact ⟨after, searches⟩

/-!
## The search for a method
-/

/-- The search for a method takes class types off a list: one of a name that has
not been visited either declares the method or is replaced by the class types
among its supertypes. -/
inductive Looks
    (table : ClassTable)
    (name : String) :
    (visited : List String) →
    (pending : List ClassType) →
    (found : Option FoundMethod) →
    Prop where
  | nothing
      (visited : List String) :
      Looks table name visited [] none
  | again
      {visited : List String}
      {classType : ClassType}
      {rest : List ClassType}
      {found : Option FoundMethod}
      (known : classType.name ∈ visited)
      (later : Looks table name visited rest found) :
      Looks table name visited (classType :: rest) found
  | declared
      {visited : List String}
      {classType : ClassType}
      {rest : List ClassType}
      {found : FoundMethod}
      (isNew : classType.name ∉ visited)
      (declares : table.declaredMethod? name classType = some found) :
      Looks table name visited (classType :: rest) (some found)
  | inherited
      {visited : List String}
      {classType : ClassType}
      {rest : List ClassType}
      {found : Option FoundMethod}
      (isNew : classType.name ∉ visited)
      (undeclared : table.declaredMethod? name classType = none)
      (later : Looks table name (classType.name :: visited)
        (table.parentClasses classType ++ rest) found) :
      Looks table name visited (classType :: rest) found

/-- A search for a method has one result. -/
theorem Looks.unique
    {table : ClassTable}
    {name : String}
    {visited : List String}
    {pending : List ClassType}
    {found other : Option FoundMethod}
    (looks : table.Looks name visited pending found)
    (again : table.Looks name visited pending other) :
    found = other := by
  induction looks generalizing other with
  | nothing visited =>
      cases again
      rfl
  | again known later inductionHypothesis =>
      cases again with
      | again _ laterAgain => exact inductionHypothesis laterAgain
      | declared isNew | inherited isNew => exact absurd known isNew
  | declared isNew declares =>
      cases again with
      | again known => exact absurd known isNew
      | declared _ declaresAgain => exact declares.symm.trans declaresAgain
      | inherited _ undeclared => cases declares.symm.trans undeclared
  | inherited isNew undeclared later inductionHypothesis =>
      cases again with
      | again known => exact absurd known isNew
      | declared _ declares => cases declares.symm.trans undeclared
      | inherited _ _ laterAgain => exact inductionHypothesis laterAgain

/-- A search for a method finds what the first class declares that the walk through
the same list meets. -/
theorem Walks.looks
    {table : ClassTable}
    {visited : List String}
    {pending met : List ClassType}
    (walks : Walks table.parentClasses visited pending met)
    (name : String) :
    table.Looks name visited pending (met.findSome? (table.declaredMethod? name)) := by
  induction walks with
  | done visited =>
      exact .nothing visited
  | again known later inductionHypothesis =>
      exact .again known inductionHypothesis
  | @enters _ classType _ _ isNew later inductionHypothesis =>
      rw [List.findSome?_cons]
      cases declares : table.declaredMethod? name classType with
      | none =>
          exact .inherited isNew declares inductionHypothesis
      | some found =>
          exact .declared isNew declares

/-- The search for a method ends, and its result is the one of the table. -/
theorem looks_iff
    (table : ClassTable)
    (receiver : Ty)
    (name : String)
    (found : Option FoundMethod) :
    table.Looks name [] (table.receiverClasses receiver) found ↔
      found = table.lookupMethod receiver name := by
  have looks := (table.walks_parentClasses (table.receiverClasses receiver)).looks name
  constructor
  · exact fun again => again.unique looks
  · rintro rfl
    exact looks

/-!
## What the searches reach

A chain of supertypes goes through the bounds of variables and wildcards. Which
names it comes to does not depend on type arguments where classes inherit from
class types only, so a name that has been visited need not be entered again.
-/

/-- A chain of direct supertypes that leads from a type to a class. -/
inductive LeadsTo
    (table : ClassTable) :
    Ty →
    ClassType →
    Prop where
  | here
      (name : String)
      (args : List Ty) :
      LeadsTo table (.classType name args) ⟨name, args⟩
  | bounded
      {ty bound : Ty}
      {ancestor : ClassType}
      (isBound : ty.upperBound? = some bound)
      (later : LeadsTo table bound ancestor) :
      LeadsTo table ty ancestor
  | inherits
      {name : String}
      {args : List Ty}
      {supertype : Ty}
      {ancestor : ClassType}
      (isDirect : supertype ∈ table.directSupertypes ⟨name, args⟩)
      (later : LeadsTo table supertype ancestor) :
      LeadsTo table (.classType name args) ancestor

/-- Whether a class declares a method of a name. -/
def declares
    (table : ClassTable)
    (className name : String) :
    Bool :=
  ((table.class? className).bind fun info => info.methods.find? name).isSome

/-- A method is found in a class type if its class declares one. -/
theorem isSome_declaredMethod?
    (table : ClassTable)
    (name : String)
    (classType : ClassType) :
    (table.declaredMethod? name classType).isSome = table.declares classType.name name := by
  unfold declaredMethod? declares
  cases table.class? classType.name with
  | none =>
      rfl
  | some info =>
      cases declared : info.methods.find? name <;> simp [declared]

namespace LeadsTo

variable
  {table : ClassTable}
  {ancestor : ClassType}

/-- A type leads wherever the class leads through which it inherits. -/
theorem through :
    ∀ {ty : Ty} {first : ClassType},
      ty.inheritingClass? = some first →
      table.LeadsTo first.toTy ancestor →
      table.LeadsTo ty ancestor
  | .classType _ _, _, isClass, leads => by
      cases isClass
      exact leads
  | .wildcard, _, isClass, leads => by
      cases isClass
      exact .bounded rfl leads
  | .typeVar _ _, _, isClass, leads | .wildcardExtends _, _, isClass, leads =>
      .bounded rfl (through isClass leads)
  | .primitive _, _, isClass, _ | .array _, _, isClass, _ | .null, _, isClass, _
  | .void, _, isClass, _ | .unknown, _, isClass, _ => by
      cases isClass

/-- A chain of supertypes starts at the class through which a type inherits. -/
theorem exists_first
    {ty : Ty}
    (leads : table.LeadsTo ty ancestor) :
    ∃ first, ty.inheritingClass? = some first ∧ table.LeadsTo first.toTy ancestor := by
  induction leads with
  | here name args =>
      exact ⟨⟨name, args⟩, rfl, .here name args⟩
  | bounded isBound later inductionHypothesis =>
      rwa [Ty.inheritingClass?_upperBound? isBound]
  | @inherits name args _ _ isDirect later inductionHypothesis =>
      exact ⟨⟨name, args⟩, rfl, .inherits isDirect later⟩

/-- A chain of supertypes is extended by a class that its end goes on to. -/
theorem extend
    {ty : Ty}
    (leads : table.LeadsTo ty ancestor)
    {parent : ClassType}
    (goesOn : parent ∈ table.parents ancestor) :
    table.LeadsTo ty parent := by
  induction leads with
  | here name args =>
      obtain ⟨supertype, isDirect, isClass⟩ := List.mem_filterMap.mp goesOn
      exact .inherits isDirect (.through isClass (.here parent.name parent.args))
  | bounded isBound later inductionHypothesis =>
      exact .bounded isBound (inductionHypothesis goesOn)
  | inherits isDirect later inductionHypothesis =>
      exact .inherits isDirect (inductionHypothesis goesOn)

end LeadsTo

/-- Uses of one class go on to classes of the same names. -/
theorem InheritsClasses.map_name_parents
    {table : ClassTable}
    (inherits : table.InheritsClasses)
    {first second : ClassType}
    (sameName : first.name = second.name) :
    (table.parents first).map ClassType.name = (table.parents second).map ClassType.name := by
  have related : List.Forall₂ (fun first second : ClassType => first.name = second.name)
      (table.parentClasses first) (table.parentClasses second) :=
    inherits.forall₂_parentClasses sameName fun _ _ _ => rfl
  rw [inherits.parents_eq, ← List.forall₂_eq_eq_eq, List.forall₂_map_left_iff,
    List.forall₂_map_right_iff]
  exact related

/-- Walks that end have met a class of every name that a chain of supertypes comes
to. -/
theorem LeadsTo.mem_names
    {table : ClassTable}
    (inherits : table.InheritsClasses)
    {start met : List ClassType}
    (walks : Walks table.parents [] start met)
    {ty : Ty}
    {ancestor : ClassType}
    (leads : table.LeadsTo ty ancestor)
    (starts : ∀ classType, ty.inheritingClass? = some classType →
      classType.name ∈ met.map ClassType.name) :
    ancestor.name ∈ met.map ClassType.name := by
  induction leads with
  | here name args =>
      exact starts ⟨name, args⟩ rfl
  | bounded isBound later inductionHypothesis =>
      refine inductionHypothesis fun classType isClass => starts classType ?_
      rw [Ty.inheritingClass?_upperBound? isBound, isClass]
  | @inherits name args supertype _ isDirect later inductionHypothesis =>
      refine inductionHypothesis fun parent isClass => ?_
      -- The name may have been visited with other arguments.
      obtain ⟨visited, inMet, sameName⟩ := List.mem_map.mp (starts ⟨name, args⟩ rfl)
      have inParents : parent.name ∈ (table.parents visited).map ClassType.name := by
        rw [inherits.map_name_parents sameName]
        exact List.mem_map_of_mem (List.mem_filterMap.mpr ⟨supertype, isDirect, isClass⟩)
      obtain ⟨following, goesOn, sameParent⟩ := List.mem_map.mp inParents
      rcases walks.covers.2 visited inMet following goesOn with known | covered
      · cases known
      · exact sameParent ▸ covered

/-- A walk meets a class of a name exactly if a chain of supertypes leads to one from a
class it starts at. -/
theorem InheritsClasses.mem_names_reachable
    {table : ClassTable}
    (inherits : table.InheritsClasses)
    (start : List ClassType)
    (name : String) :
    name ∈ (table.reachable table.parents start).map ClassType.name ↔
      ∃ first ∈ start, ∃ ancestor, table.LeadsTo first.toTy ancestor ∧ ancestor.name = name := by
  have walks := table.walks_parents start
  constructor
  · intro isMet
    obtain ⟨classType, inMet, rfl⟩ := List.mem_map.mp isMet
    obtain ⟨first, inStart, leads⟩ := walks.forall_met
      (fun classType => ∃ first ∈ start, table.LeadsTo first.toTy classType)
      (fun _ ⟨first, inStart, leads⟩ _ goesOn => ⟨first, inStart, leads.extend goesOn⟩)
      (fun classType inStart => ⟨classType, inStart, .here classType.name classType.args⟩)
      classType inMet
    exact ⟨first, inStart, classType, leads, rfl⟩
  · rintro ⟨first, inStart, ancestor, leads, rfl⟩
    refine leads.mem_names inherits walks fun classType isClass => ?_
    cases isClass
    rcases walks.covers.1 first inStart with known | covered
    · cases known
    · exact covered

/-- A supertype is found exactly if a chain of supertypes leads to one. -/
theorem InheritsClasses.isSome_findSupertype
    {table : ClassTable}
    (inherits : table.InheritsClasses)
    (ty : Ty)
    (target : String) :
    (table.findSupertype ty target).isSome = true ↔
      ∃ ancestor, table.LeadsTo ty ancestor ∧ ancestor.name = target := by
  have isMet : (table.findSupertype ty target).isSome = true ↔
      target ∈ (table.reachable table.parents ty.inheritingClass?.toList).map ClassType.name := by
    simp [findSupertype, List.find?_isSome]
  rw [isMet, inherits.mem_names_reachable]
  constructor
  · rintro ⟨first, isFirst, ancestor, leads, isTarget⟩
    exact ⟨ancestor, leads.through (Option.mem_toList.mp isFirst), isTarget⟩
  · rintro ⟨ancestor, leads, isTarget⟩
    obtain ⟨first, isFirst, leadsFirst⟩ := leads.exists_first
    exact ⟨first, Option.mem_toList.mpr isFirst, ancestor, leadsFirst, isTarget⟩

/-- A method is found exactly if a chain of supertypes leads to a class that declares
it, from a class at which the search starts. -/
theorem InheritsClasses.isSome_lookupMethod
    {table : ClassTable}
    (inherits : table.InheritsClasses)
    (receiver : Ty)
    (name : String) :
    (table.lookupMethod receiver name).isSome = true ↔
      ∃ first ∈ table.receiverClasses receiver, ∃ owner, table.LeadsTo first.toTy owner ∧
        table.declares owner.name name = true := by
  have isMet : (table.lookupMethod receiver name).isSome = true ↔
      ∃ className ∈ (table.reachable table.parents (table.receiverClasses receiver)).map
        ClassType.name, table.declares className name = true := by
    simp [lookupMethod, List.findSome?_isSome_iff, isSome_declaredMethod?, inherits.parents_eq]
  simp only [isMet, inherits.mem_names_reachable]
  constructor
  · rintro ⟨_, ⟨first, isFirst, owner, leads, rfl⟩, declares⟩
    exact ⟨first, isFirst, owner, leads, declares⟩
  · rintro ⟨first, isFirst, owner, leads, declares⟩
    exact ⟨owner.name, ⟨first, isFirst, owner, leads, rfl⟩, declares⟩

/-- On every table whose classes inherit from class types, both searches end with the
result of the table. A supertype is found exactly if a chain of supertypes leads
to a class of the target's name, and a method of a class exactly if a chain leads
to a class that declares it; the chains of an interface may also start at the root
class. -/
theorem searches_complete
    {table : ClassTable}
    (inherits : table.InheritsClasses)
    (ty : Ty)
    (target name : String) :
    (∀ found, (∃ after, table.Searches target [] [ty] after found) ↔
      found = table.findSupertype ty target) ∧
    (∀ found, table.Looks name [] (table.receiverClasses ty) found ↔
      found = table.lookupMethod ty name) ∧
    ((table.findSupertype ty target).isSome = true ↔
      ∃ ancestor, table.LeadsTo ty ancestor ∧ ancestor.name = target) ∧
    ∀ receiver : ClassType, ty = receiver.toTy →
      ((table.lookupMethod ty name).isSome = true ↔
        ∃ owner,
          (table.LeadsTo ty owner ∨
            table.isInterface ty = true ∧ table.LeadsTo .object owner) ∧
          table.declares owner.name name = true) := by
  refine ⟨table.searches_iff ty target, table.looks_iff ty name,
    inherits.isSome_findSupertype ty target, ?_⟩
  rintro receiver rfl
  have starts : ∀ first, first ∈ table.receiverClasses receiver.toTy ↔
      first = receiver ∨ table.isInterface receiver.toTy = true ∧ first = .object := by
    intro first
    have isReceiver : receiverClass? receiver.toTy = some receiver := rfl
    simp only [receiverClasses, isReceiver]
    cases table.isInterface receiver.toTy <;> simp
  rw [inherits.isSome_lookupMethod]
  constructor
  · rintro ⟨first, inStart, owner, leads, declares⟩
    rcases (starts first).mp inStart with rfl | ⟨isInterface, rfl⟩
    · exact ⟨owner, .inl leads, declares⟩
    · exact ⟨owner, .inr ⟨isInterface, leads⟩, declares⟩
  · rintro ⟨owner, leads | ⟨isInterface, leads⟩, declares⟩
    · exact ⟨receiver, (starts receiver).mpr (.inl rfl), owner, leads, declares⟩
    · exact ⟨.object, (starts .object).mpr (.inr ⟨isInterface, rfl⟩), owner, leads, declares⟩

/-- Class types can be told from the declarations of a table. -/
theorem inheritsClasses_of_entries
    {table : ClassTable}
    (areClasses : ∀ entry ∈ table.classes, ∀ ty ∈ entry.2.supertypes,
      ty.classType?.isSome = true) :
    table.InheritsClasses := by
  intro name info found ty inSupertypes
  have isClass := areClasses _ (NameTable.mem_of_find? found) ty inSupertypes
  cases ty with
  | classType name args =>
      exact ⟨⟨name, args⟩, rfl⟩
  | _ =>
      cases isClass

/-- A class without methods. -/
def plainClass
    (name : String)
    (params : List String)
    (superclass : Option Ty)
    (interfaces : List Ty) :
    ClassInfo where
  name := name
  internalName := name
  typeParams := params.map Builtin.parameter
  isInterface := false
  superclass := superclass
  interfaces := interfaces
  methods := []

/-- Two classes that inherit from each other, each time at a larger type, one of them
also from a class that is not declared. -/
def growingClasses :
    ClassTable :=
  (builtin.addClass
    (plainClass "Seed" ["T"] (some (.classType "Plant" [.classType "Seed"
      [.classType "Seed" [Builtin.varOf "T"]]])) [])).addClass
    (plainClass "Plant" ["T"] (some (.classType "Seed" [Builtin.varOf "T"])) [.named "Absent"])

/-- Chains of supertypes never end there, but the searches do: the undeclared class is
found, and neither the root class nor a method of it. -/
theorem growingClasses_searches_complete :
    growingClasses.InheritsClasses ∧
      (∃ ancestor, growingClasses.LeadsTo (.classType "Seed" [.string]) ancestor ∧
        ancestor.name = "Absent") ∧
      ¬(∃ ancestor, growingClasses.LeadsTo (.classType "Seed" [.string]) ancestor ∧
        ancestor.name = "Object") ∧
      growingClasses.Looks "hashCode" [] [⟨"Seed", [.string]⟩] none := by
  have inherits : growingClasses.InheritsClasses := inheritsClasses_of_entries (by decide +kernel)
  have absent := searches_complete inherits (.classType "Seed" [.string]) "Absent" "hashCode"
  have root := searches_complete inherits (.classType "Seed" [.string]) "Object" "hashCode"
  refine ⟨inherits, absent.2.2.1.mp (by decide +kernel), fun leads => ?_,
    (absent.2.1 none).mpr (by decide +kernel)⟩
  exact absurd (root.2.2.1.mpr leads) (by decide +kernel)

/-- A table in which the root class inherits from a class with a method, and an
interface inherits from nothing. -/
def inheritingRoot :
    ClassTable :=
  ((builtin.addClass
    { plainClass "Base" [] none [] with methods := .ofList [("depth", ⟨[], .int⟩)] }).addClass
    (plainClass "Object" [] (some (.named "Base")) [])).addClass
    { plainClass "Marker" [] none [] with isInterface := true }

/-- The method of the base class is found through the interface, although neither a class
that the interface leads to nor the root class declares it. -/
theorem inheritingRoot_looksBeyond :
    inheritingRoot.InheritsClasses ∧
      (inheritingRoot.lookupMethod (.named "Marker") "depth").isSome = true ∧
      ¬∃ owner,
        (inheritingRoot.LeadsTo (.named "Marker") owner ∨
          inheritingRoot.isInterface (.named "Marker") = true ∧ owner = .object) ∧
        inheritingRoot.declares owner.name "depth" = true := by
  refine ⟨inheritsClasses_of_entries (by decide +kernel), by decide +kernel, ?_⟩
  rintro ⟨owner, leads | ⟨-, rfl⟩, declares⟩
  · have noSupertypes : inheritingRoot.directSupertypes ⟨"Marker", []⟩ = [] := by decide +kernel
    cases leads with
    | here =>
        exact absurd declares (by decide +kernel)
    | bounded isBound =>
        cases isBound
    | inherits isDirect =>
        rw [noSupertypes] at isDirect
        cases isDirect
  · exact absurd declares (by decide +kernel)

end ClassTable

end LoopLowering
