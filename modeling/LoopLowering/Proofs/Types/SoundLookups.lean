import LoopLowering.Loop.Classify
import LoopLowering.Proofs.Types.HierarchyWalks
import LoopLowering.Proofs.Types.SoundTables

namespace LoopLowering

/-!
# Sound lookups

What a sound table finds through a type of values mentions types of values
only: inherited classes, methods, and the elements of collections. A method is
declared with values of the same primitive types as the receiver sees.
-/

namespace ClassType

/-- Whether a class is instantiated at types of values. -/
def isSound
    (strict : Bool)
    (classType : ClassType) :
    Bool :=
  Ty.areArguments strict classType.args

end ClassType

namespace Ty

/-- The class of a type of values is sound. -/
theorem isSound_classType?
    {strict : Bool}
    {ty : Ty}
    (value : ty.isValue strict = true)
    {classType : ClassType}
    (found : ty.classType? = some classType) :
    classType.isSound strict = true := by
  cases ty with
  | classType name args =>
      cases found
      simpa only [ClassType.isSound, isValue] using value
  | _ =>
      cases found

/-- The class through which a type of values inherits is sound. -/
theorem isSound_inheritingClass?
    {strict : Bool} :
    ∀ {ty : Ty} {classType : ClassType},
      ty.isValue strict = true →
      ty.inheritingClass? = some classType →
      classType.isSound strict = true
  | .classType _ _, _, value, found => by
      cases found
      simpa only [ClassType.isSound, isValue] using value
  | .typeVar _ _, _, value, found | .wildcardExtends _, _, value, found => by
      simp only [isValue, Bool.and_eq_true] at value
      exact isSound_inheritingClass? value.1 found
  | .wildcard, _, _, found => by
      cases found
      rfl
  | .primitive _, _, _, found | .array _, _, _, found | .null, _, _, found
  | .void, _, _, found | .unknown, _, _, found => by
      cases found

end Ty

namespace ClassInfo

variable
  {strict : Bool}
  {info : ClassInfo}
  {args : List Ty}

/-- The parameters of a class are bound to its arguments. -/
theorem bindsArguments_bindings
    (arguments : Ty.areArguments strict args = true) :
    Ty.BindsArguments strict (info.bindings args) := by
  intro entry member
  have inZip := List.mem_reverse.mp member
  exact (Ty.areArguments_iff strict args).mp arguments _ (List.of_mem_zip inZip).2

/-- A declared type of values is seen as one. -/
theorem isValue_seenFrom
    (arguments : Ty.areArguments strict args = true)
    {ty : Ty}
    (value : ty.isValue strict = true) :
    (info.seenFrom args ty).isValue strict = true := by
  unfold seenFrom
  split
  · exact Ty.isValue_erasure value
  · exact Ty.isValue_substitute (bindsArguments_bindings arguments) value

/-- A declared result without a value is seen as one. -/
theorem seenFrom_void :
    info.seenFrom args .void = .void := by
  simp [seenFrom, Ty.erasure, Ty.substitute]

/-- A sound signature is seen as one. -/
theorem isSound_seenFrom
    (arguments : Ty.areArguments strict args = true)
    {signature : Signature}
    (sound : signature.isSound strict = true) :
    (signature.map (info.seenFrom args)).isSound strict = true := by
  simp only [Signature.isSound, Bool.and_eq_true, List.all_eq_true, Bool.or_eq_true,
    beq_iff_eq] at sound
  simp only [Signature.isSound, Signature.map, Bool.and_eq_true, List.all_eq_true, List.mem_map,
    Bool.or_eq_true, beq_iff_eq]
  constructor
  · rintro seen ⟨param, member, rfl⟩
    exact isValue_seenFrom arguments (sound.1 param member)
  · rcases sound.2 with void | value
    · left
      rw [void, seenFrom_void]
    · right
      exact isValue_seenFrom arguments value

end ClassInfo

namespace ClassTable

variable
  {strict : Bool}
  {table : ClassTable}

/-- The direct supertypes of a sound class are types of values. -/
theorem isValue_of_mem_directSupertypes
    (tableSound : table.Sound strict)
    {classType : ClassType}
    (sound : classType.isSound strict = true)
    {ty : Ty}
    (member : ty ∈ table.directSupertypes classType) :
    ty.isValue strict = true := by
  unfold directSupertypes at member
  split at member
  · next info found =>
      obtain ⟨declared, inSupertypes, rfl⟩ := List.mem_map.mp member
      have infoSound := tableSound.classes _ (NameTable.mem_of_find? found)
      simp only [ClassInfo.isSound, Bool.and_eq_true, List.all_eq_true] at infoSound
      exact ClassInfo.isValue_seenFrom sound (infoSound.1 declared inSupertypes)
  · simp at member

/-- The classes a sound class inherits from are sound. -/
theorem isSound_of_mem_parents
    (tableSound : table.Sound strict)
    {classType parent : ClassType}
    (sound : classType.isSound strict = true)
    (member : parent ∈ table.parents classType) :
    parent.isSound strict = true := by
  obtain ⟨ty, inSupertypes, found⟩ := List.mem_filterMap.mp member
  exact Ty.isSound_inheritingClass?
    (isValue_of_mem_directSupertypes tableSound sound inSupertypes) found

/-- The classes among the supertypes of a sound class are sound. -/
theorem isSound_of_mem_parentClasses
    (tableSound : table.Sound strict)
    {classType parent : ClassType}
    (sound : classType.isSound strict = true)
    (member : parent ∈ table.parentClasses classType) :
    parent.isSound strict = true := by
  obtain ⟨ty, inSupertypes, found⟩ := List.mem_filterMap.mp member
  exact Ty.isSound_classType?
    (isValue_of_mem_directSupertypes tableSound sound inSupertypes) found

/-- A class that the type of an expression inherits from is sound, and only a
type of values inherits from one. -/
theorem isSound_findSupertype
    (tableSound : table.Sound strict)
    {ty : Ty}
    (result : ty.IsResult strict)
    {target : String}
    {found : ClassType}
    (finds : table.findSupertype ty target = some found) :
    found.isSound strict = true ∧ ty.isValue strict = true := by
  have value : ty.isValue strict = true := by
    rcases result with rfl | rfl | value
    · simp [findSupertype, reachable, Ty.inheritingClass?, walk_nil] at finds
    · simp [findSupertype, reachable, Ty.inheritingClass?, walk_nil] at finds
    · exact value
  refine ⟨?_, value⟩
  refine (table.walks_parents _).forall_met (fun classType => classType.isSound strict = true)
    (fun _ sound _ member => isSound_of_mem_parents tableSound sound member) ?_ found
    (List.mem_of_find?_eq_some finds)
  intro classType member
  exact Ty.isSound_inheritingClass? value (Option.mem_toList.mp member)

/-- The class whose methods a receiver has is sound. -/
theorem isSound_receiverClass?
    {receiver : Ty}
    (result : receiver.IsResult strict)
    {classType : ClassType}
    (found : receiverClass? receiver = some classType) :
    classType.isSound strict = true := by
  rcases result with rfl | rfl | value
  · cases found
  · cases found
  cases receiver with
  | classType name args =>
      cases found
      simpa only [ClassType.isSound, Ty.isValue] using value
  | typeVar name bound | wildcardExtends bound =>
      simp only [Ty.isValue, Bool.and_eq_true] at value
      exact Ty.isSound_classType? (Ty.isValue_erasure value.1) found
  | wildcard | array component =>
      cases found
      rfl
  | _ =>
      cases found

/-- The search for a method starts at sound classes. -/
theorem isSound_of_mem_receiverClasses
    {receiver : Ty}
    (result : receiver.IsResult strict)
    {classType : ClassType}
    (member : classType ∈ table.receiverClasses receiver) :
    classType.isSound strict = true := by
  unfold receiverClasses at member
  split at member
  · next start found =>
      have startSound := isSound_receiverClass? result found
      split at member
      · simp only [List.mem_cons, List.not_mem_nil, or_false] at member
        rcases member with rfl | rfl
        · exact startSound
        · rfl
      · rw [List.mem_singleton.mp member]
        exact startSound
  · simp at member

/-- What is known of a method found through the type of an expression. -/
structure FoundMethod.IsSound
    (strict : Bool)
    (found : FoundMethod) :
    Prop where
  declared : found.declared.isSound strict = true
  seen : found.seen.isSound strict = true
  /-- The receiver sees the declared types through some instantiation. -/
  instantiated : ∃ info args, Ty.areArguments strict args = true ∧
    found.seen = found.declared.map (ClassInfo.seenFrom info args)

/-- A method found through the type of an expression is sound. -/
theorem isSound_lookupMethod
    (tableSound : table.Sound strict)
    {receiver : Ty}
    (result : receiver.IsResult strict)
    {name : String}
    {found : FoundMethod}
    (finds : table.lookupMethod receiver name = some found) :
    found.IsSound strict := by
  obtain ⟨classType, member, declares⟩ := List.exists_of_findSome?_eq_some finds
  have classSound : classType.isSound strict = true :=
    (table.walks_parentClasses _).forall_met (fun classType => classType.isSound strict = true)
      (fun _ sound _ inNext => isSound_of_mem_parentClasses tableSound sound inNext)
      (fun _ inStart => isSound_of_mem_receiverClasses result inStart) classType member
  obtain ⟨info, declared, infoFound, declaredFound, rfl⟩ := declaredMethod?_eq_some.mp declares
  have infoSound := tableSound.classes _ (NameTable.mem_of_find? infoFound)
  simp only [ClassInfo.isSound, Bool.and_eq_true, List.all_eq_true] at infoSound
  have declaredSound := infoSound.2 _ (NameTable.mem_of_find? declaredFound)
  exact ⟨declaredSound, ClassInfo.isSound_seenFrom classSound declaredSound,
    info, classType.args, classSound, rfl⟩

/-- A method that is found is declared in some class. -/
theorem exists_declared_of_lookupMethod
    {receiver : Ty}
    {name : String}
    {found : FoundMethod}
    (finds : table.lookupMethod receiver name = some found) :
    ∃ entry ∈ table.classes, ∃ method ∈ entry.2.methods, method.2 = found.declared := by
  obtain ⟨classType, -, declares⟩ := List.exists_of_findSome?_eq_some finds
  obtain ⟨info, declared, infoFound, declaredFound, rfl⟩ := declaredMethod?_eq_some.mp declares
  exact ⟨_, NameTable.mem_of_find? infoFound, _, NameTable.mem_of_find? declaredFound, rfl⟩

/-- Only references have methods. -/
theorem isReference_of_lookupMethod
    {receiver : Ty}
    {name : String}
    {found : FoundMethod}
    (finds : table.lookupMethod receiver name = some found) :
    receiver.isReference = true := by
  cases receiver with
  | primitive | null | void | unknown =>
      simp [lookupMethod, receiverClasses, receiverClass?, reachable, walk_nil] at finds
  | _ =>
      rfl

/-- A method takes as many arguments as the receiver sees. -/
theorem FoundMethod.IsSound.length_params
    {found : FoundMethod}
    (sound : found.IsSound strict) :
    found.seen.params.length = found.declared.params.length := by
  obtain ⟨info, args, -, seen⟩ := sound.instantiated
  simp [seen, Signature.map]

end ClassTable

namespace Ty

/-- The type of an element that an iterator produces. -/
def IsElement
    (strict : Bool)
    (ty : Ty) :
    Prop :=
  ty.isValue strict = true ∧ (strict = true → ty.isPrimitive = false)

/-- The root class can be the type of elements. -/
theorem isElement_object
    (strict : Bool) :
    object.IsElement strict := by
  simp [IsElement, object, isValue, areArguments, isPrimitive]

/-- What a class can be instantiated at can be the type of elements. -/
theorem IsArgument.isElement
    {strict : Bool}
    {ty : Ty}
    (argument : ty.IsArgument strict) :
    ty.IsElement strict :=
  ⟨argument.1, fun _ => argument.2⟩

/-- The upper bound of a wildcard can be the type of elements. -/
theorem IsArgument.isElement_wildcardBound?
    {strict : Bool}
    {ty bound : Ty}
    (argument : ty.IsArgument strict)
    (bounds : ty.wildcardBound? = some bound) :
    bound.IsElement strict := by
  cases ty with
  | wildcard =>
      cases bounds
      exact isElement_object strict
  | wildcardExtends bound =>
      cases bounds
      simp only [IsArgument, isValue, Bool.and_eq_true, Bool.not_eq_true',
        Bool.and_eq_false_iff] at argument
      refine ⟨argument.1.1, fun isStrict => ?_⟩
      rcases argument.1.2 with lenient | primitive
      · simp [lenient] at isStrict
      · exact primitive
  | _ =>
      cases bounds

end Ty

/-- Each bound of a list of wildcards is the bound of one of them. -/
theorem Ty.exists_of_mem_wildcardBounds :
    ∀ {args bounds : List Ty} {bound : Ty},
      args.mapM wildcardBound? = some bounds →
      bound ∈ bounds →
      ∃ arg ∈ args, arg.wildcardBound? = some bound
  | [], bounds, bound, bounded, member => by
      cases bounded
      simp at member
  | arg :: rest, bounds, bound, bounded, member => by
      simp only [List.mapM_cons, Option.bind_eq_bind, Option.bind_eq_some_iff, Option.pure_def,
        Option.some.injEq] at bounded
      obtain ⟨first, firstBound, others, othersBound, rfl⟩ := bounded
      rcases List.mem_cons.mp member with rfl | inRest
      · exact ⟨arg, by simp, firstBound⟩
      · obtain ⟨found, inArgs, foundBound⟩ := exists_of_mem_wildcardBounds othersBound inRest
        exact ⟨found, by simp [inArgs], foundBound⟩

/-- The types an iteration may produce, when the interface is instantiated at
types of values. -/
theorem IterableArguments.isElement_of_mem_elementTypes
    {strict : Bool}
    {args : List Ty}
    (arguments : ∀ ty ∈ args, ty.IsArgument strict)
    {ty : Ty}
    (member : ty ∈ (ofArgs args).elementTypes) :
    ty.IsElement strict := by
  unfold ofArgs at member
  split at member
  · simp [elementTypes] at member
  · split at member
    · next bounds bounded =>
        obtain ⟨arg, inArgs, bound⟩ := Ty.exists_of_mem_wildcardBounds bounded member
        exact (arguments arg inArgs).isElement_wildcardBound? bound
    · exact (arguments ty member).isElement

namespace ClassTable

variable
  {strict : Bool}
  {table : ClassTable}

/-- What is known of a collection that can be iterated and of its elements. -/
structure IsIterated
    (strict : Bool)
    (collection : Ty)
    (shape : LoopShape)
    (element : Ty) :
    Prop where
  isValue_collection : collection.isValue strict = true
  isValue_element : element.isValue strict = true
  /-- Only an array has primitive elements, if types are strict. -/
  isElement : shape ≠ .array → element.IsElement strict
  isArray : shape = .array → collection = Ty.array element

/-- A collection that can be iterated is a value, and so are its elements. -/
theorem isIterated_loopShape
    (tableSound : table.Sound strict)
    {collection : Ty}
    (result : collection.IsResult strict)
    {shape : LoopShape}
    {element : Ty}
    (found : table.loopShape collection = .ok (shape, element)) :
    IsIterated strict collection shape element := by
  unfold loopShape at found
  split at found
  · next =>
      cases found
      have value : (Ty.array element).isValue strict = true := by
        rcases result with isNull | isVoid | value
        · cases isNull
        · cases isVoid
        · exact value
      exact ⟨value, by simpa only [Ty.isValue] using value, by simp, by simp⟩
  · split at found
    · cases found
    next capability iterates =>
      obtain ⟨supertype, finds, rfl⟩ := Option.map_eq_some_iff.mp iterates
      obtain ⟨supertypeSound, value⟩ := isSound_findSupertype tableSound result finds
      have arguments : ∀ ty ∈ supertype.args, ty.IsArgument strict :=
        (Ty.areArguments_iff strict _).mp supertypeSound
      have elements : ∀ ty, ty ∈ (IterableArguments.ofArgs supertype.args).elementTypes →
          ty.IsElement strict :=
        fun _ member => IterableArguments.isElement_of_mem_elementTypes arguments member
      simp only at found
      split at found
      · cases found
        exact ⟨value, (Ty.isElement_object strict).1, fun _ => Ty.isElement_object strict, nofun⟩
      all_goals
        next kind =>
          cases found
          try
            have isElement := elements element (by simp [kind, IterableArguments.elementTypes])
            exact ⟨value, isElement.1, fun _ => isElement, nofun⟩

end ClassTable

end LoopLowering
