import LoopLowering.Proofs.Machine.ExpressionKinds

namespace LoopLowering

/-!
# Reading descriptors

A machine tells the operands of a call by its descriptor. A descriptor reads as
it was written if no name in it has the character that ends a name.
-/

namespace MethodShape

/-- What follows a class name. -/
def skipName :
    List Char → Option (List Char)
  | [] => none
  | char :: rest => if char = ';' then some rest else skipName rest

/-- The kind of the values of the type that a text starts with, and what
follows the type. -/
def readKind :
    List Char → Option (ValueKind × List Char)
  | [] => none
  | char :: rest =>
      match char with
      | 'B' | 'C' | 'I' | 'S' | 'Z' => some (.int, rest)
      | 'J' => some (.long, rest)
      | 'F' => some (.float, rest)
      | 'D' => some (.double, rest)
      | 'L' => (skipName rest).map (fun others => (.reference, others))
      | '[' => (readKind rest).map (fun found => (.reference, found.2))
      | _ => none

/-- The kinds of the parameters that a text starts with, up to the end of the
parameters, and what follows them. -/
def readParams :
    (limit : Nat) → List Char → Option (List ValueKind × List Char)
  | _, [] | 0, _ => none
  | limit + 1, char :: rest =>
      if char = ')' then
        some ([], rest)
      else do
        let (kind, others) ← readKind (char :: rest)
        let (kinds, last) ← readParams limit others
        return (kind :: kinds, last)

/-- What a machine reads from the characters of a descriptor. -/
def ofChars
    (chars : List Char) :
    Option MethodShape :=
  match chars with
  | '(' :: rest => do
      let (params, result) ← readParams rest.length rest
      if result = ['V'] then
        return ⟨params, none⟩
      else
        let (kind, last) ← readKind result
        if last.isEmpty then some ⟨params, some kind⟩ else none
  | _ => none

/-- What a machine reads from a descriptor. -/
def ofDescriptor :
    DescriptorReader :=
  fun descriptor => ofChars descriptor.toList

/-- A class name that does not have the character that ends it is skipped. -/
theorem skipName_append
    (rest : List Char) :
    ∀ {name : List Char},
      ';' ∉ name →
      skipName (name ++ ';' :: rest) = some rest
  | [], _ => by
      simp [skipName]
  | char :: others, plain => by
      simp only [List.mem_cons, not_or] at plain
      simp [skipName, Ne.symm plain.1, skipName_append rest plain.2]

end MethodShape

namespace ClassTable

/-- Whether no class name in the descriptor of a type has the character that
ends a name. -/
def isPlain
    (table : ClassTable) :
    Ty → Bool
  | .classType name _ => !(table.internalName name).toList.contains ';'
  | .array component => table.isPlain component
  | .typeVar _ bound | .wildcardExtends bound => table.isPlain bound
  | .wildcard | .null | .unknown => !(table.internalName "Object").toList.contains ';'
  | .primitive _ | .void => true

/-- Whether the descriptor of a signature is plain. -/
def isPlainSignature
    (table : ClassTable)
    (signature : Signature) :
    Bool :=
  signature.params.all table.isPlain && table.isPlain signature.returnType

/-- Whether every descriptor that code may refer to is plain. -/
def hasPlainNames
    (table : ClassTable) :
    Bool :=
  table.functions.all (fun entry => table.isPlainSignature entry.2.signature) &&
    table.classes.all (fun entry =>
      entry.2.methods.all (fun method => table.isPlainSignature method.2)) &&
    Primitive.all.all (fun kind => table.isPlain (boxed kind)) &&
    table.isPlain .object && table.isPlain (.named "Iterator")

/-- The letter of a primitive type reads as the type. -/
theorem readKind_primitive
    (kind : Primitive)
    (rest : List Char) :
    MethodShape.readKind (kind.descriptor.toList ++ rest) = some (.ofPrimitive kind, rest) := by
  cases kind <;> rfl

/-- A class name in a descriptor reads as a reference. -/
theorem readKind_class
    {name : String}
    (plain : (!name.toList.contains ';') = true)
    (rest : List Char) :
    MethodShape.readKind (("L" ++ name ++ ";").toList ++ rest) = some (.reference, rest) := by
  simp only [Bool.not_eq_true', List.contains_eq_mem, decide_eq_false_iff_not] at plain
  have isName : ("L" ++ name ++ ";").toList ++ rest = 'L' :: (name.toList ++ ';' :: rest) := by
    simp
  rw [isName]
  simp only [MethodShape.readKind, MethodShape.skipName_append rest plain, Option.map_some]

/-- The descriptor of a type of values reads as the type. -/
theorem readKind_descriptor
    {strict : Bool}
    (table : ClassTable)
    (rest : List Char) :
    ∀ {ty : Ty},
      ty.isValue strict = true →
      table.isPlain ty = true →
      MethodShape.readKind ((table.descriptor ty.erasure).toList ++ rest) =
        some (.ofTy ty.erasure, rest)
  | .primitive kind, _, _ => readKind_primitive kind rest
  | .classType name args, _, plain | .wildcard, _, plain => readKind_class plain rest
  | .typeVar _ bound, value, plain | .wildcardExtends bound, value, plain => by
      simp only [Ty.isValue, Bool.and_eq_true] at value
      simp only [isPlain] at plain
      exact @readKind_descriptor strict table rest bound value.1 plain
  | .array component, value, plain => by
      simp only [Ty.isValue] at value
      simp only [isPlain] at plain
      have isArray : (table.descriptor (Ty.array component).erasure).toList ++ rest =
          '[' :: ((table.descriptor component.erasure).toList ++ rest) := by
        simp [Ty.erasure, descriptor]
      rw [isArray]
      simp only [MethodShape.readKind, readKind_descriptor table rest value plain, Option.map_some]
      rfl
  | .null, value, _ | .void, value, _ | .unknown, value, _ => by
      cases value

/-- The descriptor of a type starts with something. -/
theorem exists_descriptor
    (table : ClassTable) :
    ∀ ty : Ty,
      ∃ char rest, (table.descriptor ty).toList = char :: rest ∧ char ≠ ')'
  | .primitive kind => by
      cases kind <;> simp [descriptor, Primitive.descriptor]
  | .classType .. | .wildcard | .null | .void | .unknown => by
      simp [descriptor]
  | .array component => by
      simp [descriptor]
  | .typeVar _ bound | .wildcardExtends bound => by
      simpa only [descriptor] using exists_descriptor table bound

/-- The descriptors of parameters read as the parameters. -/
theorem readParams_descriptors
    {strict : Bool}
    (table : ClassTable)
    (rest : List Char) :
    ∀ {params : List Ty} {limit : Nat},
      (∀ param ∈ params, param.isValue strict = true) →
      params.all table.isPlain = true →
      params.length < limit →
      MethodShape.readParams limit
          ((String.join (params.map (fun param => table.descriptor param.erasure))).toList ++
            ')' :: rest) =
        some (params.map (fun param => .ofTy param.erasure), rest)
  | [], limit + 1, _, _, _ => by
      simp [MethodShape.readParams]
  | param :: params, limit + 1, values, plain, bounded => by
      simp only [List.all_cons, Bool.and_eq_true] at plain
      obtain ⟨char, others, starts, notEnd⟩ := exists_descriptor table param.erasure
      have first := readKind_descriptor table
        ((String.join (params.map (fun param => table.descriptor param.erasure))).toList ++
          ')' :: rest) (values param (by simp)) plain.1
      have remaining := @readParams_descriptors strict table rest params limit
        (fun other member => values other (by simp [member])) plain.2
        (by simpa using bounded)
      rw [starts] at first
      simp only [List.map_cons, String.join_cons, String.toList_append, List.append_assoc, starts,
        List.cons_append, MethodShape.readParams, notEnd, if_false] at first ⊢
      simp only [first, remaining, Option.bind_eq_bind, Option.bind_some, Option.pure_def]

/-- There are no more parameters than characters. -/
theorem params_length_lt
    (table : ClassTable)
    (params : List Ty)
    (rest : List Char) :
    params.length <
      ((String.join (params.map (fun param => table.descriptor param.erasure))).toList ++
        ')' :: rest).length := by
  induction params with
  | nil =>
      simp
  | cons param params inductionHypothesis =>
      obtain ⟨char, others, starts, -⟩ := exists_descriptor table param.erasure
      simp only [List.map_cons, String.join_cons, String.toList_append, starts,
        List.length_append, List.length_cons] at inductionHypothesis ⊢
      omega

/-- The descriptor of a sound signature reads as the signature. -/
theorem ofDescriptor_methodDescriptor
    {strict : Bool}
    {table : ClassTable}
    {signature : Signature}
    (sound : signature.isSound strict = true)
    (plain : table.isPlainSignature signature = true) :
    MethodShape.ofDescriptor (table.methodDescriptor signature) = some signature.shape := by
  simp only [Signature.isSound, Bool.and_eq_true, List.all_eq_true, Bool.or_eq_true,
    beq_iff_eq] at sound
  simp only [isPlainSignature, Bool.and_eq_true] at plain
  have isText : (table.methodDescriptor signature).toList =
      '(' :: ((String.join (signature.params.map (fun param => table.descriptor param.erasure))).toList
        ++ ')' :: (table.descriptor signature.returnType.erasure).toList) := by
    simp [methodDescriptor]
  have read := readParams_descriptors table (table.descriptor signature.returnType.erasure).toList
    sound.1 plain.1 (params_length_lt table signature.params
      (table.descriptor signature.returnType.erasure).toList)
  simp only [MethodShape.ofDescriptor, isText, MethodShape.ofChars, read, Option.bind_eq_bind,
    Option.bind_some]
  rcases sound.2 with isVoid | value
  · simp [isVoid, Ty.erasure, descriptor, Signature.shape]
  · have kindRead := readKind_descriptor table [] value plain.2
    rw [List.append_nil] at kindRead
    have notVoid : (table.descriptor signature.returnType.erasure).toList ≠ ['V'] := by
      intro isVoid
      rw [isVoid] at kindRead
      cases kindRead
    have isResult : signature.returnType.erasure ≠ .void :=
      Ty.ne_void_of_isValue (Ty.isValue_erasure value)
    simp [notVoid, kindRead, Signature.shape, isResult]

/-- A machine reads every descriptor of a table with plain names. -/
theorem reads_ofDescriptor
    {strict : Bool}
    {table : ClassTable}
    (sound : table.Sound strict)
    (plain : table.hasPlainNames = true) :
    MethodShape.ofDescriptor.Reads table := by
  simp only [hasPlainNames, Bool.and_eq_true, List.all_eq_true] at plain
  obtain ⟨⟨⟨⟨functions, methods⟩, wrappers⟩, -⟩, -⟩ := plain
  have allPrimitives : ∀ kind, kind ∈ Primitive.all := by
    intro kind
    cases kind <;> decide
  refine ⟨?_, ?_, ?_, ?_⟩
  · intro entry member
    exact ofDescriptor_methodDescriptor (sound.functions entry member) (functions entry member)
  · intro entry member method inClass
    have classSound := sound.classes entry member
    simp only [ClassInfo.isSound, Bool.and_eq_true, List.all_eq_true] at classSound
    exact ofDescriptor_methodDescriptor (classSound.2 method inClass)
      (methods entry member method inClass)
  · intro kind
    have boxes : (⟨[.primitive kind], boxed kind⟩ : Signature).isSound true = true := by
      simp [Signature.isSound, Ty.isValue, boxed, Ty.named, Ty.areArguments]
    refine ofDescriptor_methodDescriptor boxes ?_
    simp [isPlainSignature, wrappers kind (allPrimitives kind), isPlain]
  · intro kind
    have unboxes : (⟨[], .primitive kind⟩ : Signature).isSound true = true := by
      simp [Signature.isSound, Ty.isValue]
    refine ofDescriptor_methodDescriptor unboxes ?_
    simp [isPlainSignature, isPlain]

end ClassTable

end LoopLowering
