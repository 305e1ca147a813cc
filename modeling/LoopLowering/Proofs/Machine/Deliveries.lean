import LoopLowering.Code.Expressions
import LoopLowering.Proofs.Code.StaticTypes
import LoopLowering.Proofs.Machine.Paths

namespace LoopLowering

/-!
# Code that delivers values

A complete piece of code delivers values if it leaves just them on whatever
stack it starts with. Instructions and pieces of code are put together by what
they take and what they deliver.
-/

namespace Signature

/-- The kinds of the parameters and of the result of a signature, as its
descriptor has them. -/
def shape
    (signature : Signature) :
    MethodShape where
  params := signature.params.map (fun param => .ofTy param.erasure)
  result :=
    if signature.returnType.erasure = .void then none
    else some (.ofTy signature.returnType.erasure)

end Signature

/-- A machine reads the descriptors that code refers to as they were written. -/
structure DescriptorReader.Reads
    (read : DescriptorReader)
    (table : ClassTable) :
    Prop where
  functions : ∀ entry ∈ table.functions,
    read (table.methodDescriptor entry.2.signature) = some entry.2.signature.shape
  methods : ∀ entry ∈ table.classes, ∀ method ∈ entry.2.methods,
    read (table.methodDescriptor method.2) = some method.2.shape
  boxing : ∀ kind, read (table.methodDescriptor ⟨[.primitive kind], ClassTable.boxed kind⟩) =
    some ⟨[.ofPrimitive kind], some .reference⟩
  unboxing : ∀ kind, read (table.methodDescriptor ⟨[], .primitive kind⟩) =
    some ⟨[], some (.ofPrimitive kind)⟩

/-- A primitive value is no reference. -/
theorem ValueKind.ofPrimitive_ne_reference
    (kind : Primitive) :
    ofPrimitive kind ≠ .reference := by
  cases kind <;> decide

/-- The values of a type that is not primitive are references. -/
theorem ValueKind.ofTy_eq_reference
    {ty : Ty}
    (notPrimitive : ty.primitive? = none) :
    ofTy ty = .reference := by
  cases ty <;> simp_all [Ty.primitive?, ofTy]

/-- The kinds of the values that an expression of a type leaves. -/
def Ty.kinds
    (ty : Ty) :
    KindStack :=
  if ty = .void then [] else [.ofTy ty]

/-- What a result of a type leaves if its value is of a given kind. -/
def Ty.leaves
    (ty : Ty)
    (kind : ValueKind) :
    KindStack :=
  if ty = .void then [] else [kind]

/-- What is not void leaves its value. -/
theorem Ty.leaves_of_ne_void
    {ty : Ty}
    (notVoid : ty ≠ .void)
    (kind : ValueKind) :
    ty.leaves kind = [kind] := by
  simp [leaves, notVoid]

/-- Whether code generation drops as many words as the result of a call has, if
it drops the result. -/
def ValueKind.drops
    (delivered : ValueKind)
    (type : Ty)
    (wanted : Bool) :
    Bool :=
  wanted || delivered.isWide == (ValueKind.ofTy type).isWide

/-- The kind of a value after a conversion between primitive types, if the value
is of a kind that the conversion takes. -/
def Primitive.convertedKind
    (source target : Primitive)
    (kind : ValueKind) :
    Option ValueKind :=
  if ValueKind.ofPrimitive source = .ofPrimitive target then some kind
  else if kind = .ofPrimitive source then some (.ofPrimitive target)
  else none

/-- The kind of a value after the conversion from a type to another one, if the
value is of a kind that the conversion takes. -/
def Ty.convertedKind
    (source target : Ty)
    (kind : ValueKind) :
    Option ValueKind :=
  match source.primitive?, target.primitive? with
  | some given, some wanted => given.convertedKind wanted kind
  | some given, none =>
      if target.isReference then
        if kind = .ofPrimitive given then some .reference else none
      else
        some kind
  | none, some wanted =>
      match ClassTable.unboxed? source with
      | some _ => if kind = .reference then some (.ofPrimitive wanted) else none
      | none => some kind
  | none, none => some kind

namespace CodeStream

/-- A complete piece of code that leaves given kinds on any stack, whatever the
branch targets before it expect, and that some path goes through. -/
structure Delivers
    (read : DescriptorReader)
    (kinds : KindStack)
    (code after : CodeStream) :
    Prop where
  appends : Appends [] code after
  flows : ∀ {base : Nat} {labelStack : LabelStacks} {below : KindStack},
    base ≤ code.labels.size →
    Enters base labelStack code below →
    ∃ others, (∀ label < code.labels.size, others label = labelStack label) ∧
      Flows read base others below (kinds ++ below) code after
  arrives : Arrives read kinds code after

/-- A complete piece of code that leaves any stack as it is, both at its end and
where it branches to a target of others. -/
structure Branches
    (read : DescriptorReader)
    (label : Nat)
    (code after : CodeStream) :
    Prop where
  appends : Appends [] code after
  flows : ∀ {base : Nat} {labelStack : LabelStacks} {below : KindStack},
    base ≤ code.labels.size →
    Enters base labelStack code below →
    base ≤ label →
    label < code.labels.size →
    labelStack label = below →
    ∃ others, (∀ label < code.labels.size, others label = labelStack label) ∧
      Flows read base others below below code after
  arrives : Arrives read [] code after

namespace Delivers

variable
  {read : DescriptorReader}
  {kinds more : KindStack}
  {code middle after : CodeStream}

theorem refl
    (read : DescriptorReader)
    (code : CodeStream) :
    Delivers read [] code code :=
  ⟨.refl code, fun _ enters => ⟨_, fun _ _ => rfl, .start enters⟩, .refl read code⟩

/-- An instruction may take what is delivered and deliver something else. -/
theorem emit
    (delivers : Delivers read kinds code middle)
    {instruction : Instruction}
    (effect : instruction.effect read kinds = some more)
    (noTarget : instruction.target? = none)
    (goesOn : instruction.endsFlow = false) :
    Delivers read more code (middle.emit instruction) where
  appends := delivers.appends.emit instruction
  arrives := delivers.arrives.emit delivers.appends.position effect goesOn
  flows := by
    intro base labelStack below inBase enters
    obtain ⟨others, agree, flows⟩ := delivers.flows inBase enters
    exact ⟨others, agree, flows.emitPlain (Instruction.effect_frame effect below) noTarget⟩

theorem append
    (first : Delivers read kinds code middle)
    (second : Delivers read more middle after) :
    Delivers read (more ++ kinds) code after where
  appends := first.appends.trans second.appends
  arrives := first.arrives.append second.arrives first.appends.position second.appends.extends_
  flows := by
    intro base labelStack below inBase enters
    obtain ⟨others, agree, flows⟩ := first.flows inBase enters
    obtain ⟨all, agreeAll, flowsAfter⟩ :=
      second.flows (Nat.le_trans inBase first.appends.labelCount) flows.enters
    refine ⟨all, fun label known => ?_, ?_⟩
    · rw [agreeAll label (Nat.lt_of_lt_of_le known first.appends.labelCount), agree label known]
    · rw [List.append_assoc]
      exact (flows.congr agreeAll).append second.appends.extends_ flowsAfter

/-- Whatever does not touch instructions and branch targets may follow. -/
theorem same
    (delivers : Delivers read kinds code middle)
    (sameInstructions : after.instructions = middle.instructions)
    (sameLabels : after.labels = middle.labels) :
    Delivers read kinds code after where
  appends := delivers.appends.same sameInstructions sameLabels
  arrives := delivers.arrives.extend ((Appends.refl middle).same sameInstructions sameLabels).extends_
    (by simp [CodeStream.position, sameInstructions])
  flows := by
    intro base labelStack below inBase enters
    obtain ⟨others, agree, flows⟩ := delivers.flows inBase enters
    exact ⟨others, agree, flows.same sameInstructions sameLabels⟩

/-- A branch may take what is delivered. -/
theorem branch
    (delivers : Delivers read kinds code middle)
    {instruction : Instruction}
    {label : Nat}
    (effect : instruction.effect read kinds = some [])
    (target : instruction.target? = some label)
    (goesOn : instruction.endsFlow = false) :
    Branches read label code (middle.emit instruction) where
  appends := delivers.appends.emit instruction
  arrives := delivers.arrives.emit delivers.appends.position effect goesOn
  flows := by
    intro base labelStack below inBase enters labelInBase made expects
    obtain ⟨others, agree, flows⟩ := delivers.flows inBase enters
    refine ⟨others, agree, flows.emit (Instruction.effect_frame effect below) (fun _ => rfl) ?_⟩
    intro found isTarget
    rw [target, Option.some.injEq] at isTarget
    subst isTarget
    exact ⟨labelInBase, Nat.lt_of_lt_of_le made delivers.appends.labelCount,
      (agree label made).trans expects⟩

/-- Code that delivers values leaves exactly these on any stack. -/
theorem leavesExactly
    (delivers : Delivers read kinds code after) :
    LeavesExactly read kinds code after := by
  have enters : Enters code.labels.size (fun _ => []) code [] := by
    intro label offset inBase placed
    have made := lt_size_of_offset? placed
    omega
  obtain ⟨others, -, flows⟩ := delivers.flows (Nat.le_refl _) enters
  rw [List.append_nil] at flows
  exact leavesExactly_of_flows delivers.appends flows

/-- A constant may be pushed. -/
theorem constant
    (delivers : Delivers read kinds code middle)
    (value : Int32) :
    Delivers read (.int :: kinds) code (middle.emit (.intConst value)) :=
  delivers.emit rfl rfl rfl

/-- A local may be loaded. -/
theorem load
    (delivers : Delivers read kinds code middle)
    {scope : MethodScope}
    {id : LocalId}
    (loaded : middle.load scope id = .ok after) :
    Delivers read (kindOf scope id :: kinds) code after := by
  obtain ⟨slot, -, rfl⟩ := load_eq_ok.mp loaded
  exact delivers.emit rfl rfl rfl

/-- A delivered value may be stored, and kept if that is wanted. -/
theorem store
    {scope : MethodScope}
    {id : LocalId}
    (delivers : Delivers read (kindOf scope id :: kinds) code middle)
    {keep : Bool}
    (stored : middle.store scope id keep = .ok after) :
    Delivers read (if keep then kindOf scope id :: kinds else kinds) code after := by
  obtain ⟨slot, -, rfl⟩ := store_eq_ok.mp stored
  refine Delivers.same ?_ (openLocal_same _ _ _).1 (openLocal_same _ _ _).2
  have storing : ∀ rest, (Instruction.store (kindOf scope id) slot).effect read
      (kindOf scope id :: rest) = some rest := by
    simp [Instruction.effect, popKinds]
  unfold copied
  cases keep with
  | false =>
      exact delivers.emit (storing kinds) rfl rfl
  | true =>
      have copied : Delivers read (kindOf scope id :: kindOf scope id :: kinds) code
          (middle.emit (if (kindOf scope id).isWide then .dup2 else .dup)) := by
        refine delivers.emit ?_ ?_ ?_
        · cases wide : (kindOf scope id).isWide <;> simp [Instruction.effect, wide]
        · cases wide : (kindOf scope id).isWide <;> rfl
        · cases wide : (kindOf scope id).isWide <;> rfl
      exact copied.emit (storing _) rfl rfl

/-- A delivered primitive value may be converted. -/
theorem convert
    {source : Primitive}
    (delivers : Delivers read (.ofPrimitive source :: kinds) code middle)
    (target : Primitive) :
    Delivers read (.ofPrimitive target :: kinds) code (middle.convert source target) := by
  simp only [CodeStream.convert]
  split
  · next same =>
      rwa [← same]
  · next different =>
      refine delivers.emit ?_ rfl rfl
      simp [Instruction.effect, popKinds, ValueKind.ofPrimitive_ne_reference, different]

/-- Two delivered primitive values may be combined. -/
theorem arith
    {operand : Primitive}
    (delivers : Delivers read (.ofPrimitive operand :: .ofPrimitive operand :: kinds) code middle)
    (op : ArithOp) :
    Delivers read (.ofPrimitive operand :: kinds) code
      (middle.emit (.arith op (.ofPrimitive operand))) := by
  refine delivers.emit ?_ rfl rfl
  simp [Instruction.effect, popKinds, ValueKind.ofPrimitive_ne_reference]

/-- An operand may be converted to the type its operator works in. -/
theorem convertOperand
    {type : Ty}
    {given : Primitive}
    (isGiven : type = .primitive given)
    (delivers : Delivers read (.ofPrimitive given :: kinds) code middle)
    (operand : Primitive) :
    Delivers read (.ofPrimitive operand :: kinds) code (middle.convertOperand type operand) := by
  subst isGiven
  exact delivers.convert operand

/-- A primitive value may be boxed. -/
theorem box
    {table : ClassTable}
    (reads : read.Reads table)
    {kind : Primitive}
    (delivers : Delivers read (.ofPrimitive kind :: kinds) code middle) :
    Delivers read (.reference :: kinds) code (middle.emit (table.boxingCall kind)) := by
  refine delivers.emit ?_ rfl rfl
  simp [ClassTable.boxingCall, Instruction.effect, reads.boxing, popKinds]

/-- A wrapper may be unboxed. -/
theorem unbox
    {table : ClassTable}
    (reads : read.Reads table)
    (kind : Primitive)
    (delivers : Delivers read (.reference :: kinds) code middle) :
    Delivers read (.ofPrimitive kind :: kinds) code (middle.emit (table.unboxingCall kind)) := by
  refine delivers.emit ?_ rfl rfl
  simp [ClassTable.unboxingCall, Instruction.effect, reads.unboxing, popKinds]

/-- A result may be dropped by its words. -/
theorem popValue
    {kind dropped : ValueKind}
    (delivers : Delivers read (kind :: kinds) code middle)
    (sameWords : kind.isWide = dropped.isWide) :
    Delivers read kinds code (middle.popValue dropped) := by
  unfold CodeStream.popValue
  cases wide : dropped.isWide with
  | false =>
      exact delivers.emit (by simp [Instruction.effect, sameWords, wide]) rfl rfl
  | true =>
      exact delivers.emit (by simp [Instruction.effect, sameWords, wide]) rfl rfl

/-- The result of a call may be dropped if it is not wanted. -/
theorem keepResult
    {type : Ty}
    {kind : ValueKind}
    (delivers : Delivers read (type.leaves kind ++ kinds) code middle)
    {wanted : Bool}
    (drops : kind.drops type wanted = true) :
    Delivers read ((if wanted then type.leaves kind else []) ++ kinds) code
      (middle.keepResult type wanted) := by
  unfold CodeStream.keepResult
  cases wanted with
  | true =>
      exact delivers
  | false =>
      by_cases isVoid : type = .void
      · subst isVoid
        exact delivers
      · have notVoid : (type == Ty.void) = false := beq_eq_false_iff_ne.mpr isVoid
        simp only [Ty.leaves_of_ne_void isVoid, List.cons_append, List.nil_append] at delivers
        simp only [Bool.false_or, notVoid, Bool.false_eq_true, if_false, List.nil_append]
        exact delivers.popValue (by simpa [ValueKind.drops] using drops)

/-- A value may be converted between primitive types if it is of a kind that the
conversion takes. -/
theorem convertKind
    {source target : Primitive}
    {kind result : ValueKind}
    (delivers : Delivers read (kind :: kinds) code middle)
    (converted : source.convertedKind target kind = some result) :
    Delivers read (result :: kinds) code (middle.convert source target) := by
  unfold Primitive.convertedKind at converted
  split at converted
  · next same =>
      cases converted
      simpa [CodeStream.convert, same] using delivers
  · next different =>
      split at converted
      · next isSource =>
          cases converted
          subst isSource
          exact delivers.convert target
      · cases converted

/-- A value may be converted to the type it is assigned to if it is of a kind
that the conversion takes. -/
theorem convertAssigned
    {table : ClassTable}
    (reads : read.Reads table)
    {source target : Ty}
    {kind result : ValueKind}
    (delivers : Delivers read (kind :: kinds) code middle)
    (converted : source.convertedKind target kind = some result) :
    Delivers read (result :: kinds) code (middle.convertAssigned table source target) := by
  cases isSource : source.primitive? with
  | some given =>
      cases isTarget : target.primitive? with
      | some wanted =>
          simp only [Ty.convertedKind, isSource, isTarget] at converted
          simp only [CodeStream.convertAssigned, isSource, isTarget]
          exact delivers.convertKind converted
      | none =>
          simp only [Ty.convertedKind, isSource, isTarget] at converted
          simp only [CodeStream.convertAssigned, isSource, isTarget]
          split at converted
          · next isReference =>
              split at converted
              · next isGiven =>
                  cases converted
                  subst isGiven
                  rw [if_pos isReference]
                  exact delivers.box reads
              · cases converted
          · next noReference =>
              cases converted
              rw [if_neg noReference]
              exact delivers
  | none =>
      cases isTarget : target.primitive? with
      | some wanted =>
          cases wrapped : ClassTable.unboxed? source with
          | some given =>
              simp only [Ty.convertedKind, isSource, isTarget, wrapped] at converted
              simp only [CodeStream.convertAssigned, isSource, isTarget, wrapped]
              split at converted
              · next isReference =>
                  cases converted
                  subst isReference
                  exact (delivers.unbox reads given).convert wanted
              · cases converted
          | none =>
              simp only [Ty.convertedKind, isSource, isTarget, wrapped,
                Option.some.injEq] at converted
              simp only [CodeStream.convertAssigned, isSource, isTarget, wrapped]
              exact converted ▸ delivers
      | none =>
          simp only [Ty.convertedKind, isSource, isTarget, Option.some.injEq] at converted
          simp only [CodeStream.convertAssigned, isSource, isTarget]
          exact converted ▸ delivers

/-- Two delivered values may be compared and branched on. -/
theorem branchOnValues
    {operand : Primitive}
    (numeric : operand.isNumeric = true)
    (delivers : Delivers read [.ofPrimitive operand, .ofPrimitive operand] code middle)
    (op : BinOp)
    (condition : Condition)
    (label : Label) :
    Branches read label code (middle.branchOnValues op condition operand label) := by
  simp only [CodeStream.branchOnValues]
  split
  · next isInt =>
      rw [isInt] at delivers
      exact delivers.branch rfl rfl rfl
  · next kind notInt =>
      have compared : (Instruction.compare (ValueKind.ofPrimitive operand)
          (op == .lt || op == .le)).effect read
          [.ofPrimitive operand, .ofPrimitive operand] = some [.int] := by
        cases operand <;> simp_all [ValueKind.ofPrimitive, Instruction.effect, popKinds]
      exact (delivers.emit compared rfl rfl).branch rfl rfl rfl

end Delivers

/-- Some path through a test that is made a value puts the value on the stack,
if some path goes through the test. -/
theorem arrives_testValue
    {read : DescriptorReader}
    {branchUnless : Label → CodeStep}
    {code after : CodeStream}
    (arrives : ∀ {label : Nat} {before tested : CodeStream},
      branchUnless label before = .ok tested → Arrives read [] before tested)
    (appends : ∀ {label : Nat} {before tested : CodeStream},
      branchUnless label before = .ok tested → Appends [] before tested)
    (tested : code.testValue branchUnless = .ok after) :
    Arrives read [.int] code after := by
  obtain ⟨middle, isTested, rfl⟩ := testValue_eq_ok.mp tested
  have labeled := ((Appends.refl code).addLabel.addLabel).trans (appends isTested)
  have firstOpen := (labeled.isOpen code.nextLabel (by simp)).2
  have secondOpen := (labeled.isOpen code.addLabel.nextLabel (by simp)).2
  have different : code.nextLabel ≠ code.addLabel.nextLabel := by
    simp [nextLabel, addLabel]
  -- the value that the path takes is the one of a test that does not fail
  generalize isSucceeded : (middle.emit (.intConst 1)).emit (.goto code.addLabel.nextLabel) =
    succeeded
  have sameLabels : succeeded.labels = middle.labels := by
    rw [← isSucceeded]
    rfl
  have succeededPosition : succeeded.position = middle.position + 2 := by
    simp [← isSucceeded]
  generalize isFailed : (succeeded.place code.nextLabel).emit (.intConst 0) = failed
  have failedOpen : failed.labels[code.addLabel.nextLabel]? = some none := by
    rw [← isFailed]
    exact (labels_place different).trans (by rw [sameLabels, secondOpen])
  have failedPosition : failed.position = middle.position + 3 := by
    simp [← isFailed, succeededPosition]
  have extendsSucceeded : succeeded.Extends (failed.place code.addLabel.nextLabel) := by
    have firstNotPlaced : succeeded.offset? code.nextLabel = none := by
      rw [offset?, sameLabels, firstOpen]
      rfl
    have secondNotPlaced : failed.offset? code.addLabel.nextLabel = none := by
      rw [offset?, failedOpen]
      rfl
    refine ((extends_place firstNotPlaced).trans ?_).trans (extends_place secondNotPlaced)
    rw [← isFailed]
    exact extends_emit _ _
  have pushed : Arrives read [.int] code.addLabel.addLabel (middle.emit (.intConst 1)) :=
    (arrives isTested).emit labeled.position rfl rfl
  have jumps : succeeded.instructions[middle.position + 1]? =
      some (.goto code.addLabel.nextLabel) := by
    rw [← isSucceeded, ← position_emit (.intConst 1) middle]
    exact instruction_emit _ _
  have extendsPushed : (middle.emit (.intConst 1)).Extends
      (failed.place code.addLabel.nextLabel) := by
    refine .trans ?_ extendsSucceeded
    rw [← isSucceeded]
    exact extends_emit _ _
  intro below
  have low : code.position ≤ middle.position := labeled.position
  have path := (pushed below).extend extendsPushed (Nat.le_refl _) (Nat.le_refl _)
    extendsPushed.position
  rw [position_emit] at path
  have inSucceeded : middle.position + 1 < succeeded.position := by
    omega
  refine path.jump (Nat.le_trans low (Nat.le_add_right _ _)) ?_
    ((extendsSucceeded.instruction _ inSucceeded).trans jumps) rfl rfl ?_
  · rw [position_place, failedPosition]
    exact Nat.add_lt_add_left (by omega) _
  · rw [position_place]
    exact offset?_place (Array.getElem?_eq_some_iff.mp failedOpen).1

/-- A test that leaves the stack as it is can be made a value. -/
theorem delivers_testValue
    {read : DescriptorReader}
    {branchUnless : Label → CodeStep}
    {code after : CodeStream}
    (branches : ∀ {label : Nat} {before tested : CodeStream},
      branchUnless label before = .ok tested → Branches read label before tested)
    (tested : code.testValue branchUnless = .ok after) :
    Delivers read [.int] code after where
  appends := (Appends.refl code).testValue (fun _ _ _ isTested => (branches isTested).appends) tested
  arrives := arrives_testValue (fun isTested => (branches isTested).arrives)
    (fun isTested => (branches isTested).appends) tested
  flows := by
    intro base labelStack below inBase enters
    obtain ⟨middle, isTested, rfl⟩ := testValue_eq_ok.mp tested
    have isBranch := branches isTested
    have count : code.addLabel.addLabel.labels.size = code.labels.size + 2 := by
      simp [addLabel]
    have first : code.nextLabel = code.labels.size := rfl
    have second : code.addLabel.nextLabel = code.labels.size + 1 := by
      simp [nextLabel, addLabel]
    -- a failed test arrives with the stack as it was, and the end with the value
    let expected : LabelStacks := fun label =>
      if label = code.labels.size then below
      else if label = code.labels.size + 1 then .int :: below
      else labelStack label
    have start : Flows read base expected below below code code := by
      refine .start fun label offset labelInBase placed high => ?_
      have made := lt_size_of_offset? placed
      obtain ⟨atEnd, stack⟩ := enters label offset labelInBase placed high
      refine ⟨atEnd, ?_⟩
      simp only [expected]
      rw [if_neg (by omega), if_neg (by omega), stack]
    have labeled := start.addLabel.addLabel
    obtain ⟨others, agree, flows⟩ := isBranch.flows (by omega) labeled.enters
      (by rw [first]; exact inBase) (by rw [first]; omega) (by simp [expected, first])
    have expectsFalse : others code.nextLabel = below := by
      rw [agree _ (by rw [first]; omega)]
      simp [expected, first]
    have expectsEnd : others code.addLabel.nextLabel = .int :: below := by
      rw [agree _ (by rw [second]; omega)]
      simp [expected, second]
    have middleCount := isBranch.appends.labelCount
    refine ⟨others, ?_, ?_⟩
    · intro label known
      rw [agree label (by omega)]
      simp only [expected]
      rw [if_neg (by omega), if_neg (by omega)]
    · have ran := (labeled.congr agree).append isBranch.appends.extends_ flows
      have succeeded : Flows read base others below (.int :: below) code
          (middle.emit (.intConst 1)) := ran.emitPlain rfl rfl
      have left : Flows read base others below below code
          ((middle.emit (.intConst 1)).emit (.goto code.addLabel.nextLabel)) := by
        refine succeeded.emit rfl (fun goesOn => by cases goesOn) ?_
        intro label isTarget
        simp only [Instruction.target?, Option.some.injEq] at isTarget
        subst isTarget
        refine ⟨by rw [second]; omega, ?_, expectsEnd⟩
        rw [second]
        change code.labels.size + 1 < middle.labels.size
        omega
      have failed : Flows read base others below (.int :: below) code
          ((((middle.emit (.intConst 1)).emit (.goto code.addLabel.nextLabel)).place
            code.nextLabel).emit (.intConst 0)) := (left.place expectsFalse).emitPlain rfl rfl
      exact failed.place expectsEnd

end CodeStream

end LoopLowering
