import LoopLowering.Proofs.Code.Steps
import LoopLowering.Proofs.Code.Statements

namespace LoopLowering

/-!
# Written code

Whether an execution comes to it or not, every instruction refers to what there
is: its slot is that of a local of the kind it names, and its branch target is
one that was made. Most branch targets are still to be placed when an instruction
branches to them, so that the branch leads forward. What branches back is kept in
order.
-/

/-- An instruction refers to one of so many branch targets and to the slot of a
local. -/
def Instruction.RefersTo
    (scope : MethodScope)
    (labelCount : Nat) :
    Instruction → Prop
  | .load kind slot | .store kind slot =>
      ∃ id, (scope.localAt id).slot = some slot ∧ kind = CodeStream.kindOf scope id
  | .increment slot _ => ∃ id, (scope.localAt id).slot = some slot
  | .branchIf _ label | .branchIfInts _ label | .branchIfReferences _ label | .goto label =>
      label < labelCount
  | _ => True

namespace Instruction

variable
  {scope : MethodScope}
  {labelCount : Nat}
  {instruction : Instruction}

/-- A plain instruction refers to nothing. -/
theorem refersTo_of_isPlain
    (plain : instruction.isPlain = true) :
    instruction.RefersTo scope labelCount := by
  cases instruction <;> first | exact trivial | cases plain

/-- What there is stays when branch targets are made. -/
theorem RefersTo.more
    (refers : instruction.RefersTo scope labelCount)
    {more : Nat}
    (isMore : labelCount ≤ more) :
    instruction.RefersTo scope more := by
  cases instruction with
  | branchIf _ label | branchIfInts _ label | branchIfReferences _ label | goto label =>
      exact Nat.lt_of_lt_of_le refers isMore
  | _ =>
      exact refers

/-- An instruction may branch to a target that was made. -/
theorem refersTo_of_target
    {label : Label}
    (isTarget : instruction.target? = some label)
    (isMade : label < labelCount) :
    instruction.RefersTo scope labelCount := by
  cases instruction with
  | branchIf _ other | branchIfInts _ other | branchIfReferences _ other | goto other =>
      exact Option.some.inj isTarget ▸ isMade
  | _ =>
      cases isTarget

/-- The branch target of an instruction is one that was made. -/
theorem RefersTo.made
    (refers : instruction.RefersTo scope labelCount)
    {label : Label}
    (isTarget : instruction.target? = some label) :
    label < labelCount := by
  cases instruction with
  | branchIf _ other | branchIfInts _ other | branchIfReferences _ other | goto other =>
      exact Option.some.inj isTarget ▸ refers
  | _ =>
      cases isTarget

end Instruction

namespace CodeStream

/-- Every instruction of a stream refers to what there is. -/
def Refers
    (scope : MethodScope)
    (code : CodeStream) :
    Prop :=
  ∀ instruction ∈ code.instructions, instruction.RefersTo scope code.labels.size

/-- Between two times, code was written that refers to what there is. Of its
branches, those back to a target that is placed are listed with their targets; the
others go to targets that are still to be placed. -/
inductive Written
    (scope : MethodScope)
    (before : CodeStream) :
    (back : List Label) → CodeStream → Prop where
  | refl : Written scope before [] before
  | emit {back : List Label} {code : CodeStream} {instruction : Instruction} :
      Written scope before back code →
      instruction.RefersTo scope code.labels.size →
      instruction.target? = none →
      Written scope before back (code.emit instruction)
  | branch {back : List Label} {code : CodeStream} {instruction : Instruction} {label : Label} :
      Written scope before back code →
      code.IsOpen label →
      instruction.target? = some label →
      Written scope before back (code.emit instruction)
  | turn {back : List Label} {code : CodeStream} {instruction : Instruction} {label : Label}
      {offset : Nat} :
      Written scope before back code →
      code.offset? label = some offset →
      offset ≤ code.position →
      instruction.target? = some label →
      Written scope before (back ++ [label]) (code.emit instruction)
  | addLabel {back : List Label} {code : CodeStream} :
      Written scope before back code →
      Written scope before back code.addLabel
  | place {back : List Label} {code : CodeStream} {label : Label} :
      Written scope before back code →
      code.IsOpen label →
      Written scope before back (code.place label)
  | sameCode {back : List Label} {code after : CodeStream} :
      Written scope before back code →
      code.SameCode after →
      Written scope before back after

namespace Written

variable
  {scope : MethodScope}
  {back : List Label}
  {before code after : CodeStream}

theorem trans
    {more : List Label}
    (earlier : Written scope before back code)
    (later : Written scope code more after) :
    Written scope before (back ++ more) after := by
  induction later with
  | refl =>
      rw [List.append_nil]
      exact earlier
  | emit _ refers noTarget written =>
      exact written.emit refers noTarget
  | branch _ isOpen isTarget written =>
      exact written.branch isOpen isTarget
  | turn _ isPlaced isBack isTarget written =>
      rw [← List.append_assoc]
      exact written.turn isPlaced isBack isTarget
  | addLabel _ written =>
      exact written.addLabel
  | place _ isOpen written =>
      exact written.place isOpen
  | sameCode _ same written =>
      exact written.sameCode same

/-- Code without branches back may follow. -/
theorem followedBy
    (earlier : Written scope before back code)
    (later : Written scope code [] after) :
    Written scope before back after := by
  have whole := earlier.trans later
  rwa [List.append_nil] at whole

/-- A plain instruction may follow. -/
theorem emitPlain
    (written : Written scope before back code)
    {instruction : Instruction}
    (plain : instruction.isPlain = true) :
    Written scope before back (code.emit instruction) :=
  written.emit (Instruction.refersTo_of_isPlain plain) (Instruction.usesSlot_of_isPlain plain).2

/-- Plain instructions may follow. -/
theorem plainly
    (written : Written scope before back code)
    (plain : code.Plainly after) :
    Written scope before back after := by
  induction plain with
  | refl =>
      exact written
  | emit _ isPlain inductionHypothesis =>
      exact inductionHypothesis.emitPlain isPlain

/-- Loading a local may follow. -/
theorem load
    (written : Written scope before back code)
    {id : LocalId}
    (loaded : code.load scope id = .ok after) :
    Written scope before back after := by
  obtain ⟨slot, isSlot, rfl⟩ := load_eq_ok.mp loaded
  exact written.emit ⟨id, isSlot, rfl⟩ rfl

/-- Storing to a local may follow. -/
theorem store
    (written : Written scope before back code)
    {id : LocalId}
    {keep : Bool}
    (stored : code.store scope id keep = .ok after) :
    Written scope before back after := by
  obtain ⟨slot, isSlot, rfl⟩ := store_eq_ok.mp stored
  have copied : Written scope before back (code.copied (kindOf scope id) keep) :=
    written.plainly (.copied .refl _ _)
  have stores : (Instruction.store (kindOf scope id) slot).RefersTo scope
      (code.copied (kindOf scope id) keep).labels.size :=
    ⟨id, isSlot, rfl⟩
  exact (copied.emit stores rfl).sameCode (openLocal_same _ _ _)

/-- Adding to a local may follow. -/
theorem increment
    (written : Written scope before back code)
    {id : LocalId}
    {delta : Int16}
    (added : code.increment scope id delta = .ok after) :
    Written scope before back after := by
  obtain ⟨slot, isSlot, rfl⟩ := increment_eq_ok.mp added
  exact written.emit ⟨id, isSlot⟩ rfl

/-- Branching on two values may follow. -/
theorem branchOnValues
    (written : Written scope before back code)
    {op : BinOp}
    {condition : Condition}
    {operand : Primitive}
    {label : Label}
    (isOpen : code.IsOpen label) :
    Written scope before back (code.branchOnValues op condition operand label) := by
  simp only [CodeStream.branchOnValues]
  split
  · exact written.branch isOpen rfl
  · exact (written.emitPlain (by rfl)).branch isOpen rfl

/-- Instructions that refer to what there is still do when code was written. -/
theorem refers
    (written : Written scope before back after)
    (refersBefore : before.Refers scope) :
    after.Refers scope := by
  have emits : ∀ {code : CodeStream} {instruction : Instruction}, code.Refers scope →
      instruction.RefersTo scope code.labels.size → (code.emit instruction).Refers scope := by
    intro code instruction refersCode refersTo other member
    rcases Array.mem_push.mp member with inCode | rfl
    · exact refersCode other inCode
    · exact refersTo
  induction written with
  | refl =>
      exact refersBefore
  | emit _ refersTo _ refersCode =>
      exact emits refersCode refersTo
  | branch _ isOpen isTarget refersCode =>
      exact emits refersCode (Instruction.refersTo_of_target isTarget
        (Array.getElem?_eq_some_iff.mp isOpen).1)
  | turn _ isPlaced _ isTarget refersCode =>
      exact emits refersCode (Instruction.refersTo_of_target isTarget
        (lt_size_of_offset? isPlaced))
  | addLabel _ refersCode =>
      exact fun instruction member =>
        (refersCode instruction member).more (by simp [CodeStream.addLabel])
  | place _ _ refersCode =>
      exact fun instruction member =>
        (refersCode instruction member).more (by simp [CodeStream.place])
  | sameCode _ same refersCode =>
      rw [Refers, same.1, same.2]
      exact refersCode

end Written

end CodeStream

/-- A step of code generation writes code without branches back. -/
def CodeStep.Writes
    (scope : MethodScope)
    (step : CodeStep) :
    Prop :=
  ∀ {code after : CodeStream}, step code = .ok after → CodeStream.Written scope code [] after

namespace CodeContext

open CodeStream

variable
  {context : CodeContext}
  {code after : CodeStream}

section Expressions

variable
  {op : BinOp}
  {left right value : Expr}
  {pushLeft pushRight pushValue : CodeStep}
  {branchIf wanted : Bool}
  {label : Label}
  {id : LocalId}
  {push : (wanted : Bool) → CodeStep}

/-- A test that becomes a value branches to two targets of its own. -/
theorem written_testValue
    {branchUnless : Label → CodeStep}
    (complete : ∀ label, (branchUnless label).Appends)
    (writes : ∀ {label : Label} {code after : CodeStream},
      code.IsOpen label →
      branchUnless label code = .ok after →
      Written context.scope code [] after)
    (isTested : code.testValue branchUnless = .ok after) :
    Written context.scope code [] after := by
  obtain ⟨tested, isBranched, rfl⟩ := testValue_eq_ok.mp isTested
  have labeled := (Appends.refl code).addLabel.addLabel
  have appends := labeled.trans (complete _ isBranched)
  have differs : code.nextLabel ≠ code.addLabel.nextLabel := by
    simp [nextLabel, addLabel]
  have endOpen : tested.IsOpen code.addLabel.nextLabel := (appends.isOpen _ (by simp)).2
  have falseOpen : tested.IsOpen code.nextLabel := (appends.isOpen _ (by simp)).2
  have passed := ((writes (labeled.isOpen code.nextLabel (by simp)).2 isBranched).emitPlain
    (show (Instruction.intConst 1).isPlain = true from rfl)).branch
      (show (tested.emit (.intConst 1)).IsOpen _ from endOpen)
      (show (Instruction.goto code.addLabel.nextLabel).target? = _ from rfl)
  have failed := (passed.place
    (show ((tested.emit (.intConst 1)).emit _).IsOpen code.nextLabel from falseOpen)).emitPlain
      (show (Instruction.intConst 0).isPlain = true from rfl)
  have begins : Written context.scope code [] code.addLabel.addLabel :=
    Written.refl.addLabel.addLabel
  refine (begins.followedBy failed).place ?_
  exact (labels_place differs).trans endOpen

/-- Comparing two operands branches to the given target. -/
theorem written_branchOnComparison
    (completeLeft : pushLeft.Appends)
    (completeRight : pushRight.Appends)
    (writesLeft : pushLeft.Writes context.scope)
    (writesRight : pushRight.Writes context.scope)
    (isOpen : code.IsOpen label)
    (branched : context.branchOnComparison op left right pushLeft pushRight branchIf label code =
      .ok after) :
    Written context.scope code [] after := by
  simp only [branchOnComparison, bind_eq_ok] at branched
  obtain ⟨condition, -, pushed, isPushed, branched⟩ := branched
  have first := writesLeft isPushed
  split at branched
  · next given isGiven =>
    simp only [bind_eq_ok, pure_eq_ok] at branched
    obtain ⟨both, isBoth, rfl⟩ := branched
    have appends := (((completeLeft isPushed).convertOperand _ _).trans
      (completeRight isBoth)).convertOperand (context.exprType right) given
    exact (((first.plainly (.convertOperand .refl _ _)).followedBy (writesRight isBoth)).plainly
      (.convertOperand .refl _ _)).branchOnValues (appends.staysOpen isOpen)
  · simp only [bind_eq_ok, pure_eq_ok] at branched
    obtain ⟨both, isBoth, rfl⟩ := branched
    have appends := (completeLeft isPushed).trans (completeRight isBoth)
    refine (first.followedBy (writesRight isBoth)).branch (appends.staysOpen isOpen) ?_
    split <;> rfl

/-- Combining two operands writes no branch back. -/
theorem written_pushArithmetic
    (writesLeft : pushLeft.Writes context.scope)
    (writesRight : pushRight.Writes context.scope)
    (combined : context.pushArithmetic op left right pushLeft pushRight code = .ok after) :
    Written context.scope code [] after := by
  simp only [pushArithmetic] at combined
  split at combined
  · simp only [throw_eq_ok] at combined
  · simp only [bind_eq_ok, pure_eq_ok] at combined
    obtain ⟨pushed, isPushed, both, isBoth, arith, -, rfl⟩ := combined
    exact ((((writesLeft isPushed).plainly (.convertOperand .refl _ _)).followedBy
      (writesRight isBoth)).plainly (.convertOperand .refl _ _)).emitPlain (by rfl)

/-- Assigning a value writes no branch back. -/
theorem written_assignSimple
    (writes : ∀ wanted, (push wanted).Writes context.scope)
    (assigned : context.assignSimple id value push wanted code = .ok after) :
    Written context.scope code [] after := by
  simp only [assignSimple] at assigned
  split at assigned
  · simp only [bind_eq_ok] at assigned
    obtain ⟨pushed, isPushed, stored⟩ := assigned
    exact ((writes _ isPushed).plainly (.convertAssigned .refl _ _ _)).store stored
  · exact writes _ assigned

/-- Assigning the result of an operator writes no branch back. -/
theorem written_assignOperated
    (writes : pushValue.Writes context.scope)
    (assigned : context.assignOperated id op value pushValue wanted code = .ok after) :
    Written context.scope code [] after := by
  simp only [assignOperated] at assigned
  split at assigned
  · simp only [throw_eq_ok] at assigned
  · simp only [throw_eq_ok] at assigned
  · simp only [bind_eq_ok] at assigned
    obtain ⟨loaded, isLoaded, both, isBoth, arith, -, stored⟩ := assigned
    have isRead := (@Written.refl context.scope code).load isLoaded
    exact (((((isRead.plainly (.convert .refl _ _)).followedBy (writes isBoth)).plainly
      (.convertOperand .refl _ _)).emitPlain (by rfl)).plainly (.convert .refl _ _)).store stored

/-- Assigning to a local writes no branch back. -/
theorem written_assign
    {target : NameRef}
    {op : Option BinOp}
    (writes : ∀ wanted, (push wanted).Writes context.scope)
    (assigned : context.assign target op value push wanted code = .ok after) :
    Written context.scope code [] after := by
  simp only [assign, bind_eq_ok] at assigned
  obtain ⟨id, -, assigned⟩ := assigned
  split at assigned
  · exact written_assignSimple writes assigned
  · split at assigned
    · simp only [bind_eq_ok] at assigned
      obtain ⟨added, isAdded, assigned⟩ := assigned
      have first := (@Written.refl context.scope code).increment isAdded
      split at assigned
      · exact first.load assigned
      · rw [pure_eq_ok] at assigned
        exact assigned ▸ first
    · exact written_assignOperated (writes true) assigned

mutual

/-- The code of an expression writes no branch back. -/
theorem written_pushExpr
    (context : CodeContext) :
    ∀ (expr : Expr) (wanted : Bool),
      (context.pushExpr expr wanted).Writes context.scope
  | .intLit _ value, wanted, code, after, pushed
  | .boolLit _ value, wanted, code, after, pushed
  | .stringLit _ value, wanted, code, after, pushed
  | .null _, wanted, code, after, pushed => by
      simp only [pushExpr, Except.ok.injEq] at pushed
      subst pushed
      cases wanted
      · exact .refl
      · exact (@Written.refl context.scope code).emitPlain (by rfl)
  | .name _ ref, wanted, code, after, pushed => by
      cases wanted with
      | false =>
          simp only [pushExpr, Bool.false_eq_true, if_false, Except.ok.injEq] at pushed
          exact pushed ▸ .refl
      | true =>
          simp only [pushExpr, if_true, bind_eq_ok] at pushed
          obtain ⟨id, -, loaded⟩ := pushed
          exact (@Written.refl context.scope code).load loaded
  | .newArray _ component elements, wanted, code, after, pushed => by
      cases wanted with
      | false =>
          simp only [pushExpr, Bool.false_eq_true, if_false] at pushed
          exact written_runExprs context elements pushed
      | true =>
          simp only [pushExpr, if_true, bind_eq_ok, newArray_eq_ok] at pushed
          obtain ⟨type, -, created, ⟨-, rfl⟩, filled⟩ := pushed
          exact (((@Written.refl context.scope code).emitPlain (by rfl)).emitPlain
            (isPlain_creation context.table type)).followedBy
              (written_fillArray context type elements 0 filled)
  | .binary _ op left right, wanted, code, after, pushed => by
      have writesLeft := written_pushExpr context left
      have writesRight := written_pushExpr context right
      cases wanted with
      | false =>
          simp only [pushExpr, Bool.false_eq_true, if_false, bind_eq_ok] at pushed
          obtain ⟨ran, isRan, pushed⟩ := pushed
          exact (writesLeft false isRan).followedBy (writesRight false pushed)
      | true =>
          simp only [pushExpr, if_true] at pushed
          split at pushed
          · have completeLeft := @appends_pushExpr context left true
            have completeRight := @appends_pushExpr context right true
            exact written_testValue
              (fun _ => appends_branchOnComparison completeLeft completeRight)
              (fun isOpen branched => written_branchOnComparison completeLeft completeRight
                (writesLeft true) (writesRight true) isOpen branched) pushed
          · exact written_pushArithmetic (writesLeft true) (writesRight true) pushed
  | .assign _ target op value, wanted, code, after, pushed => by
      have writes := written_pushExpr context value
      simp only [pushExpr] at pushed
      exact written_assign writes pushed
  | .call _ function args, wanted, code, after, pushed => by
      simp only [pushExpr] at pushed
      split at pushed
      · cases pushed
      · simp only [bind_eq_ok, pure_eq_ok] at pushed
        obtain ⟨arguments, arePushed, rfl⟩ := pushed
        exact (written_pushArguments context args _ arePushed).plainly
          (.callFunction .refl _ _ _ _)
  | .methodCall _ receiver method args, wanted, code, after, pushed => by
      simp only [pushExpr] at pushed
      split at pushed
      · cases pushed
      · simp only [bind_eq_ok, pure_eq_ok] at pushed
        obtain ⟨object, isPushed, arguments, arePushed, rfl⟩ := pushed
        exact ((written_pushExpr context receiver true isPushed).followedBy
          (written_pushArguments context args _ arePushed)).plainly
            (.callMethod .refl _ _ _ _)

theorem written_runExprs
    (context : CodeContext) :
    ∀ exprs : List Expr,
      CodeStep.Writes context.scope (context.runExprs exprs)
  | [], code, after, ran => by
      simp only [runExprs, Except.ok.injEq] at ran
      exact ran ▸ .refl
  | expr :: rest, code, after, ran => by
      simp only [runExprs, bind_eq_ok] at ran
      obtain ⟨middle, first, remaining⟩ := ran
      exact (written_pushExpr context expr false first).followedBy
        (written_runExprs context rest remaining)

theorem written_fillArray
    (context : CodeContext)
    (component : Ty) :
    ∀ (exprs : List Expr) (index : Nat),
      CodeStep.Writes context.scope (context.fillArray component exprs index)
  | [], index, code, after, filled => by
      simp only [fillArray, Except.ok.injEq] at filled
      exact filled ▸ .refl
  | expr :: rest, index, code, after, filled => by
      simp only [fillArray, bind_eq_ok] at filled
      obtain ⟨pushed, isPushed, filled⟩ := filled
      have elementKeeps := ((((@Written.refl context.scope code).emitPlain (by rfl)).emitPlain
        (by rfl)).followedBy (written_pushExpr context expr true isPushed)).plainly
          (.convertAssigned .refl context.table (context.exprType expr) component)
      exact (elementKeeps.emitPlain (by rfl)).followedBy
        (written_fillArray context component rest (index + 1) filled)

theorem written_pushArguments
    (context : CodeContext) :
    ∀ (exprs : List Expr) (params : List Ty),
      CodeStep.Writes context.scope (context.pushArguments exprs params)
  | [], params, code, after, pushed => by
      simp only [pushArguments, Except.ok.injEq] at pushed
      exact pushed ▸ .refl
  | expr :: rest, [], code, after, pushed => by
      simp only [pushArguments, Except.ok.injEq] at pushed
      exact pushed ▸ .refl
  | expr :: rest, param :: params, code, after, pushed => by
      simp only [pushArguments, bind_eq_ok] at pushed
      obtain ⟨first, isPushed, pushed⟩ := pushed
      exact ((written_pushExpr context expr true isPushed).plainly
        (.convertAssigned .refl _ _ _)).followedBy
          (written_pushArguments context rest params pushed)

end

/-- Branching on the value of a condition branches to the given target. -/
theorem written_branchOnValue
    {expr : Expr}
    (isOpen : code.IsOpen label)
    (branched : context.branchOnValue expr branchIf label code = .ok after) :
    Written context.scope code [] after := by
  simp only [branchOnValue, bind_eq_ok, pure_eq_ok] at branched
  obtain ⟨pushed, isPushed, rfl⟩ := branched
  have appends := (appends_pushExpr context expr true isPushed).convertAssigned context.table
    (context.exprType expr) .boolean
  exact ((written_pushExpr context expr true isPushed).plainly
    (.convertAssigned .refl _ _ _)).branch (appends.staysOpen isOpen) rfl

/-- Branching on a condition branches to the given target at most. -/
theorem written_branchOn
    {expr : Expr}
    (isOpen : code.IsOpen label)
    (branched : context.branchOn expr branchIf label code = .ok after) :
    Written context.scope code [] after := by
  cases expr with
  | boolLit _ value =>
      simp only [branchOn, Except.ok.injEq] at branched
      subst branched
      split
      · exact (@Written.refl context.scope code).branch isOpen rfl
      · exact .refl
  | binary _ op left right =>
      simp only [branchOn] at branched
      split at branched
      · exact written_branchOnComparison (appends_pushExpr context left true)
          (appends_pushExpr context right true) (written_pushExpr context left true)
          (written_pushExpr context right true) isOpen branched
      · exact written_branchOnValue isOpen branched
  | _ =>
      exact written_branchOnValue isOpen branched

end Expressions

section Loops

variable
  {plan : LoopPlan}

/-- The test of an iterator ends with its branch. -/
theorem exists_asked
    {iterator : LocalId}
    {condition : Condition}
    {label : Label}
    (tested : context.testIterator iterator condition label code = .ok after) :
    ∃ asked, Written context.scope code [] asked ∧ Appends [] code asked ∧
      asked.emit (.branchIf condition label) = after := by
  simp only [testIterator, bind_eq_ok, pure_eq_ok] at tested
  obtain ⟨loaded, isLoaded, isAfter⟩ := tested
  exact ⟨_, (Written.refl.load isLoaded).emitPlain (by rfl),
    ((Appends.refl code).load isLoaded).emit _, isAfter⟩

/-- Starting a loop writes no branch back. -/
theorem written_startLoop :
    CodeStep.Writes context.scope (context.startLoop plan) := by
  intro code after started
  simp only [startLoop] at started
  split at started
  · simp only [bind_eq_ok] at started
    obtain ⟨stored, isStored, started⟩ := started
    have first := (@Written.refl context.scope code).store isStored
    split at started
    · simp only [bind_eq_ok] at started
      obtain ⟨bounded, isBounded, indexed⟩ := started
      exact (((first.emitPlain (by rfl)).store isBounded).emitPlain (by rfl)).store indexed
    · rw [pure_eq_ok] at started
      exact started ▸ first
  · exact ((@Written.refl context.scope code).emitPlain (by rfl)).store started
  · exact ((@Written.refl context.scope code).emitPlain (by rfl)).store started

/-- Fetching an array element writes no branch back. -/
theorem written_fetchIndexed
    {index source : LocalId} :
    CodeStep.Writes context.scope (context.fetchIndexed plan index source) := by
  intro code after fetched
  obtain ⟨loaded, indexed, isLoaded, isIndexed, rfl⟩ := fetchIndexed_eq_ok.mp fetched
  have first := (@Written.refl context.scope code).load isLoaded
  refine Written.plainly ?_ (.convertElement .refl _ _)
  refine Written.emitPlain ?_ rfl
  split at isIndexed
  · exact first.load isIndexed
  · rw [pure_eq_ok] at isIndexed
    exact isIndexed ▸ first.emitPlain (by rfl)

/-- Fetching an element from an iterator writes no branch back. -/
theorem written_fetchIterated
    {iterator : LocalId} :
    CodeStep.Writes context.scope (context.fetchIterated plan iterator) := by
  intro code after fetched
  simp only [fetchIterated, bind_eq_ok, pure_eq_ok] at fetched
  obtain ⟨loaded, isLoaded, rfl⟩ := fetched
  have first := ((@Written.refl context.scope code).load isLoaded).emitPlain
    (show (context.iteratorCall "next" .object).isPlain = true from rfl)
  split
  · exact first
  · split
    · exact first.emitPlain (by rfl)
    · exact (first.emitPlain (by rfl)).plainly (.convertElement .refl _ _)

/-- Binding the loop variable writes no branch back. -/
theorem written_bindElement :
    CodeStep.Writes context.scope (context.bindElement plan) := by
  intro code after bound
  simp only [bindElement, bind_eq_ok, pure_eq_ok] at bound
  obtain ⟨stored, isStored, rfl⟩ := bound
  have first := (@Written.refl context.scope code).store isStored
  split
  · exact first.sameCode (openAssigned_same _ _ _ _)
  · exact first

/-- Fetching an element writes no branch back. -/
theorem written_fetchElement :
    CodeStep.Writes context.scope (context.fetchElement plan) := by
  intro code after fetched
  simp only [fetchElement] at fetched
  split at fetched
  · split at fetched
    · simp only [bind_eq_ok] at fetched
      obtain ⟨element, isElement, bound⟩ := fetched
      exact (written_fetchIndexed isElement).followedBy (written_bindElement bound)
    · rw [pure_eq_ok] at fetched
      exact fetched ▸ .refl
  all_goals
    simp only [bind_eq_ok] at fetched
    obtain ⟨element, isElement, bound⟩ := fetched
    split at bound
    · exact (written_fetchIterated isElement).followedBy (written_bindElement bound)
    · rw [pure_eq_ok] at bound
      exact bound ▸ (written_fetchIterated isElement).emitPlain (by rfl)

/-- The test at the top of a loop branches to its end. -/
theorem written_testAtTop
    {labels : LoopLabels}
    (testOpen : code.IsOpen labels.test)
    (exitOpen : code.IsOpen labels.exit)
    (differs : labels.test ≠ labels.exit)
    (tested : context.testAtTop plan labels code = .ok after) :
    Written context.scope code [] after := by
  have placed : Written context.scope code [] (code.place labels.test) :=
    Written.refl.place testOpen
  have staysOpen : (code.place labels.test).IsOpen labels.exit :=
    (labels_place differs).trans exitOpen
  cases strategy : plan.resolution.strategy with
  | array index bound source =>
      simp only [testAtTop, strategy, bind_eq_ok, pure_eq_ok] at tested
      obtain ⟨found, rfl, rfl⟩ := tested
      have counted := (Appends.refl (code.place labels.test)).emit .arrayLength
      exact ((placed.emitPlain (by rfl)).branch (counted.staysOpen staysOpen) (by rfl)).sameCode
        (markSource_same _ _ _)
  | rawIterable iterator receiver | genericIterable iterator receiver =>
      simp only [testAtTop, strategy, bind_eq_ok, pure_eq_ok] at tested
      obtain ⟨found, isFound, rfl⟩ := tested
      obtain ⟨asked, written, appends, rfl⟩ := exists_asked isFound
      exact ((placed.followedBy written).branch (appends.staysOpen staysOpen) rfl).sameCode
        (markSource_same _ _ _)

/-- The test at the bottom of a loop branches back to its action, which is placed
before. -/
theorem written_testAtBottom
    {labels : LoopLabels}
    {next : Label}
    {offset : Nat}
    (nextOpen : code.IsOpen next)
    (testOpen : code.IsOpen labels.test)
    (differs : next ≠ labels.test)
    (isPlaced : code.offset? labels.action = some offset)
    (isBefore : offset ≤ code.position)
    (tested : context.testAtBottom plan labels next code = .ok after) :
    Written context.scope code [labels.action] after := by
  have continued : Written context.scope code [] (code.place next) := Written.refl.place nextOpen
  have toContinued := extends_place nextOpen.offset?
  have staysOpen : (code.place next).IsOpen labels.test := (labels_place differs).trans testOpen
  cases strategy : plan.resolution.strategy with
  | array index bound source =>
      obtain ⟨moved, indexed, bounded, isMoved, isIndexed, isBounded, rfl⟩ :=
        (testAtBottom_array_eq_ok strategy).mp tested
      have moves : Written context.scope code [] moved ∧ Appends [] (code.place next) moved := by
        split at isMoved
        · exact ⟨continued.increment isMoved, (Appends.refl _).increment isMoved⟩
        · rw [pure_eq_ok] at isMoved
          exact isMoved ▸ ⟨continued, .refl _⟩
      have movedOpen := moves.2.staysOpen staysOpen
      have compares := ((Appends.refl (moved.place labels.test)).load isIndexed).load isBounded
      have reaches := ((toContinued.trans moves.2.extends_).trans
        (extends_place movedOpen.offset?)).trans compares.extends_
      exact ((((moves.1.place movedOpen).load isIndexed).load isBounded).turn
        (reaches.stays isPlaced) (Nat.le_trans isBefore reaches.position) (by rfl)).sameCode
          (markSource_same _ _ _)
  | rawIterable iterator receiver | genericIterable iterator receiver =>
      simp only [testAtBottom, strategy, bind_eq_ok, pure_eq_ok] at tested
      obtain ⟨found, isFound, rfl⟩ := tested
      obtain ⟨asked, written, appends, rfl⟩ := exists_asked isFound
      have reaches := (toContinued.trans (extends_place staysOpen.offset?)).trans
        appends.extends_
      exact (((continued.place staysOpen).followedBy written).turn (reaches.stays isPlaced)
        (Nat.le_trans isBefore reaches.position) (by rfl)).sameCode (markSource_same _ _ _)

namespace Iteration

variable
  {collection : Expr}
  {body : JumpTarget → CodeStep}

/-- The branch targets of a loop are open where it is entered. -/
theorem isOpen_labeled
    (iteration : context.Iteration plan collection body code after) :
    ∀ label ∈ iteration.labels.next.toList ++ [iteration.labels.exit, iteration.labels.test,
        iteration.labels.action],
      iteration.labeled.IsOpen label :=
  fun label member => ((LoopLabels.appends_made iteration.isLabeled).isOpen label member).2

/-- A loop is entered by its test. -/
theorem written_entered
    (iteration : context.Iteration plan collection body code after) :
    Written context.scope iteration.labeled [] iteration.entered := by
  have isOpen := iteration.isOpen_labeled
  have isEntered := iteration.isEntered
  obtain ⟨-, isTest, isExit, -⟩ := LoopLabels.numbers iteration.isLabeled
  simp only [enterLoop] at isEntered
  split at isEntered
  · rw [← Except.ok.inj isEntered]
    exact Written.refl.branch (isOpen iteration.labels.test (by simp)) (by rfl)
  · refine written_testAtTop (isOpen _ (by simp)) (isOpen _ (by simp)) ?_ isEntered
    rw [isTest, isExit]
    exact Nat.ne_of_lt (Nat.lt_succ_self _)

/-- Making the branch targets of a loop writes no instruction. -/
theorem written_labeled
    (iteration : context.Iteration plan collection body code after) :
    Written context.scope iteration.started [] iteration.labeled := by
  have isLabeled := iteration.isLabeled
  have three : Written context.scope iteration.started []
      iteration.started.addLabel.addLabel.addLabel :=
    Written.refl.addLabel.addLabel.addLabel
  unfold LoopLabels.made at isLabeled
  split at isLabeled
  · rw [← (Prod.mk.inj isLabeled).2]
    exact three.addLabel
  · rw [← (Prod.mk.inj isLabeled).2]
    exact three

/-- The action of a loop is placed where its body is entered. -/
theorem offset?_action
    (iteration : context.Iteration plan collection body code after)
    (complete : ∀ target, (body target).Appends) :
    iteration.ran.offset? iteration.labels.action = some iteration.entered.position ∧
      iteration.entered.position ≤ iteration.ran.position := by
  have made : iteration.labels.action < iteration.entered.labels.size :=
    (iteration.appends_entered.isOpen_label _ (by simp)).1
  have appends := (appends_fetchElement iteration.isFetched).trans (complete _ iteration.isRan)
  exact ⟨appends.extends_.stays (offset?_place made), appends.position⟩

/-- A loop that comes back branches back to its action after its body, and no other
loop branches back by itself. -/
theorem written
    (iteration : context.Iteration plan collection body code after)
    (complete : ∀ target, (body target).Appends)
    {back : List Label}
    (wrote : Written context.scope iteration.fetched back iteration.ran) :
    Written context.scope code
      (back ++ if plan.continues then [iteration.labels.action] else []) after := by
  have started := (written_pushExpr context collection true iteration.isPushed).followedBy
    (written_startLoop iteration.isStarted)
  have actionOpen : iteration.entered.IsOpen iteration.labels.action :=
    (iteration.appends_entered.isOpen _ (by simp)).2
  have fetched := (((started.followedBy iteration.written_labeled).followedBy
    iteration.written_entered).place actionOpen).followedBy
      (written_fetchElement iteration.isFetched)
  have ran := (fetched.trans wrote).sameCode (sameCode_closeBody context plan iteration.ran)
  have sameClosed := sameCode_closeBody context plan iteration.ran
  have closed := (iteration.appends_ran complete).sameCode sameClosed
  have exitOpen := ((iteration.appends_repeated complete).sameCode
    (sameCode_leaveLoop context plan iteration.repeated)).isOpen iteration.labels.exit (by simp)
  have repeated : Written context.scope (context.closeBody plan iteration.ran)
      (if plan.continues then [iteration.labels.action] else []) iteration.repeated := by
    have isRepeated := iteration.isRepeated
    obtain ⟨-, isTest, -, isNext⟩ := LoopLabels.numbers iteration.isLabeled
    cases continues : plan.continues with
    | false =>
        simp only [continues, Bool.false_eq_true, if_false] at isNext
        simp only [isNext, pure_eq_ok] at isRepeated
        exact isRepeated ▸ .refl
    | true =>
        simp only [continues, if_true] at isNext
        simp only [isNext] at isRepeated
        obtain ⟨isPlaced, isBefore⟩ := iteration.offset?_action complete
        have differs : iteration.started.nextLabel + 3 ≠ iteration.labels.test := by
          rw [isTest]
          exact (Nat.ne_of_lt (Nat.lt_of_lt_of_le (Nat.lt_succ_self _) (Nat.le_succ _))).symm
        have closedPlaced : (context.closeBody plan iteration.ran).offset?
            iteration.labels.action = some iteration.entered.position := by
          rw [offset?, sameClosed.2]
          exact isPlaced
        have closedBefore : iteration.entered.position ≤
            (context.closeBody plan iteration.ran).position := by
          simp only [position, sameClosed.1] at isBefore ⊢
          exact isBefore
        exact written_testAtBottom (closed.isOpen _ (by simp [LoopLabels.outward, isNext])).2
          (closed.isOpen _ (by simp [LoopLabels.outward, isNext])).2 differs closedPlaced
          closedBefore isRepeated
  have left := ((ran.trans repeated).sameCode
    (sameCode_leaveLoop context plan iteration.repeated)).place exitOpen.2
  rw [iteration.isAfter] at left
  exact left

end Iteration

end Loops

end CodeContext

end LoopLowering
