import LoopLowering.Proofs.Code.Methods
import LoopLowering.Proofs.Flow.LoopMarks
import LoopLowering.Proofs.Resolution.ReservedNames

namespace LoopLowering

/-!
# Slots of the locals that loops introduce

Where names are not reserved, no expression reads or assigns a local that a loop
introduces. So such a local is used only if flow analysis marked it when it left the
loop, and it has a slot exactly if the code of the loop needs it.
-/

mutual

/-- The head of a loop in a statement is that of a part of it. -/
theorem Stmt.exists_part_of_mem_heads :
    ∀ {stmt : Stmt} {head : LocalDecl × LoopFacts},
      head ∈ stmt.heads →
      ∃ span collection action, .forEach span head.1 collection action head.2 ∈ stmt.parts
  | .localVar .., head, member | .expr .., head, member | .breakTo .., head, member
  | .continueTo .., head, member | .returnWith .., head, member | .empty _, head, member => by
      simp [heads] at member
  | .block span stmts facts, head, member => by
      simp only [heads] at member
      obtain ⟨position, collection, action, isPart⟩ := exists_part_of_mem_allHeads member
      exact ⟨position, collection, action, by simp [parts, isPart]⟩
  | .branch span condition thenBranch none, head, member => by
      simp only [heads] at member
      obtain ⟨position, collection, action, isPart⟩ := exists_part_of_mem_heads member
      exact ⟨position, collection, action, by simp [parts, isPart]⟩
  | .branch span condition thenBranch (some elseBranch), head, member => by
      simp only [heads, List.mem_append] at member
      rcases member with inThen | inElse
      · obtain ⟨position, collection, action, isPart⟩ := exists_part_of_mem_heads inThen
        exact ⟨position, collection, action, by simp [parts, isPart]⟩
      · obtain ⟨position, collection, action, isPart⟩ := exists_part_of_mem_heads inElse
        exact ⟨position, collection, action, by simp [parts, isPart]⟩
  | .forEach span element collection none facts, head, member => by
      simp only [heads, List.mem_singleton] at member
      subst member
      exact ⟨span, collection, none, by simp [parts]⟩
  | .forEach span element collection (some action) facts, head, member => by
      simp only [heads, List.mem_cons] at member
      rcases member with rfl | inAction
      · exact ⟨span, collection, some action, by simp [parts]⟩
      · obtain ⟨position, inner, part, isPart⟩ := exists_part_of_mem_heads inAction
        exact ⟨position, inner, part, by simp [parts, isPart]⟩
  | .labeled span label body, head, member => by
      simp only [heads] at member
      obtain ⟨position, collection, action, isPart⟩ := exists_part_of_mem_heads member
      exact ⟨position, collection, action, by simp [parts, isPart]⟩

theorem Stmt.exists_part_of_mem_allHeads :
    ∀ {stmts : List Stmt} {head : LocalDecl × LoopFacts},
      head ∈ Stmt.allHeads stmts →
      ∃ span collection action,
        .forEach span head.1 collection action head.2 ∈ Stmt.allParts stmts
  | [], head, member => by
      simp [allHeads] at member
  | stmt :: rest, head, member => by
      simp only [allHeads, List.mem_append] at member
      rcases member with inFirst | inRest
      · obtain ⟨span, collection, action, isPart⟩ := exists_part_of_mem_heads inFirst
        exact ⟨span, collection, action, by simp [allParts, isPart]⟩
      · obtain ⟨span, collection, action, isPart⟩ := exists_part_of_mem_allHeads inRest
        exact ⟨span, collection, action, by simp [allParts, isPart]⟩

end

namespace CodeContext

variable
  {strict : Bool}
  {context : CodeContext}

/-- A loop is resolved and entered from somewhere. -/
def EntersHead
    (context : CodeContext)
    (strict : Bool) :
    Stmt → Prop
  | .forEach _ element collection action facts =>
      ∃ outer first inner resolution before,
        context.LoopHead strict element collection facts outer first inner resolution ∧
          context.EntersLoop element collection action facts before
  | _ => True

mutual

/-- The loops in a resolved statement that runs are entered. -/
theorem entersHeads_of_runs :
    ∀ {stmt : Stmt} {block first : Nat} {frames : List JumpFrame} {before : VarSet}
        {exit : FlowExit},
      context.Resolved strict stmt block first →
      context.Runs stmt frames before exit →
      ∀ part ∈ stmt.parts, context.EntersHead strict part
  | .localVar .., block, first, frames, before, exit, _, _
  | .expr .., block, first, frames, before, exit, _, _
  | .breakTo .., block, first, frames, before, exit, _, _
  | .continueTo .., block, first, frames, before, exit, _, _
  | .returnWith .., block, first, frames, before, exit, _, _
  | .empty _, block, first, frames, before, exit, _, _ => by
      simp [Stmt.parts, EntersHead]
  | .block span stmts facts, block, first, frames, before, exit, resolved, runs => by
      rw [Resolved] at resolved
      rw [Runs] at runs
      obtain ⟨inner, -, -, resolvedBody⟩ := resolved
      simp only [Stmt.parts, List.forall_mem_cons]
      exact ⟨trivial, entersHeads_of_allRun resolvedBody runs.2⟩
  | .branch span condition thenBranch none, block, first, frames, before, exit, resolved,
      runs => by
      rw [Resolved] at resolved
      rw [Runs] at runs
      simp only [Stmt.parts, List.forall_mem_cons]
      exact ⟨trivial, entersHeads_of_runs resolved.2 runs.2.1⟩
  | .branch span condition thenBranch (some elseBranch), block, first, frames, before, exit,
      resolved, runs => by
      rw [Resolved] at resolved
      rw [Runs] at runs
      simp only [Stmt.parts, List.forall_mem_cons, List.forall_mem_append]
      exact ⟨trivial, entersHeads_of_runs resolved.2.1 runs.2.1,
        entersHeads_of_runs resolved.2.2 runs.2.2⟩
  | .forEach span element collection none facts, block, first, frames, before, exit, resolved,
      runs => by
      rw [Resolved] at resolved
      rw [Runs] at runs
      obtain ⟨inner, resolution, head⟩ := resolved
      simp only [Stmt.parts, List.forall_mem_singleton]
      exact ⟨block, first, inner, resolution, before, head, runs.1⟩
  | .forEach span element collection (some action) facts, block, first, frames, before, exit,
      resolved, runs => by
      rw [Resolved] at resolved
      rw [Runs] at runs
      obtain ⟨inner, resolution, head, resolvedAction⟩ := resolved
      obtain ⟨enters, -, runsAction⟩ := runs
      simp only [Stmt.parts, List.forall_mem_cons]
      refine ⟨⟨block, first, inner, resolution, before, head, enters⟩, ?_⟩
      rcases runsAction with ⟨isEmpty, -⟩ | ⟨-, runsAction⟩
      · cases action with
        | block span stmts facts =>
            cases stmts with
            | nil => simp [Stmt.parts, Stmt.allParts, EntersHead]
            | cons stmt rest => cases isEmpty
        | _ => cases isEmpty
      · exact entersHeads_of_runs resolvedAction runsAction
  | .labeled span label body, block, first, frames, before, exit, resolved, runs => by
      rw [Resolved] at resolved
      rw [Runs] at runs
      simp only [Stmt.parts, List.forall_mem_cons]
      exact ⟨trivial, entersHeads_of_runs resolved runs⟩

theorem entersHeads_of_allRun :
    ∀ {stmts : List Stmt} {block first : Nat} {frames : List JumpFrame} {before : VarSet}
        {exit : FlowExit},
      context.AllResolved strict stmts block first →
      context.AllRun stmts frames before exit →
      ∀ part ∈ Stmt.allParts stmts, context.EntersHead strict part
  | [], block, first, frames, before, exit, _, _ => by
      simp [Stmt.allParts]
  | stmt :: rest, block, first, frames, before, exit, resolved, runs => by
      rw [AllResolved] at resolved
      rw [AllRun] at runs
      obtain ⟨middle, runsFirst, ends, runsRest⟩ := runs
      simp only [Stmt.allParts, List.forall_mem_append]
      refine ⟨entersHeads_of_runs resolved.1 runsFirst, ?_⟩
      cases middle with
      | none =>
          rw [ends rfl]
          simp [Stmt.allParts]
      | some set =>
          exact entersHeads_of_allRun resolved.2 (runsRest set rfl)

end

/-- The locals that a loop over an array introduces differ. -/
theorem Iterates.ne_of_array
    {declared collection : Ty}
    {block first : Nat}
    {resolution : LoopResolution}
    {index bound source : LocalId}
    (iterates : context.Iterates declared collection block first resolution)
    (strategy : resolution.strategy = .array index bound source) :
    index ≠ source ∧ bound ≠ source := by
  obtain ⟨shape, -, isStrategy, -⟩ := iterates.shaped
  rw [strategy] at isStrategy
  cases shape with
  | array =>
      cases isStrategy
      exact ⟨by simp, by simp⟩
  | rawIterable receiver | genericIterable receiver =>
      cases isStrategy

/-- The element of a loop is none of the locals that the loop introduces. -/
theorem LoopHead.notMem_synthetics
    {element : LocalDecl}
    {collection : Expr}
    {facts : LoopFacts}
    {outer first inner : Nat}
    {resolution : LoopResolution}
    (head : context.LoopHead strict element collection facts outer first inner resolution) :
    first ∉ resolution.strategy.synthetics := by
  obtain ⟨ty, -, iterates⟩ := head.iterated
  exact fun member => absurd (iterates.introduces first member).1 (Nat.not_succ_le_self first)

/-- What a loop needs and provides is used. -/
theorem Provides.isUsed
    {strategy : LoopStrategy}
    {element : LocalDecl}
    {id : Nat}
    {action : Option Stmt}
    {continues : Bool}
    (provides : context.Provides strategy (Stmt.isEmptyAction action) id continues)
    (isBinding : element.binding = some id) :
    ∀ synthetic ∈ strategy.synthetics,
      strategy.needs (context.touchesElements element action) continues synthetic = true →
      (context.localAt synthetic).isUsed = true := by
  intro synthetic member needed
  cases strategy with
  | array index bound source =>
      simp only [LoopStrategy.needs, Bool.and_eq_true, Bool.or_eq_true, beq_iff_eq] at needed
      obtain ⟨touched, isOne⟩ := needed
      have isTouched : Stmt.isEmptyAction action = false ∨ context.hasSlot id = true := by
        simpa [touchesElements, isBinding] using touched
      obtain ⟨sourceUsed, others⟩ := provides isTouched
      rcases isOne with rfl | ⟨continues, rfl | rfl⟩
      · exact sourceUsed
      · exact (others continues).1
      · exact (others continues).2
  | rawIterable iterator receiver | genericIterable iterator receiver =>
      simp only [LoopStrategy.synthetics, List.mem_singleton] at member
      subst member
      exact provides

end CodeContext

section Methods

variable
  {strict : Bool}
  {table : ClassTable}
  {options : CompilerOptions}
  {method : Method}

/-- A local of a method with slots is used as flow analysis left it. -/
theorem isUsed_loweringContext
    {id : Nat}
    (known : id < (loweringContext table options method).scope.locals.size) :
    ((loweringContext table options method).localAt id).isUsed =
      ((method.analyzedBody table options).point.state.scope.localAt id).isUsed := by
  have sameCount := (marks_assignSlots options.keepUnusedLocals
    (analyzedMethod table options method).state).sameCount
  have slotted := MethodScope.localAt_assignSlots options.keepUnusedLocals
    (analyzedMethod table options method).state.scope id
  rw [if_pos (sameCount ▸ known)] at slotted
  change (((analyzedMethod table options method).state.scope.assignSlots
    options.keepUnusedLocals).localAt id).isUsed = _
  rw [slotted, scope_analyzedMethod]

/-- In a method without reserved names, what a loop introduces is no parameter, and it is
used after flow analysis only if flow analysis marks it. -/
theorem reserved_loweringContext
    (unreserved : method.isUnreserved = true)
    {id : Nat}
    (known : id < (loweringContext table options method).scope.locals.size)
    (isSynthetic : ((loweringContext table options method).localAt id).isSynthetic = true) :
    ((loweringContext table options method).localAt id).isParam = false ∧
      ((checkMethod table options method .initial).state.scope.localAt id).isUsed = false := by
  have marks := marks_loweringContext table options method
  have persists := marks.scope.persists id (marks.sameCount ▸ known)
  have isReserved := Method.reserves_checkMethod table options unreserved id
    (persists.isSynthetic ▸ isSynthetic)
  exact ⟨persists.isParam.trans isReserved.2.1, isReserved.2.2⟩

/-- In a method without errors and without reserved names, the locals that a loop
introduces are used, and have slots, exactly if the code of the loop needs them. -/
theorem hasSlot_synthetic
    (tableSound : table.Sound strict)
    (allowed : method.isAllowed strict = true)
    (clean : (analyzedMethod table options method).state.Clean)
    (unreserved : method.isUnreserved = true)
    {span : Span}
    {element : LocalDecl}
    {collection : Expr}
    {action : Option Stmt}
    {facts : LoopFacts}
    {resolution : LoopResolution}
    (isPart : .forEach span element collection action facts ∈
      Stmt.allParts (method.analyzedBody table options).nodes)
    (classified : facts.classification = .resolved resolution)
    {id : Nat}
    (introduced : id ∈ resolution.strategy.synthetics) :
    ((loweringContext table options method).localAt id).isUsed =
        resolution.strategy.needs
          ((loweringContext table options method).touchesElements element action)
          facts.continues id ∧
      (loweringContext table options method).hasSlot id =
        ((loweringContext table options method).localAt id).isUsed := by
  obtain ⟨resolvedBody, count⟩ := resolved_body tableSound allowed clean
  have resolved := (resolved_analyzedBody tableSound allowed clean).1
  have runs := (runs_body tableSound allowed clean).2
  obtain ⟨outer, first, inner, found, before, head, enters⟩ :=
    CodeContext.entersHeads_of_allRun resolved runs _ isPart
  obtain rfl := LoopClassification.resolved.inj (classified.symm.trans head.classification)
  obtain ⟨ty, -, iterates⟩ := head.iterated
  have known := iterates.known_synthetics id introduced
  have isSynthetic : ((loweringContext table options method).localAt id).isSynthetic = true :=
    (iterates.introduces id introduced).2.2.choose_spec.isSynthetic
  have notParam := (reserved_loweringContext unreserved known isSynthetic).1
  constructor
  · cases needed : resolution.strategy.needs
      ((loweringContext table options method).touchesElements element action) facts.continues id with
    | true =>
        exact (enters.provides resolution first classified head.binding).isUsed head.binding id
          introduced needed
    | false =>
        have spare := CodeContext.allSpare_analyzeStmts
          (fun _ => CodeContext.hasSlot_loweringContext) resolvedBody
          (.atBody (checkMethod table options method .initial).node.params
            (checkMethod table options method .initial).state)
          (fun other within => (reserved_loweringContext unreserved
            (by rw [count]; exact within.2.1) within.2.2).2)
          (agrees_body tableSound allowed clean)
          ⟨(marks_analyzedBody table options method).toLeads, clean⟩
        rw [isUsed_loweringContext known]
        exact (spare _ isPart resolution classified id introduced needed).2
  · rw [CodeContext.hasSlot_loweringContext known]
    simp [LocalVariable.isMaterialized, notParam, isSynthetic]

end Methods

end LoopLowering
