import LoopLowering.Lowering
import LoopLowering.Proofs.Code.Statements
import LoopLowering.Proofs.Flow.Methods

namespace LoopLowering

/-!
# Which methods have code

A method without errors has code exactly if each expression that its code
evaluates can be generated. No jump in it lacks a target, no loop lacks a local,
and no branch target is left open.
-/

namespace CodeContext

/-- The expressions that the code of a declaration evaluates, and whether their
values are wanted. -/
def declarationEmissions
    (context : CodeContext)
    (decl : LocalDecl) :
    List (Expr × Bool) :=
  match decl.initial with
  | some value => [(value, decl.binding.any context.hasSlot)]
  | none => []

/-- The expressions that the code of a loop evaluates itself. -/
def loopEmissions
    (context : CodeContext)
    (element : LocalDecl)
    (collection : Expr)
    (action : Option Stmt)
    (facts : LoopFacts) :
    List (Expr × Bool) :=
  match facts.classification.strategy?, element.binding with
  | some strategy, some id =>
      if facts.reachable then
        [(collection, !(Stmt.isEmptyAction action && !context.hasSlot id && strategy.isArray))]
      else
        []
  | _, _ => []

mutual

/-- The expressions that the code of a statement evaluates, and whether their
values are wanted. -/
def emissions
    (context : CodeContext) :
    Stmt → List (Expr × Bool)
  | .localVar _ decl => context.declarationEmissions decl
  | .expr _ value => [(value, false)]
  | .block _ stmts facts => context.allEmissions stmts facts.unreachableFrom
  | .branch _ condition thenBranch none => (condition, true) :: context.emissions thenBranch
  | .branch _ condition thenBranch (some elseBranch) =>
      (condition, true) :: (context.emissions thenBranch ++ context.emissions elseBranch)
  | .forEach _ element collection none facts =>
      context.loopEmissions element collection none facts
  | .forEach _ element collection (some action) facts =>
      context.loopEmissions element collection (some action) facts ++
        if facts.reachable && !Stmt.isEmptyAction (some action) && facts.actionReachable then
          context.emissions action
        else
          []
  | .labeled _ _ body => context.emissions body
  | .returnWith _ (some value) => [(value, true)]
  | .breakTo .. | .continueTo .. | .returnWith _ none | .empty _ => []

/-- The expressions that the code of statements evaluates, as many as a limit
allows. -/
def allEmissions
    (context : CodeContext) :
    List Stmt → (limit : Option Nat) → List (Expr × Bool)
  | [], _ => []
  | _ :: _, some 0 => []
  | stmt :: rest, limit => context.emissions stmt ++ context.allEmissions rest (limit.map Nat.pred)

end

/-- Every one of some expressions can be generated as it is wanted. -/
def CanEmit
    (context : CodeContext)
    (emissions : List (Expr × Bool)) :
    Prop :=
  ∀ emission ∈ emissions, context.Emittable emission.1 emission.2 = true

section CanEmit

variable
  {context : CodeContext}

@[simp] theorem canEmit_cons
    {expr : Expr}
    {wanted : Bool}
    {rest : List (Expr × Bool)} :
    context.CanEmit ((expr, wanted) :: rest) ↔
      context.Emittable expr wanted = true ∧ context.CanEmit rest := by
  simp [CanEmit]

@[simp] theorem canEmit_append
    {first second : List (Expr × Bool)} :
    context.CanEmit (first ++ second) ↔ context.CanEmit first ∧ context.CanEmit second := by
  simp only [CanEmit, List.mem_append]
  exact ⟨fun all => ⟨fun emission member => all emission (.inl member),
    fun emission member => all emission (.inr member)⟩,
    fun both emission member => member.elim (both.1 emission) (both.2 emission)⟩

@[simp] theorem canEmit_nil :
    context.CanEmit [] := by
  simp [CanEmit]

end CanEmit

end CodeContext

/-- The expressions that the code of a method evaluates, and whether their
values are wanted. -/
def Method.emissions
    (table : ClassTable)
    (options : CompilerOptions)
    (method : Method) :
    List (Expr × Bool) :=
  let body := (analyzedMethod table options method).node.body
  (loweringContext table options method).allEmissions body.stmts body.facts.unreachableFrom

/-- The targets of jumps that code generation knows offer the exits of the
frames around a statement. -/
def JumpFrame.Mirrors :
    List JumpFrame → List JumpTarget → Prop
  | [], [] => True
  | .loop _ onContinue :: frames, .loop _ target :: targets =>
      (onContinue.isSome = true → target.isSome = true) ∧ Mirrors frames targets
  | .label name labelsLoop _ :: frames, .label other _ otherLoop :: targets =>
      other = name ∧ otherLoop = labelsLoop ∧ Mirrors frames targets
  | _, _ => False

namespace JumpFrame.Mirrors

/-- A break to an exit has a branch target. -/
theorem exists_ofBreak
    {wanted : Option String}
    {set : VarSet} :
    ∀ {frames : List JumpFrame} {targets : List JumpTarget},
      Mirrors frames targets →
      (breakExit wanted frames).Admits set →
      ∃ label, JumpTarget.ofBreak targets wanted = .ok label
  | [], [], _, admits => by
      obtain ⟨needed, isExit, -⟩ := admits
      cases isExit
  | .loop onBreak _ :: frames, .loop target _ :: targets, mirrors, admits => by
      simp only [breakExit] at admits
      cases unlabeled : wanted.isNone with
      | true =>
          exact ⟨target, by simp [JumpTarget.ofBreak, JumpTarget.breakLabel?, unlabeled]⟩
      | false =>
          simp only [unlabeled, Bool.false_eq_true, if_false] at admits
          obtain ⟨label, found⟩ := exists_ofBreak mirrors.2 admits
          exact ⟨label, by simpa [JumpTarget.ofBreak, JumpTarget.breakLabel?, unlabeled] using found⟩
  | .label name _ onBreak :: frames, .label other target _ :: targets, mirrors, admits => by
      obtain ⟨sameName, -, mirrors⟩ := mirrors
      simp only [breakExit] at admits
      by_cases named : wanted = some name
      · exact ⟨target, by simp [JumpTarget.ofBreak, JumpTarget.breakLabel?, named, sameName]⟩
      · simp only [named, if_false] at admits
        obtain ⟨label, found⟩ := exists_ofBreak mirrors admits
        exact ⟨label, by
          simpa [JumpTarget.ofBreak, JumpTarget.breakLabel?, named, sameName] using found⟩
  | [], _ :: _, mirrors, _ => mirrors.elim
  | .loop _ _ :: _, [], mirrors, _ => mirrors.elim
  | .label .. :: _, [], mirrors, _ => mirrors.elim
  | .loop _ _ :: _, .label .. :: _, mirrors, _ => mirrors.elim
  | .label .. :: _, .loop _ _ :: _, mirrors, _ => mirrors.elim

/-- A plain continue to an exit has a branch target. -/
theorem exists_innermost
    {set : VarSet} :
    ∀ {frames : List JumpFrame} {targets : List JumpTarget},
      Mirrors frames targets →
      (innermostContinue frames).Admits set →
      ∃ target label, targets.find? JumpTarget.isLoop = some target ∧
        target.continueLabel? = some label
  | [], [], _, admits => by
      obtain ⟨needed, isExit, -⟩ := admits
      cases isExit
  | .loop _ onContinue :: frames, .loop onBreak target :: targets, mirrors, admits => by
      obtain ⟨needed, isExit, -⟩ := admits
      rw [innermostContinue] at isExit
      obtain ⟨label, isTarget⟩ := Option.isSome_iff_exists.mp (mirrors.1 (by simp [isExit]))
      exact ⟨.loop onBreak target, label, by simp [JumpTarget.isLoop], isTarget⟩
  | .label .. :: frames, .label .. :: targets, mirrors, admits => by
      obtain ⟨target, label, found, isTarget⟩ := exists_innermost mirrors.2.2 admits
      exact ⟨target, label, by simpa [JumpTarget.isLoop] using found, isTarget⟩
  | [], _ :: _, mirrors, _ => mirrors.elim
  | .loop _ _ :: _, [], mirrors, _ => mirrors.elim
  | .label .. :: _, [], mirrors, _ => mirrors.elim
  | .loop _ _ :: _, .label .. :: _, mirrors, _ => mirrors.elim
  | .label .. :: _, .loop _ _ :: _, mirrors, _ => mirrors.elim

/-- A labeled continue to an exit has a branch target. -/
theorem exists_inside
    {name : String}
    {set : VarSet} :
    ∀ {frames : List JumpFrame} {targets : List JumpTarget} (inside : Option JumpTarget),
      Mirrors frames targets →
      (continueExitTo name frames).Admits set →
      ∃ target label, JumpTarget.insideOf? (JumpTarget.labelsLoopAs name) inside targets =
          some target ∧ target.continueLabel? = some label
  | [], [], _, _, admits => by
      obtain ⟨needed, isExit, -⟩ := admits
      cases isExit
  | .loop onBreak onContinue :: .label other labelsLoop labelBreak :: frames,
      .loop target next :: .label found outer otherLoop :: targets, inside, mirrors, admits => by
      obtain ⟨continues, sameName, sameLoop, rest⟩ := mirrors
      simp only [continueExitTo] at admits
      by_cases named : other = name
      · cases isLoop : labelsLoop with
        | false =>
            obtain ⟨needed, isExit, -⟩ := admits
            simp [named, isLoop] at isExit
        | true =>
            obtain ⟨needed, isExit, -⟩ := admits
            rw [if_pos named, if_pos isLoop] at isExit
            obtain ⟨label, isTarget⟩ := Option.isSome_iff_exists.mp (continues (by simp [isExit]))
            exact ⟨.loop target next, label, by
              simp [JumpTarget.insideOf?, JumpTarget.labelsLoopAs, sameName, sameLoop, named,
                isLoop], isTarget⟩
      · simp only [named, if_false] at admits
        have mirrored : Mirrors (.label other labelsLoop labelBreak :: frames)
            (.label found outer otherLoop :: targets) := ⟨sameName, sameLoop, rest⟩
        have deeper : (continueExitTo name
            (.label other labelsLoop labelBreak :: frames)).Admits set := by
          simpa [continueExitTo, named] using admits
        obtain ⟨inner, label, isInner, isTarget⟩ := exists_inside (some (.loop target next))
          mirrored deeper
        exact ⟨inner, label, by
          simpa [JumpTarget.insideOf?, JumpTarget.labelsLoopAs] using isInner, isTarget⟩
  | [.loop _ _], [.loop _ _], inside, mirrors, admits => by
      obtain ⟨needed, isExit, -⟩ := admits
      cases isExit
  | .loop _ _ :: .loop onBreak onContinue :: frames, .loop target next :: .loop inner again :: targets,
      inside, mirrors, admits => by
      have mirrored : Mirrors (.loop onBreak onContinue :: frames)
          (.loop inner again :: targets) := mirrors.2
      obtain ⟨found, label, isFound, isTarget⟩ := exists_inside (some (.loop target next)) mirrored
        admits
      exact ⟨found, label, by
        simpa [JumpTarget.insideOf?, JumpTarget.labelsLoopAs] using isFound, isTarget⟩
  | .label other labelsLoop _ :: frames, .label found target otherLoop :: targets, inside, mirrors,
      admits => by
      obtain ⟨sameName, sameLoop, rest⟩ := mirrors
      simp only [continueExitTo] at admits
      by_cases named : other = name
      · obtain ⟨needed, isExit, -⟩ := admits
        simp [named] at isExit
      · simp only [named, if_false] at admits
        obtain ⟨inner, label, isInner, isTarget⟩ := exists_inside
          (some (.label found target otherLoop)) rest admits
        exact ⟨inner, label, by
          simpa [JumpTarget.insideOf?, JumpTarget.labelsLoopAs, sameName, named] using isInner,
          isTarget⟩
  | [.loop _ _], .loop _ _ :: _ :: _, _, mirrors, _ => mirrors.2.elim
  | [], _ :: _, _, mirrors, _ => mirrors.elim
  | .loop _ _ :: _, [], _, mirrors, _ => mirrors.elim
  | .label .. :: _, [], _, mirrors, _ => mirrors.elim
  | .loop _ _ :: _, .label .. :: _, _, mirrors, _ => mirrors.elim
  | .label .. :: _, .loop _ _ :: _, _, mirrors, _ => mirrors.elim

/-- A continue to an exit has a branch target. -/
theorem exists_ofContinue
    {wanted : Option String}
    {set : VarSet}
    {frames : List JumpFrame}
    {targets : List JumpTarget}
    (mirrors : Mirrors frames targets)
    (admits : (continueExit wanted frames).Admits set) :
    ∃ label, JumpTarget.ofContinue targets wanted = .ok label := by
  cases wanted with
  | none =>
      obtain ⟨target, label, found, isTarget⟩ := mirrors.exists_innermost admits
      exact ⟨label, by simp [JumpTarget.ofContinue, JumpTarget.continued?, found, isTarget]⟩
  | some name =>
      obtain ⟨target, label, found, isTarget⟩ := mirrors.exists_inside none admits
      exact ⟨label, by simp [JumpTarget.ofContinue, JumpTarget.continued?, found, isTarget]⟩

end JumpFrame.Mirrors

namespace CodeContext

section Generated

variable
  {strict : Bool}
  {context : CodeContext}

/-- A condition that can be generated can be branched on. -/
theorem exists_branchOn
    {place : Place}
    {condition : Expr}
    {ty : Ty}
    (sound : context.Sound strict)
    (slotted : context.Slotted)
    (counted : place.count ≤ context.scope.locals.size)
    (typed : context.HasType strict place condition ty)
    (emittable : context.Emittable condition true = true)
    (branchIf : Bool)
    (label : Label) :
    CodeStep.Succeeds (context.branchOn condition branchIf label) := by
  have byValue : CodeStep.Succeeds (context.branchOnValue condition branchIf label) := by
    intro code
    simp only [branchOnValue]
    exact exists_bind (exists_pushExpr sound counted slotted typed emittable code) fun pushed =>
      exists_pure _
  intro code
  cases condition with
  | boolLit _ value =>
      exact ⟨_, rfl⟩
  | binary _ op left right =>
      simp only [branchOn]
      split
      · next isComparison =>
          rw [HasType] at typed
          obtain ⟨leftTy, rightTy, leftTyped, rightTyped, -⟩ := typed
          simp only [Emittable, Bool.and_eq_true] at emittable
          exact exists_branchOnComparison isComparison context left right
            (exists_pushExpr sound counted slotted leftTyped emittable.1)
            (exists_pushExpr sound counted slotted rightTyped emittable.2) branchIf label code
      · exact byValue code
  | _ =>
      exact byValue code

/-- A condition that is branched on can be generated. -/
theorem emittable_of_branchOn
    {place : Place}
    {condition : Expr}
    {ty : Ty}
    {branchIf : Bool}
    {label : Label}
    {code after : CodeStream}
    (sound : context.Sound strict)
    (counted : place.count ≤ context.scope.locals.size)
    (typed : context.HasType strict place condition ty)
    (branched : context.branchOn condition branchIf label code = .ok after) :
    context.Emittable condition true = true := by
  have byValue : context.branchOnValue condition branchIf label code = .ok after →
      context.Emittable condition true = true := by
    intro branchedOnValue
    simp only [branchOnValue, bind_eq_ok] at branchedOnValue
    obtain ⟨pushed, isPushed, -⟩ := branchedOnValue
    exact emittable_of_pushExpr sound counted typed isPushed
  cases condition with
  | boolLit _ value =>
      rw [Emittable]
  | binary _ op left right =>
      simp only [branchOn] at branched
      split at branched
      · rw [HasType] at typed
        obtain ⟨leftTy, rightTy, leftTyped, rightTyped, -⟩ := typed
        obtain ⟨⟨_, _, isLeft⟩, ⟨_, _, isRight⟩⟩ := operands_of_branchOnComparison branched
        simp only [Emittable, Bool.and_eq_true]
        exact ⟨emittable_of_pushExpr sound counted leftTyped isLeft,
          emittable_of_pushExpr sound counted rightTyped isRight⟩
      · exact byValue branched
  | _ =>
      exact byValue branched

/-- A loop that runs has the locals that its code needs. -/
theorem Provides.hasLoopSlots
    {strategy : LoopStrategy}
    {emptyAction : Bool}
    {element : Nat}
    {continues : Bool}
    (slotted : context.Slotted)
    (known : ∀ id ∈ strategy.synthetics, id < context.scope.locals.size)
    (provides : context.Provides strategy emptyAction element continues)
    (busy : (emptyAction && !context.hasSlot element && strategy.isArray) = false) :
    context.HasLoopSlots strategy continues := by
  cases strategy with
  | array index bound source =>
      simp only [LoopStrategy.synthetics, List.mem_cons, List.not_mem_nil, or_false,
        forall_eq_or_imp, forall_eq] at known
      have needed : emptyAction = false ∨ context.hasSlot element = true := by
        cases emptyAction with
        | false =>
            exact .inl rfl
        | true =>
            exact .inr (by simpa [LoopStrategy.isArray] using busy)
      obtain ⟨sourceUsed, others⟩ := provides needed
      exact ⟨slotted source known.2.2 sourceUsed, fun continues =>
        ⟨slotted index known.1 (others continues).1, slotted bound known.2.1 (others continues).2⟩⟩
  | rawIterable iterator receiver | genericIterable iterator receiver =>
      exact slotted iterator (known iterator (by simp [LoopStrategy.synthetics])) provides

/-- The locals that a loop introduces are locals of the method. -/
theorem Iterates.known_synthetics
    {declared collection : Ty}
    {block first : Nat}
    {resolution : LoopResolution}
    (iterates : context.Iterates declared collection block first resolution) :
    ∀ id ∈ resolution.strategy.synthetics, id < context.scope.locals.size := by
  obtain ⟨shape, -, isStrategy, introduces⟩ := iterates.shaped
  rw [isStrategy]
  cases shape with
  | array =>
      intro id member
      simp only [LoopShape.strategyFrom, LoopStrategy.synthetics, List.mem_cons, List.not_mem_nil,
        or_false] at member
      rcases member with rfl | rfl | rfl
      · exact (introduces 0 _ rfl).known
      · exact (introduces 1 _ rfl).known
      · exact (introduces 2 _ rfl).known
  | rawIterable receiver | genericIterable receiver =>
      intro id member
      simp only [LoopShape.strategyFrom, LoopStrategy.synthetics, List.mem_singleton] at member
      subst member
      exact (introduces 0 _ rfl).known

/-- A loop whose collection can be generated has code if its action has. -/
theorem exists_pushLoop
    {span : Span}
    {element : LocalDecl}
    {collection : Expr}
    {action : Option Stmt}
    {facts : LoopFacts}
    {outer first inner : Nat}
    {resolution : LoopResolution}
    {before : VarSet}
    {scope : ScopeId}
    {pushAction : JumpTarget → ScopeId → CodeStep}
    (sound : context.Sound strict)
    (slotted : context.Slotted)
    (head : context.LoopHead strict element collection facts outer first inner resolution)
    (enters : context.EntersLoop element collection action facts before)
    (canEmit : context.CanEmit (context.loopEmissions element collection action facts))
    (runs : Stmt.isEmptyAction action = false → facts.actionReachable = true →
      ∀ onBreak onContinue, onContinue.isSome = facts.continues →
        (pushAction (.loop onBreak onContinue) inner).Succeeds) :
    CodeStep.Succeeds
      (context.pushLoop span element collection action facts scope pushAction) := by
  obtain ⟨ty, typed, iterates⟩ := head.iterated
  have counted : (Place.mk inner (first + 1)).count ≤ context.scope.locals.size :=
    head.declares.known
  simp only [loopEmissions, LoopClassification.strategy?, LoopClassification.resolution?,
    head.classification, head.binding, Option.map_some, enters.reachable, if_true, canEmit_cons,
    canEmit_nil, and_true] at canEmit
  intro code
  simp only [pushLoop, enters.reachable, if_true, head.classification, head.scope, head.binding]
  refine exists_pushPlanned ?_ ?_ code
  · exact exists_pushExpr sound counted slotted typed canEmit
  · intro busy
    refine ⟨(enters.provides resolution first head.classification head.binding).hasLoopSlots
      slotted iterates.known_synthetics busy, ?_⟩
    intro onBreak onContinue isSome
    cases isEmpty : Stmt.isEmptyAction action with
    | true =>
        exact fun code => ⟨code, rfl⟩
    | false =>
        cases reached : facts.actionReachable with
        | false =>
            exact fun code => ⟨code, rfl⟩
        | true =>
            exact runs isEmpty reached onBreak onContinue isSome

/-- The collection of a loop that has code can be generated, and the action has
code if it runs. -/
theorem emittable_of_pushLoop
    {span : Span}
    {element : LocalDecl}
    {collection : Expr}
    {action : Option Stmt}
    {facts : LoopFacts}
    {outer first inner : Nat}
    {resolution : LoopResolution}
    {before : VarSet}
    {scope : ScopeId}
    {pushAction : JumpTarget → ScopeId → CodeStep}
    {code after : CodeStream}
    (sound : context.Sound strict)
    (head : context.LoopHead strict element collection facts outer first inner resolution)
    (enters : context.EntersLoop element collection action facts before)
    (looped : context.pushLoop span element collection action facts scope pushAction code =
      .ok after) :
    context.CanEmit (context.loopEmissions element collection action facts) ∧
      (Stmt.isEmptyAction action = false → facts.actionReachable = true →
        ∃ target fetched ran, pushAction target inner fetched = .ok ran) := by
  obtain ⟨ty, typed, -⟩ := head.iterated
  have counted : (Place.mk inner (first + 1)).count ≤ context.scope.locals.size :=
    head.declares.known
  simp only [loopEmissions, LoopClassification.strategy?, LoopClassification.resolution?,
    head.classification, head.binding, Option.map_some, enters.reachable, if_true, canEmit_cons,
    canEmit_nil, and_true]
  simp only [pushLoop, enters.reachable, if_true, head.classification, head.scope, head.binding,
    pushPlanned] at looped
  split at looped
  · next idle =>
      simp only [pushEffects, bind_eq_ok, pure_eq_ok] at looped
      obtain ⟨done, ⟨ran, isRan, -⟩, -⟩ := looped
      refine ⟨?_, ?_⟩
      · rw [idle]
        exact emittable_of_pushExpr sound counted typed isRan
      · intro notEmpty
        simp [notEmpty] at idle
  · next busy =>
      simp only [bind_eq_ok, pure_eq_ok] at looped
      obtain ⟨done, isDone, -⟩ := looped
      obtain ⟨iteration⟩ := exists_iteration isDone
      refine ⟨?_, ?_⟩
      · rw [Bool.eq_false_iff.mpr busy]
        exact emittable_of_pushExpr sound counted typed iteration.isPushed
      · intro notEmpty reached
        have isRan := iteration.isRan
        simp only [notEmpty, reached, Bool.not_false, Bool.and_self, if_true] at isRan
        exact ⟨_, _, _, isRan⟩

/-- A declaration whose initial value can be generated has code. -/
theorem exists_pushDeclaration
    {decl : LocalDecl}
    {block first : Nat}
    (sound : context.Sound strict)
    (slotted : context.Slotted)
    (binding : decl.binding = some first)
    (declares : context.Declares block first)
    (gives : ∀ value, decl.initial = some value →
      context.Gives strict ⟨block, first + 1⟩ value (context.localAt first).type)
    (canEmit : context.CanEmit (context.declarationEmissions decl)) :
    CodeStep.Succeeds (context.pushDeclaration decl) := by
  intro code
  cases initial : decl.initial with
  | none =>
      exact ⟨code, by simp [pushDeclaration, initial]⟩
  | some value =>
      obtain ⟨ty, typed, -⟩ := gives value initial
      have counted : (Place.mk block (first + 1)).count ≤ context.scope.locals.size :=
        declares.known
      simp only [declarationEmissions, initial, binding, Option.any_some, canEmit_cons,
        canEmit_nil, and_true] at canEmit
      simp only [pushDeclaration, initial, binding]
      refine exists_assignSimple context first value false ?_ code
      rw [Bool.false_or]
      exact exists_pushExpr sound counted slotted typed canEmit

/-- The initial value of a declaration that has code can be generated. -/
theorem canEmit_of_pushDeclaration
    {decl : LocalDecl}
    {block first : Nat}
    {code after : CodeStream}
    (sound : context.Sound strict)
    (binding : decl.binding = some first)
    (declares : context.Declares block first)
    (gives : ∀ value, decl.initial = some value →
      context.Gives strict ⟨block, first + 1⟩ value (context.localAt first).type)
    (declared : context.pushDeclaration decl code = .ok after) :
    context.CanEmit (context.declarationEmissions decl) := by
  cases initial : decl.initial with
  | none =>
      simp [declarationEmissions, initial]
  | some value =>
      obtain ⟨ty, typed, -⟩ := gives value initial
      have counted : (Place.mk block (first + 1)).count ≤ context.scope.locals.size :=
        declares.known
      simp only [declarationEmissions, initial, binding, Option.any_some, canEmit_cons,
        canEmit_nil, and_true]
      simp only [pushDeclaration, initial, binding, assignSimple] at declared
      split at declared
      · next hasSlot =>
          obtain ⟨pushed, isPushed, -⟩ := bind_eq_ok.mp declared
          rw [hasSlot]
          exact emittable_of_pushExpr sound counted typed isPushed
      · next hasNone =>
          rw [Bool.eq_false_iff.mpr hasNone]
          exact emittable_of_pushExpr sound counted typed declared

mutual

/-- A statement that is resolved and runs has code if every expression that its
code evaluates can be generated. -/
theorem exists_pushStmt
    (sound : context.Sound strict)
    (slotted : context.Slotted) :
    ∀ {stmt : Stmt} {block first : Nat} {frames : List JumpFrame} {targets : List JumpTarget}
        {before : VarSet} {after : FlowExit},
      context.Resolved strict stmt block first →
      first + stmt.localCount ≤ context.scope.locals.size →
      context.Runs stmt frames before after →
      JumpFrame.Mirrors frames targets →
      context.CanEmit (context.emissions stmt) →
      ∀ scope, (context.pushStmt stmt targets scope).Succeeds
  | .localVar span decl, block, first, frames, targets, before, after, resolved, counted, runs,
      mirrors, canEmit, scope, code => by
      simp only [Resolved] at resolved
      obtain ⟨binding, declares, gives⟩ := resolved
      simp only [emissions] at canEmit
      simp only [pushStmt]
      exact exists_bind (exists_pushDeclaration sound slotted binding declares gives canEmit code)
        fun done => exists_pure _
  | .expr span value, block, first, frames, targets, before, after, resolved, counted, runs,
      mirrors, canEmit, scope, code => by
      simp only [Resolved] at resolved
      obtain ⟨ty, typed⟩ := resolved
      simp only [emissions, canEmit_cons] at canEmit
      simp only [pushStmt]
      exact exists_bind (exists_pushExpr sound counted slotted typed canEmit.1 code)
        fun done => exists_pure _
  | .block span stmts facts, block, first, frames, targets, before, after, resolved, counted, runs,
      mirrors, canEmit, scope, code => by
      simp only [Resolved] at resolved
      obtain ⟨inner, isScope, -, resolvedAll⟩ := resolved
      simp only [Runs] at runs
      simp only [emissions, runs.1] at canEmit
      simp only [pushStmt, runs.1]
      exact exists_bind (exists_pushStmts sound slotted resolvedAll counted runs.2 mirrors canEmit
        _ code) fun ran => exists_pure _
  | .branch span condition thenBranch none, block, first, frames, targets, before, after, resolved,
      counted, runs, mirrors, canEmit, scope, code => by
      simp only [Stmt.localCount] at counted
      simp only [Resolved] at resolved
      obtain ⟨⟨ty, typed, -⟩, resolvedThen⟩ := resolved
      simp only [Runs] at runs
      simp only [emissions, canEmit_cons] at canEmit
      simp only [pushStmt]
      have places : (Place.mk block first).count ≤ context.scope.locals.size :=
        Nat.le_trans (Nat.le_add_right _ _) counted
      refine exists_bind (exists_branchOn sound slotted places typed canEmit.1 _ _ _)
        fun tested => ?_
      exact exists_bind (exists_pushStmt sound slotted resolvedThen counted runs.2.1 mirrors
        canEmit.2 scope tested) fun done => exists_pure _
  | .branch span condition thenBranch (some elseBranch), block, first, frames, targets, before,
      after, resolved, counted, runs, mirrors, canEmit, scope, code => by
      simp only [Stmt.localCount] at counted
      simp only [Resolved] at resolved
      obtain ⟨⟨ty, typed, -⟩, resolvedThen, resolvedElse⟩ := resolved
      simp only [Runs] at runs
      simp only [emissions, canEmit_cons, canEmit_append] at canEmit
      simp only [pushStmt]
      have places : (Place.mk block first).count ≤ context.scope.locals.size :=
        Nat.le_trans (Nat.le_add_right _ _) counted
      refine exists_bind (exists_branchOn sound slotted places typed canEmit.1 _ _ _)
        fun tested => ?_
      refine exists_bind (exists_pushStmt sound slotted resolvedThen (by omega) runs.2.1 mirrors
        canEmit.2.1 scope tested) fun thenDone => ?_
      exact exists_bind (exists_pushStmt sound slotted resolvedElse (by omega) runs.2.2 mirrors
        canEmit.2.2 scope _) fun done => exists_pure _
  | .forEach span element collection none facts, block, first, frames, targets, before, after,
      resolved, counted, runs, mirrors, canEmit, scope, code => by
      simp only [Resolved] at resolved
      obtain ⟨inner, resolution, head⟩ := resolved
      simp only [Runs] at runs
      simp only [emissions] at canEmit
      simp only [pushStmt]
      refine exists_bind (exists_pushLoop sound slotted head runs.1 canEmit ?_ code)
        fun done => exists_pure _
      exact fun _ _ _ _ _ before => ⟨before, rfl⟩
  | .forEach span element collection (some action) facts, block, first, frames, targets, before,
      after, resolved, counted, runs, mirrors, canEmit, scope, code => by
      simp only [Stmt.localCount] at counted
      simp only [Resolved] at resolved
      obtain ⟨inner, resolution, head, resolvedAction⟩ := resolved
      simp only [Runs] at runs
      obtain ⟨enters, admits, runsAction⟩ := runs
      simp only [emissions, canEmit_append] at canEmit
      simp only [pushStmt]
      refine exists_bind (exists_pushLoop sound slotted head enters canEmit.1 ?_ code)
        fun done => exists_pure _
      intro notEmpty reached onBreak onContinue isSome
      rcases runsAction with ⟨isEmpty, -⟩ | ⟨-, ran⟩
      · simp [Stmt.isEmptyAction, isEmpty] at notEmpty
      · have counts := head.introducedCount
        have mirrored : JumpFrame.Mirrors
            (.loop after (facts.again (element.enteredWith collection before)) :: frames)
            (.loop onBreak onContinue :: targets) := by
          refine ⟨fun again => ?_, mirrors⟩
          rw [isSome]
          cases continues : facts.continues with
          | true =>
              rfl
          | false =>
              simp [LoopFacts.again, continues] at again
        refine exists_pushStmt sound slotted resolvedAction (by omega) ran mirrored ?_ inner
        simpa [enters.reachable, notEmpty, reached] using canEmit.2
  | .labeled span label body, block, first, frames, targets, before, after, resolved, counted, runs,
      mirrors, canEmit, scope, code => by
      simp only [Resolved] at resolved
      simp only [Runs] at runs
      simp only [emissions] at canEmit
      simp only [pushStmt]
      have mirrored : JumpFrame.Mirrors (.label label.node body.isLoop after :: frames)
          (.label label.node code.nextLabel body.isLoop :: targets) := ⟨rfl, rfl, mirrors⟩
      exact exists_bind (exists_pushStmt sound slotted resolved counted runs mirrored canEmit
        scope _) fun done => exists_pure _
  | .breakTo span label, block, first, frames, targets, before, after, resolved, counted, runs,
      mirrors, canEmit, scope, code => by
      simp only [Runs] at runs
      simp only [pushStmt]
      exact exists_bind (mirrors.exists_ofBreak runs) fun target => exists_pure _
  | .continueTo span label, block, first, frames, targets, before, after, resolved, counted, runs,
      mirrors, canEmit, scope, code => by
      simp only [Runs] at runs
      simp only [pushStmt]
      exact exists_bind (mirrors.exists_ofContinue runs) fun target => exists_pure _
  | .returnWith span none, block, first, frames, targets, before, after, resolved, counted, runs,
      mirrors, canEmit, scope, code => by
      simp only [pushStmt]
      exact ⟨_, rfl⟩
  | .returnWith span (some value), block, first, frames, targets, before, after, resolved, counted,
      runs, mirrors, canEmit, scope, code => by
      simp only [Resolved] at resolved
      obtain ⟨-, ty, typed, -⟩ := resolved
      simp only [emissions, canEmit_cons] at canEmit
      simp only [pushStmt, pushReturn]
      exact exists_bind (exists_bind (exists_pushExpr sound counted slotted typed canEmit.1 code)
        fun pushed => exists_pure _) fun done => exists_pure _
  | .empty _, block, first, frames, targets, before, after, resolved, counted, runs, mirrors,
      canEmit, scope, code => by
      simp only [pushStmt]
      exact ⟨_, rfl⟩

theorem exists_pushStmts
    (sound : context.Sound strict)
    (slotted : context.Slotted) :
    ∀ {stmts : List Stmt} {block first : Nat} {frames : List JumpFrame} {targets : List JumpTarget}
        {before : VarSet} {after : FlowExit},
      context.AllResolved strict stmts block first →
      first + Stmt.localCounts stmts ≤ context.scope.locals.size →
      context.AllRun stmts frames before after →
      JumpFrame.Mirrors frames targets →
      context.CanEmit (context.allEmissions stmts none) →
      ∀ scope, (context.pushStmts stmts none targets scope).Succeeds
  | [], block, first, frames, targets, before, after, resolved, counted, runs, mirrors, canEmit,
      scope, code => by
      simp only [pushStmts]
      exact ⟨_, rfl⟩
  | stmt :: rest, block, first, frames, targets, before, after, resolved, counted, runs, mirrors,
      canEmit, scope, code => by
      simp only [Stmt.localCounts] at counted
      simp only [AllResolved] at resolved
      simp only [AllRun] at runs
      obtain ⟨middle, head, ends, goesOn⟩ := runs
      simp only [allEmissions, canEmit_append, Option.map_none] at canEmit
      simp only [pushStmts, Option.map_none]
      refine exists_bind (exists_pushStmt sound slotted resolved.1 (by omega) head mirrors canEmit.1
        scope code) fun done => ?_
      cases middle with
      | none =>
          rw [ends rfl]
          simp only [pushStmts]
          exact ⟨_, rfl⟩
      | some set =>
          exact exists_pushStmts sound slotted resolved.2 (by omega) (goesOn set rfl) mirrors
            canEmit.2 scope done

end

mutual

/-- Every expression that the code of a statement evaluates can be generated if
the statement has code. -/
theorem canEmit_of_pushStmt
    (sound : context.Sound strict) :
    ∀ {stmt : Stmt} {block first : Nat} {frames : List JumpFrame} {targets : List JumpTarget}
        {before : VarSet} {after : FlowExit} {scope : ScopeId} {code done : CodeStream},
      context.Resolved strict stmt block first →
      first + stmt.localCount ≤ context.scope.locals.size →
      context.Runs stmt frames before after →
      context.pushStmt stmt targets scope code = .ok done →
      context.CanEmit (context.emissions stmt)
  | .localVar span decl, block, first, frames, targets, before, after, scope, code, done, resolved,
      counted, runs, pushed => by
      simp only [Resolved] at resolved
      obtain ⟨binding, declares, gives⟩ := resolved
      simp only [pushStmt, bind_eq_ok] at pushed
      obtain ⟨declared, isDeclared, -⟩ := pushed
      simp only [emissions]
      exact canEmit_of_pushDeclaration sound binding declares gives isDeclared
  | .expr span value, block, first, frames, targets, before, after, scope, code, done, resolved,
      counted, runs, pushed => by
      simp only [Resolved] at resolved
      obtain ⟨ty, typed⟩ := resolved
      simp only [pushStmt, bind_eq_ok] at pushed
      obtain ⟨ran, isRan, -⟩ := pushed
      simp only [emissions, canEmit_cons, canEmit_nil, and_true]
      exact emittable_of_pushExpr sound counted typed isRan
  | .block span stmts facts, block, first, frames, targets, before, after, scope, code, done,
      resolved, counted, runs, pushed => by
      simp only [Resolved] at resolved
      obtain ⟨inner, isScope, -, resolvedAll⟩ := resolved
      simp only [Runs] at runs
      simp only [pushStmt, runs.1, bind_eq_ok] at pushed
      obtain ⟨ran, isRan, -⟩ := pushed
      simp only [emissions, runs.1]
      exact canEmit_of_pushStmts sound resolvedAll counted runs.2 isRan
  | .branch span condition thenBranch none, block, first, frames, targets, before, after, scope,
      code, done, resolved, counted, runs, pushed => by
      simp only [Stmt.localCount] at counted
      simp only [Resolved] at resolved
      obtain ⟨⟨ty, typed, -⟩, resolvedThen⟩ := resolved
      simp only [Runs] at runs
      simp only [pushStmt, bind_eq_ok] at pushed
      obtain ⟨tested, isTested, thenDone, isThenDone, -⟩ := pushed
      have places : (Place.mk block first).count ≤ context.scope.locals.size :=
        Nat.le_trans (Nat.le_add_right _ _) counted
      simp only [emissions, canEmit_cons]
      exact ⟨emittable_of_branchOn sound places typed isTested,
        canEmit_of_pushStmt sound resolvedThen counted runs.2.1 isThenDone⟩
  | .branch span condition thenBranch (some elseBranch), block, first, frames, targets, before,
      after, scope, code, done, resolved, counted, runs, pushed => by
      simp only [Stmt.localCount] at counted
      simp only [Resolved] at resolved
      obtain ⟨⟨ty, typed, -⟩, resolvedThen, resolvedElse⟩ := resolved
      simp only [Runs] at runs
      simp only [pushStmt, bind_eq_ok] at pushed
      obtain ⟨tested, isTested, thenDone, isThenDone, elseDone, isElseDone, -⟩ := pushed
      have places : (Place.mk block first).count ≤ context.scope.locals.size :=
        Nat.le_trans (Nat.le_add_right _ _) counted
      simp only [emissions, canEmit_cons, canEmit_append]
      exact ⟨emittable_of_branchOn sound places typed isTested,
        canEmit_of_pushStmt sound resolvedThen (by omega) runs.2.1 isThenDone,
        canEmit_of_pushStmt sound resolvedElse (by omega) runs.2.2 isElseDone⟩
  | .forEach span element collection none facts, block, first, frames, targets, before, after,
      scope, code, done, resolved, counted, runs, pushed => by
      simp only [Resolved] at resolved
      obtain ⟨inner, resolution, head⟩ := resolved
      simp only [Runs] at runs
      simp only [pushStmt, bind_eq_ok] at pushed
      obtain ⟨looped, isLooped, -⟩ := pushed
      simp only [emissions]
      exact (emittable_of_pushLoop sound head runs.1 isLooped).1
  | .forEach span element collection (some action) facts, block, first, frames, targets, before,
      after, scope, code, done, resolved, counted, runs, pushed => by
      simp only [Stmt.localCount] at counted
      simp only [Resolved] at resolved
      obtain ⟨inner, resolution, head, resolvedAction⟩ := resolved
      simp only [Runs] at runs
      obtain ⟨enters, -, runsAction⟩ := runs
      simp only [pushStmt, bind_eq_ok] at pushed
      obtain ⟨looped, isLooped, -⟩ := pushed
      obtain ⟨canEmitCollection, ranAction⟩ := emittable_of_pushLoop sound head enters isLooped
      simp only [emissions, canEmit_append]
      refine ⟨canEmitCollection, ?_⟩
      cases isEmpty : Stmt.isEmptyAction (some action) with
      | true =>
          simp
      | false =>
          rcases runsAction with ⟨isEmptyBlock, -⟩ | ⟨reached, ran⟩
          · simp [Stmt.isEmptyAction, isEmptyBlock] at isEmpty
          · obtain ⟨target, fetched, actionDone, isActionDone⟩ := ranAction isEmpty reached
            have counts := head.introducedCount
            simp only [enters.reachable, reached, Bool.not_false, Bool.and_self, if_true]
            exact canEmit_of_pushStmt sound resolvedAction (by omega) ran isActionDone
  | .labeled span label body, block, first, frames, targets, before, after, scope, code, done,
      resolved, counted, runs, pushed => by
      simp only [Resolved] at resolved
      simp only [Runs] at runs
      simp only [pushStmt, bind_eq_ok] at pushed
      obtain ⟨ran, isRan, -⟩ := pushed
      simp only [emissions]
      exact canEmit_of_pushStmt sound resolved counted runs isRan
  | .breakTo .., block, first, frames, targets, before, after, scope, code, done, resolved, counted,
      runs, pushed | .continueTo .., block, first, frames, targets, before, after, scope, code, done,
      resolved, counted, runs, pushed | .returnWith _ none, block, first, frames, targets, before,
      after, scope, code, done, resolved, counted, runs, pushed | .empty _, block, first, frames,
      targets, before, after, scope, code, done, resolved, counted, runs, pushed => by
      simp only [emissions, canEmit_nil]
  | .returnWith span (some value), block, first, frames, targets, before, after, scope, code, done,
      resolved, counted, runs, pushed => by
      simp only [Resolved] at resolved
      obtain ⟨-, ty, typed, -⟩ := resolved
      simp only [pushStmt, pushReturn, bind_eq_ok] at pushed
      obtain ⟨returned, ⟨valued, isPushed, -⟩, -⟩ := pushed
      simp only [emissions, canEmit_cons, canEmit_nil, and_true]
      exact emittable_of_pushExpr sound counted typed isPushed

theorem canEmit_of_pushStmts
    (sound : context.Sound strict) :
    ∀ {stmts : List Stmt} {block first : Nat} {frames : List JumpFrame} {targets : List JumpTarget}
        {before : VarSet} {after : FlowExit} {scope : ScopeId} {code done : CodeStream},
      context.AllResolved strict stmts block first →
      first + Stmt.localCounts stmts ≤ context.scope.locals.size →
      context.AllRun stmts frames before after →
      context.pushStmts stmts none targets scope code = .ok done →
      context.CanEmit (context.allEmissions stmts none)
  | [], block, first, frames, targets, before, after, scope, code, done, resolved, counted, runs,
      pushed => by
      simp only [allEmissions, canEmit_nil]
  | stmt :: rest, block, first, frames, targets, before, after, scope, code, done, resolved,
      counted, runs, pushed => by
      simp only [Stmt.localCounts] at counted
      simp only [AllResolved] at resolved
      simp only [AllRun] at runs
      obtain ⟨middle, head, ends, goesOn⟩ := runs
      simp only [pushStmts, Option.map_none, bind_eq_ok] at pushed
      obtain ⟨ran, isRan, remaining⟩ := pushed
      simp only [allEmissions, canEmit_append, Option.map_none]
      refine ⟨canEmit_of_pushStmt sound resolved.1 (by omega) head isRan, ?_⟩
      cases middle with
      | none =>
          rw [ends rfl]
          simp only [allEmissions, canEmit_nil]
      | some set =>
          exact canEmit_of_pushStmts sound resolved.2 (by omega) (goesOn set rfl) remaining

end

end Generated

end CodeContext

end LoopLowering
