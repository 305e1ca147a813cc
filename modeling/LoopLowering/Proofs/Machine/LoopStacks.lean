import LoopLowering.Proofs.Machine.BalancedLoops
import LoopLowering.Proofs.Machine.Methods

namespace LoopLowering

/-!
# The stack in the loops of a method

Every loop of a method without errors is resolved, so its locals have the kinds
that its code stores in them, and its elements convert to its variable. If its
collection leaves a reference and its body nothing, the loop leaves the stack as
it was, also at each of its branch targets.
-/

namespace ClassTable

/-- A collection that can be iterated is a reference. -/
theorem primitive?_of_loopShape
    {table : ClassTable}
    {collection : Ty}
    {found : LoopShape × Ty}
    (shaped : table.loopShape collection = .ok found) :
    collection.primitive? = none := by
  cases collection with
  | primitive kind =>
      have noIteration : table.iteration? (.primitive kind) = none := by
        simp [iteration?, findSupertype, Ty.inheritingClass?, reachable, walk_nil]
      simp [loopShape, noIteration] at shaped
  | _ => rfl

/-- A machine reads the descriptors that the code of loops refers to, if the
names of the table are plain. -/
theorem readsLoops_ofDescriptor
    {strict : Bool}
    {table : ClassTable}
    (sound : table.Sound strict)
    (plain : table.hasPlainNames = true) :
    MethodShape.ofDescriptor.ReadsLoops table where
  toReads := reads_ofDescriptor sound plain
  iterator := by
    simp only [hasPlainNames, Bool.and_eq_true] at plain
    exact @ofDescriptor_methodDescriptor false _ ⟨[], .named "Iterator"⟩ rfl
      (by simp [isPlainSignature, plain.2])
  hasNext := @ofDescriptor_methodDescriptor false _ ⟨[], .boolean⟩ rfl rfl
  next := by
    simp only [hasPlainNames, Bool.and_eq_true] at plain
    exact @ofDescriptor_methodDescriptor false _ ⟨[], .object⟩ rfl
      (by simp [isPlainSignature, plain.1.2])

end ClassTable

namespace CodeStream

variable
  {read : DescriptorReader}
  {kinds : KindStack}
  {before after last : CodeStream}

/-- A path leads through the same code. -/
theorem SameCode.path
    (same : after.SameCode last)
    {start stop : Nat}
    {first state : KindState}
    (inCode : stop ≤ last.position)
    (path : KindPath read last start stop first state) :
    KindPath read after start stop first state :=
  path.extend ((Appends.refl last).sameCode ⟨same.1.symm, same.2.symm⟩).extends_ inCode
    (Nat.le_refl _) (Nat.le_refl _)

/-- The same code has the same end. -/
theorem SameCode.position
    (same : after.SameCode last) :
    last.position = after.position := by
  simp [CodeStream.position, same.1]

/-- The same code is balanced. -/
theorem Balanced.sameCode
    (balanced : Balanced read kinds before after)
    (same : after.SameCode last) :
    Balanced read kinds before last := by
  intro below state path
  rw [same.position] at path ⊢
  have found := balanced below state (same.path (Nat.le_of_eq same.position.symm) path)
  simpa only [LeadsOn, IsOpen, offset?, same.1, same.2, same.position] using found

end CodeStream

/-- The branch targets of a statement around another are still to be placed. -/
def JumpTarget.IsOpenIn
    (code : CodeStream) :
    JumpTarget → Prop
  | .loop onBreak onContinue =>
      code.IsOpen onBreak ∧ ∀ label, onContinue = some label → code.IsOpen label
  | .label _ onBreak _ => code.IsOpen onBreak

/-- Branch targets stay open if every open one does. -/
theorem JumpTarget.IsOpenIn.later
    {code after : CodeStream}
    {target : JumpTarget}
    (isOpen : target.IsOpenIn code)
    (stays : ∀ label, code.IsOpen label → after.IsOpen label) :
    target.IsOpenIn after := by
  cases target with
  | loop onBreak onContinue =>
      exact ⟨stays _ isOpen.1, fun label isLabel => stays _ (isOpen.2 label isLabel)⟩
  | label name onBreak labelsLoop =>
      exact stays _ isOpen

namespace CodeContext

open CodeStream

variable
  {strict : Bool}
  {context : CodeContext}

/-- The plan by which a loop is lowered, once it is resolved. -/
def plan?
    (context : CodeContext)
    (element : LocalDecl)
    (action : Option Stmt)
    (facts : LoopFacts)
    (outer : ScopeId) :
    Option LoopPlan :=
  match facts.classification, facts.scope, element.binding with
  | .resolved resolution, some scope, some id =>
      some {
        resolution := resolution
        element := id
        elementSpan := element.name.span
        scope := scope
        outer := outer
        hasEmptyAction := Stmt.isEmptyAction action
        continues := facts.continues
        entered := context.state.checkpoint? facts.entered
        left := context.state.checkpoint? facts.left
      }
  | _, _, _ => none

section Loops

variable
  {element : LocalDecl}
  {collection : Expr}
  {action : Option Stmt}
  {facts : LoopFacts}
  {outer first inner : Nat}
  {resolution : LoopResolution}

/-- The head of a resolved loop is resolved. -/
theorem Resolved.loopHead
    {span : Span}
    {block first : Nat}
    (resolved : context.Resolved strict (.forEach span element collection action facts) block
      first) :
    ∃ inner resolution,
      context.LoopHead strict element collection facts block first inner resolution := by
  cases action with
  | none =>
      simpa only [Resolved] using resolved
  | some action =>
      simp only [Resolved] at resolved
      obtain ⟨inner, resolution, head, -⟩ := resolved
      exact ⟨inner, resolution, head⟩

/-- The collection of a resolved loop has a type of references. -/
theorem LoopHead.kinds_collection
    (sound : context.Sound strict)
    (head : context.LoopHead strict element collection facts outer first inner resolution) :
    ∃ place ty, place.count ≤ context.scope.locals.size ∧
      context.HasType strict place collection ty ∧ ty.kinds = [.reference] := by
  obtain ⟨ty, typed, iterates⟩ := head.iterated
  obtain ⟨shape, shaped, -, -⟩ := iterates.shaped
  have counted := Nat.succ_le_of_lt head.declares.known
  have iterated := ClassTable.isIterated_loopShape sound.table (typed.isResult sound counted) shaped
  have notVoid := Ty.ne_void_of_isValue iterated.isValue_collection
  refine ⟨_, ty, counted, typed, ?_⟩
  simp [Ty.kinds, notVoid,
    ValueKind.ofTy_eq_reference (ClassTable.primitive?_of_loopShape shaped)]

/-- The locals of a resolved loop have the kinds that its code stores in them. -/
theorem LoopHead.suitsKinds
    (sound : context.Sound false)
    (head : context.LoopHead false element collection facts outer first inner resolution)
    {plan : LoopPlan}
    (isResolution : plan.resolution = resolution)
    (isElement : plan.element = first) :
    context.SuitsKinds plan := by
  subst isResolution isElement
  obtain ⟨ty, typed, iterates⟩ := head.iterated
  obtain ⟨shape, shaped, isStrategy, introduces⟩ := iterates.shaped
  have iterated := ClassTable.isIterated_loopShape sound.table
    (typed.isResult sound (Nat.succ_le_of_lt head.declares.known)) shaped
  have isKind : ∀ {index : Nat} {entry : String × Ty},
      (shape.synthetics ty)[index]? = some entry →
      CodeStream.kindOf context.scope (plan.element + 1 + index) = .ofTy entry.2 :=
    fun found => congrArg ValueKind.ofTy (introduces _ _ found).type
  constructor
  · intro index bound source strategy
    rw [isStrategy] at strategy
    cases shape with
    | array =>
        obtain ⟨rfl, rfl, rfl⟩ := LoopStrategy.array.inj strategy
        exact ⟨@isKind 0 _ rfl, @isKind 1 _ rfl, (@isKind 2 _ rfl).trans
          (ValueKind.ofTy_eq_reference (ClassTable.primitive?_of_loopShape shaped))⟩
    | rawIterable receiver | genericIterable receiver =>
        cases strategy
  · intro id strategy
    rw [isStrategy] at strategy
    cases shape with
    | array =>
        simp [LoopShape.strategyFrom, LoopStrategy.synthetics] at strategy
    | rawIterable receiver | genericIterable receiver =>
        obtain rfl := (List.cons.inj strategy).1
        exact @isKind 0 _ rfl
  · exact iterated.isValue_element
  · exact sound.locals _ head.declares.known
  · exact iterates.conversion
  · exact iterates.converts

/-- A resolved loop has a plan. -/
theorem LoopHead.exists_plan?
    (head : context.LoopHead strict element collection facts outer first inner resolution)
    (action : Option Stmt)
    (scope : ScopeId) :
    ∃ plan, context.plan? element action facts scope = some plan ∧
      plan.resolution = resolution ∧ plan.element = first := by
  simp only [plan?, head.classification, head.scope, head.binding]
  exact ⟨_, rfl, rfl, rfl⟩

/-- A loop that is reached is lowered by its plan. -/
theorem pushLoop_of_plan?
    {plan : LoopPlan}
    (plans : context.plan? element action facts outer = some plan)
    (span : Span)
    (pushAction : JumpTarget → ScopeId → CodeStep) :
    context.pushLoop span element collection action facts outer pushAction =
      if facts.reachable then
        context.pushPlanned plan span collection (fun target =>
          if !Stmt.isEmptyAction action && facts.actionReachable then pushAction target plan.scope
          else .ok)
      else .ok := by
  unfold plan? at plans
  split at plans
  · next isResolved isScope isBound =>
      cases plans
      funext code
      simp only [pushLoop, isResolved, isScope, isBound]
      split <;> rfl
  · cases plans

end Loops

variable
  {plan : LoopPlan}
  {collection : Expr}
  {read : DescriptorReader}
  {code after : CodeStream}

/-- The branch targets of a loop are in its code, and whatever leads to one from
the start of the loop, the stack there is the one at the start. A test at the top
of a loop over an array finds the array on it. -/
def KeepsStackAtTargets
    (context : CodeContext)
    (read : DescriptorReader)
    (plan : LoopPlan)
    (collection : Expr)
    (code after : CodeStream) :
    Prop :=
  ∀ {pushed started labeled : CodeStream} {labels : LoopLabels},
    context.pushExpr collection true code = .ok pushed →
    context.startLoop plan pushed = .ok started →
    LoopLabels.made plan.continues started = (labels, labeled) →
    ∀ label ∈ labels.next.toList ++ [labels.exit, labels.test, labels.action],
      ∃ offset, after.offset? label = some offset ∧
        code.position ≤ offset ∧ offset ≤ after.position ∧
        ∀ {below stack : KindStack},
          KindPath read after code.position after.position ⟨code.position, below⟩
            ⟨offset, stack⟩ →
          stack = (if label = labels.test then testKinds plan else []) ++ below

/-- Where the body of a loop is entered, the branch targets that lead out of it are
open. -/
theorem Iteration.isOpenIn_fetched
    {body : JumpTarget → CodeStep}
    (iteration : context.Iteration plan collection body code after) :
    (JumpTarget.loop iteration.labels.exit iteration.labels.next).IsOpenIn iteration.fetched := by
  have fetched := iteration.appends_action.trans (appends_fetchElement iteration.isFetched)
  have isOpen : ∀ label : Nat, label ∈ iteration.labels.outward → iteration.fetched.IsOpen label :=
    fun label member => (fetched.isOpen label member).2
  cases next : iteration.labels.next with
  | none =>
      simp only [LoopLabels.outward, next] at isOpen
      exact ⟨isOpen _ (by simp), fun label isLabel => by cases isLabel⟩
  | some label =>
      simp only [LoopLabels.outward, next] at isOpen
      refine ⟨isOpen _ (by simp), fun other isOther => ?_⟩
      obtain rfl := Option.some.inj isOther
      exact isOpen label (by simp)

/-- A branch target that is open before a loop is open where its body is entered. -/
theorem Iteration.isOpen_fetched
    {body : JumpTarget → CodeStep}
    (iteration : context.Iteration plan collection body code after)
    (label : Nat)
    (isOpen : code.IsOpen label) :
    iteration.fetched.IsOpen label := by
  have inCode := (Array.getElem?_eq_some_iff.mp isOpen).1
  have started := iteration.appends_started
  have fetched := iteration.appends_action.trans (appends_fetchElement iteration.isFetched)
  rw [CodeStream.IsOpen, fetched.keeps label (Nat.lt_of_lt_of_le inCode started.labelCount),
    started.keeps label inCode]
  exact isOpen

/-- A loop that fetches its elements leaves the stack as it was, if its collection
leaves a reference and its body nothing. -/
theorem balanced_pushIteration
    (suits : context.SuitsKinds plan)
    (reads : read.ReadsLoops context.table)
    (fits : context.fetchesFit plan = true)
    {body : JumpTarget → CodeStep}
    (complete : ∀ target, (body target).Appends)
    (evaluates : ∀ {pushed : CodeStream}, context.pushExpr collection true code = .ok pushed →
      Balanced read [.reference] code pushed)
    (neutral : ∀ {target : JumpTarget} {before ran : CodeStream},
      target.IsOpenIn before →
      (∀ label, code.IsOpen label → before.IsOpen label) →
      body target before = .ok ran →
      Balanced read [] before ran)
    (iterated : context.pushIteration plan collection body code = .ok after) :
    Balanced read [] code after ∧ context.KeepsStackAtTargets read plan collection code after := by
  obtain ⟨iteration⟩ := exists_iteration iterated
  have leavesNothing := neutral iteration.isOpenIn_fetched iteration.isOpen_fetched iteration.isRan
  have guided := iteration.guided_after suits reads (evaluates iteration.isPushed) fits complete
    leavesNothing
  refine ⟨iteration.balanced complete guided, ?_⟩
  intro pushed started labeled labels isPushed isStarted isLabeled label member
  obtain rfl := Except.ok.inj (iteration.isPushed.symm.trans isPushed)
  obtain rfl := Except.ok.inj (iteration.isStarted.symm.trans isStarted)
  obtain ⟨rfl, rfl⟩ := Prod.mk.inj (iteration.isLabeled.symm.trans isLabeled)
  have isNew := (LoopLabels.appends_made iteration.isLabeled).isOpen label member
  have made : label < after.labels.size :=
    Nat.lt_of_lt_of_le (Array.getElem?_eq_some_iff.mp isNew.2).1
      (Nat.le_trans iteration.size_labeled_le
        (Nat.le_trans (iteration.size_entered_le complete) (iteration.extends_ran complete).labelCount))
  rcases (iteration.appends_after complete).isPlaced label
    (Nat.le_trans iteration.appends_started.labelCount isNew.1) made with
    isOpen | ⟨offset, placed, low, high⟩
  · simp at isOpen
  · have isThere : after.offset? label = some offset := by
      simp [offset?, placed]
    exact ⟨offset, isThere, low, high, fun path => iteration.stack_eq guided path isThere member⟩

/-- Which targets keep the stack only depends on the code. -/
theorem KeepsStackAtTargets.sameCode
    {last : CodeStream}
    (keeps : context.KeepsStackAtTargets read plan collection code after)
    (same : after.SameCode last) :
    context.KeepsStackAtTargets read plan collection code last := by
  intro pushed started labeled labels isPushed isStarted isLabeled label member
  obtain ⟨offset, isThere, low, high, isStack⟩ := keeps isPushed isStarted isLabeled label member
  rw [← same.position] at high
  refine ⟨offset, by simpa only [offset?, same.2] using isThere, low, high, fun path => ?_⟩
  rw [same.position] at path
  exact isStack (same.path (Nat.le_of_eq same.position.symm) path)

/-- A loop that is lowered by its plan leaves the stack as it was, if its
collection leaves what it is evaluated for and its body nothing. -/
theorem balanced_pushPlanned
    (suits : context.SuitsKinds plan)
    (reads : read.ReadsLoops context.table)
    (fits : context.fetchesFit plan = true)
    {span : Span}
    {body : JumpTarget → CodeStep}
    (complete : ∀ target, (body target).Appends)
    (evaluates : ∀ {wanted : Bool} {pushed : CodeStream},
      context.pushExpr collection wanted code = .ok pushed →
      Balanced read (if wanted then [.reference] else []) code pushed)
    (neutral : ∀ {target : JumpTarget} {before ran : CodeStream},
      target.IsOpenIn before →
      (∀ label, code.IsOpen label → before.IsOpen label) →
      body target before = .ok ran →
      Balanced read [] before ran)
    (planned : context.pushPlanned plan span collection body code = .ok after) :
    Balanced read [] code after ∧
      (context.isIdle plan = false →
        context.KeepsStackAtTargets read plan collection code after) := by
  simp only [pushPlanned] at planned
  split at planned
  · next isIdle =>
      simp only [bind_eq_ok, pure_eq_ok] at planned
      obtain ⟨done, isDone, rfl⟩ := planned
      simp only [pushEffects, bind_eq_ok, pure_eq_ok] at isDone
      obtain ⟨ran, isRan, rfl⟩ := isDone
      have sameCode : ran.SameCode _ :=
        SameCode.trans (⟨rfl, rfl⟩ : ran.SameCode (ran.exitScope context.scope plan.scope))
          (sameCode_settleRanges context plan _)
      refine ⟨(evaluates isRan).sameCode (sameCode.trans (markSource_same _ _ _)), fun busy => ?_⟩
      rw [CodeContext.isIdle, isIdle] at busy
      cases busy
  · simp only [bind_eq_ok, pure_eq_ok] at planned
    obtain ⟨done, isDone, rfl⟩ := planned
    obtain ⟨balanced, keeps⟩ :=
      balanced_pushIteration suits reads fits complete evaluates neutral isDone
    exact ⟨balanced.sameCode (markSource_same _ _ _),
      fun _ => keeps.sameCode (markSource_same _ _ _)⟩

/-- The code of an expression leaves a value of the kind of its type if one is
wanted, and nothing otherwise. -/
def LeavesType
    (context : CodeContext)
    (read : DescriptorReader)
    (expr : Expr)
    (code : CodeStream) :
    Prop :=
  ∀ {place : Place} {ty : Ty} {wanted : Bool} {after : CodeStream},
    place.count ≤ context.scope.locals.size →
    context.HasType false place expr ty →
    context.pushExpr expr wanted code = .ok after →
    Balanced read (if wanted then ty.kinds else []) code after

/-- The code of a statement leaves the stack as it was, if the branch targets of the
statements around it are still to be placed. -/
def IsNeutral
    (context : CodeContext)
    (read : DescriptorReader)
    (targets : List JumpTarget)
    (scope : ScopeId)
    (stmt : Stmt) :
    Prop :=
  ∀ {code after : CodeStream},
    (∀ target ∈ targets, target.IsOpenIn code) →
    context.pushStmt stmt targets scope code = .ok after →
    Balanced read [] code after

/-- The code of an expression whose parts are used as what they are, and which is
itself what its type says, leaves a value of the kind of its type. -/
theorem leavesType_of_faithful
    (sound : context.Sound false)
    (reads : read.Reads context.table)
    {expr : Expr}
    (faithful : ∀ wanted, context.Faithful expr wanted = true)
    (keeps : context.Keeps expr = true)
    (code : CodeStream) :
    context.LeavesType read expr code := by
  intro place ty wanted after counted typed pushed
  have delivers := delivers_pushExpr sound counted reads typed (faithful wanted) pushed
  rw [(keeps_iff_delivered_eq sound counted typed).mp keeps] at delivers
  exact delivers.balanced

/-- A resolved loop leaves the stack as it was, if its collection leaves a value
and its body nothing. -/
theorem balanced_forEach
    (sound : context.Sound false)
    (reads : read.ReadsLoops context.table)
    {span : Span}
    {element : LocalDecl}
    {action : Option Stmt}
    {facts : LoopFacts}
    {block first : Nat}
    (resolved : context.Resolved false (.forEach span element collection action facts) block first)
    (outer : ScopeId) :
    ∃ plan, context.plan? element action facts outer = some plan ∧
      ∀ {targets : List JumpTarget} {code after : CodeStream},
        (∀ target ∈ targets, target.IsOpenIn code) →
        context.fetchesFit plan = true →
        context.LeavesType read collection code →
        (∀ {stmt : Stmt} {target : JumpTarget}, action = some stmt →
          context.IsNeutral read (target :: targets) plan.scope stmt) →
        context.pushStmt (.forEach span element collection action facts) targets outer code =
          .ok after →
        Balanced read [] code after ∧
          (facts.reachable = true → context.isIdle plan = false →
            context.KeepsStackAtTargets read plan collection code after) := by
  obtain ⟨inner, resolution, head⟩ := resolved.loopHead
  obtain ⟨plan, plans, isResolution, isElement⟩ := head.exists_plan? action outer
  obtain ⟨place, ty, counted, typed, isReference⟩ := head.kinds_collection sound
  have suits := head.suitsKinds sound isResolution isElement
  refine ⟨plan, plans, ?_⟩
  intro targets code after areOpen fits leaves neutral pushed
  have evaluates : ∀ {wanted : Bool} {pushed : CodeStream},
      context.pushExpr collection wanted code = .ok pushed →
      Balanced read (if wanted then [.reference] else []) code pushed := by
    intro wanted pushed isPushed
    rw [← isReference]
    exact leaves counted typed isPushed
  have looped : ∃ pushAction : JumpTarget → ScopeId → CodeStep, ∃ done,
      context.pushLoop span element collection action facts outer pushAction code = .ok done ∧
        done.SameCode after ∧ (∀ target scope, (pushAction target scope).Appends) ∧
        ∀ {target : JumpTarget} {before ran : CodeStream},
          target.IsOpenIn before →
          (∀ label, code.IsOpen label → before.IsOpen label) →
          pushAction target plan.scope before = .ok ran →
          Balanced read [] before ran := by
    cases action with
    | none =>
        simp only [pushStmt, bind_eq_ok, pure_eq_ok] at pushed
        obtain ⟨done, isDone, rfl⟩ := pushed
        refine ⟨_, done, isDone, markSource_same _ _ _, ?_, ?_⟩
        · intro target scope before ran isRan
          exact Except.ok.inj isRan ▸ .refl before
        · intro target before ran _ _ isRan
          exact Except.ok.inj isRan ▸ (Delivers.refl read before).balanced
    | some action =>
        simp only [pushStmt, bind_eq_ok, pure_eq_ok] at pushed
        obtain ⟨done, isDone, rfl⟩ := pushed
        refine ⟨_, done, isDone, markSource_same _ _ _,
          fun target scope => appends_pushStmt context action (target :: targets) scope, ?_⟩
        intro target before ran isOpen stays isRan
        refine neutral rfl (fun other member => ?_) isRan
        rcases List.mem_cons.mp member with rfl | isOuter
        · exact isOpen
        · exact (areOpen other isOuter).later stays
  obtain ⟨pushAction, done, looped, same, complete, leavesNothing⟩ := looped
  rw [pushLoop_of_plan? plans] at looped
  split at looped
  · have runs := balanced_pushPlanned suits reads fits (fun target => ?_) evaluates
      (fun {target before ran} isOpen stays isRan => ?_) looped
    · exact ⟨runs.1.sameCode same, fun _ busy => KeepsStackAtTargets.sameCode (runs.2 busy) same⟩
    · split
      · exact complete target plan.scope
      · intro before ran isRan
        exact Except.ok.inj isRan ▸ .refl before
    · split at isRan
      · exact leavesNothing isOpen stays isRan
      · exact Except.ok.inj isRan ▸ (Delivers.refl read before).balanced
  · next unreached =>
      have isSame : code = done := Except.ok.inj looped
      exact ⟨(isSame ▸ (Delivers.refl read code).balanced : Balanced read [] code done).sameCode
        same, fun isReached => absurd isReached unreached⟩

end CodeContext

section Methods

variable
  {table : ClassTable}
  {options : CompilerOptions}
  {method : Method}
  {read : DescriptorReader}

open CodeStream

/-- The loops of a method without errors leave the stack as it was: along every
path each instruction finds its operands, and at the end and at the branch targets
the stack is the one at the start, if the collection leaves a value of the kind of
its type, the body nothing, and the loop stores or drops just what it fetches.
Only the test of a loop over an array that never comes back finds the array on the
stack. -/
theorem loopsKeepStack
    {unit : CompilationUnit}
    (declared : ClassTable.ofUnit unit = .ok table)
    (clean : (analyzedMethod table options method).state.Clean)
    (reads : read.ReadsLoops table)
    {span : Span}
    {element : LocalDecl}
    {collection : Expr}
    {action : Option Stmt}
    {facts : LoopFacts}
    (member : .forEach span element collection action facts ∈
      Stmt.allParts (analyzedMethod table options method).node.body.stmts)
    (outer : ScopeId) :
    ∃ plan, (loweringContext table options method).plan? element action facts outer = some plan ∧
      ∀ {targets : List JumpTarget} {code after : CodeStream},
        (∀ target ∈ targets, target.IsOpenIn code) →
        (loweringContext table options method).fetchesFit plan = true →
        (loweringContext table options method).LeavesType read collection code →
        (∀ {stmt : Stmt} {target : JumpTarget}, action = some stmt →
          (loweringContext table options method).IsNeutral read (target :: targets) plan.scope
            stmt) →
        (loweringContext table options method).pushStmt
            (.forEach span element collection action facts) targets outer code = .ok after →
        Balanced read [] code after ∧
          (facts.reachable = true → (loweringContext table options method).isIdle plan = false →
            (loweringContext table options method).KeepsStackAtTargets read plan collection code
              after) := by
  have tableSound := ClassTable.ofUnit_sound unit.isAllowed_lenient declared
  have sound := sound_loweringContext tableSound method.isAllowed_lenient clean
  have resolved := (resolved_analyzedBody tableSound method.isAllowed_lenient clean).1
  obtain ⟨block, first, isResolved⟩ := CodeContext.resolved_of_mem_allParts resolved _ member
  exact CodeContext.balanced_forEach sound reads isResolved outer

end Methods

/-- A method that iterates its parameter. -/
def Method.iterates
    (collection element : TypeExpr)
    (action : Option Stmt) :
    Method where
  name := ⟨"m", .absent⟩
  typeParams := []
  params := [⟨⟨"xs", .absent⟩, collection, false, none⟩]
  returnType := none
  body := {
    span := .absent
    stmts := [.forEach .absent ⟨⟨"x", .absent⟩, element, none, false, none⟩
      (.name .absent (.unbound "xs")) action .initial]
    facts := .initial
  }

/-- A method that leaves a loop over an array at once. -/
def Method.breaksFirst :
    Method :=
  .iterates (.array .absent (.named .absent "int")) (.named .absent "int")
    (some (.breakTo .absent none))

/-- A method that unboxes elements to two words and does not read them. -/
def Method.dropsLongs :
    Method :=
  .iterates (.generic .absent "List" [.named .absent "Long"]) (.named .absent "long") none

/-- A method that takes references for primitive elements. -/
def Method.storesReferences :
    Method :=
  .iterates (.generic .absent "List" [.wildcardExtends .absent (.named .absent "int")])
    (.named .absent "int") none

/-- A loop in a method without errors whose collection leaves a value and whose body
leaves the stack as it was, with its plan and its code. -/
structure Method.EmitsLoop
    (options : CompilerOptions)
    (method : Method)
    (plan : LoopPlan)
    (collection : Expr)
    (after : CodeStream) :
    Prop where
  clean : (analyzedMethod .builtin options method).state.Clean
  leavesType : (loweringContext .builtin options method).LeavesType MethodShape.ofDescriptor
    collection .empty
  emitted : ∃ span element action facts,
    .forEach span element collection action facts ∈
        Stmt.allParts (analyzedMethod .builtin options method).node.body.stmts ∧
      facts.reachable = true ∧
      (loweringContext .builtin options method).plan? element action facts MethodScope.root =
        some plan ∧
      (∀ {stmt : Stmt} {target : JumpTarget}, action = some stmt →
        (loweringContext .builtin options method).IsNeutral MethodShape.ofDescriptor [target]
          plan.scope stmt) ∧
      (loweringContext .builtin options method).pushStmt
        (.forEach span element collection action facts) [] MethodScope.root .empty = .ok after

/-- Whether the body of a method is a loop over a local, without a body or left at
once, that passes a check. -/
def Method.loopPasses
    (options : CompilerOptions)
    (method : Method)
    (check : CodeContext → LoopPlan → Expr → CodeStream → Bool) :
    Bool :=
  let context := loweringContext .builtin options method
  match (analyzedMethod .builtin options method).node.body.stmts with
  | [.forEach span element (.name nameSpan ref) action facts] =>
      let leaves := context.Keeps (.name nameSpan ref) && facts.reachable &&
        match action with
        | none | some (.breakTo _ none) => true
        | _ => false
      match context.plan? element action facts MethodScope.root,
        context.pushStmt (.forEach span element (.name nameSpan ref) action facts) []
          MethodScope.root .empty with
      | some plan, .ok after => leaves && check context plan (.name nameSpan ref) after
      | _, _ => false
  | _ => false

/-- A break leaves the stack as it was. -/
theorem CodeContext.isNeutral_break
    (context : CodeContext)
    (read : DescriptorReader)
    (target : JumpTarget)
    (scope : ScopeId)
    (span : Span) :
    context.IsNeutral read [target] scope (.breakTo span none) := by
  intro code after areOpen pushed
  simp only [pushStmt, bind_eq_ok, pure_eq_ok, Option.map_none] at pushed
  obtain ⟨label, isLabel, rfl⟩ := pushed
  have isOpen : code.IsOpen label := by
    have targetOpen := areOpen target (by simp)
    cases target with
    | loop onBreak onContinue =>
        cases isLabel
        exact targetOpen.1
    | label name onBreak labelsLoop =>
        cases isLabel
  have guided : CodeStream.Guided read (fun label stack => code.IsOpen label ∧ stack = []) [] []
      code (code.emit (.goto label)) :=
    (CodeStream.Guided.refl _ _ _ _).emit rfl (fun _ => rfl) fun found isFound => by
      cases isFound
      exact ⟨(Array.getElem?_eq_some_iff.mp isOpen).1, isOpen, rfl⟩
  obtain ⟨holds, invariant⟩ := guided
  refine (invariant.balanced (fun expected => ?_) (fun expected _ => expected.2)).sameCode
    (CodeStream.markSource_same _ _ _)
  rw [CodeStream.offset?, expected.1]
  rfl

/-- A loop that passes a check is emitted. -/
theorem Method.exists_emitsLoop
    {options : CompilerOptions}
    {method : Method}
    (clean : (analyzedMethod .builtin options method).state.Clean)
    {check : CodeContext → LoopPlan → Expr → CodeStream → Bool}
    (passes : method.loopPasses options check = true) :
    ∃ plan collection after, method.EmitsLoop options plan collection after ∧
      check (loweringContext .builtin options method) plan collection after = true := by
  have declared : ClassTable.ofUnit ⟨"Main", none, [], [], []⟩ = .ok .builtin := rfl
  have tableSound := ClassTable.ofUnit_sound (CompilationUnit.isAllowed_lenient _) declared
  have sound := sound_loweringContext tableSound method.isAllowed_lenient clean
  have reads := ClassTable.reads_ofDescriptor tableSound (by decide +kernel)
  simp only [loopPasses] at passes
  split at passes
  · next span element nameSpan ref action facts isBody =>
      split at passes
      · next plan after plans pushed =>
          simp only [Bool.and_eq_true] at passes
          obtain ⟨⟨⟨keeps, isReached⟩, isAction⟩, passes⟩ := passes
          refine ⟨plan, .name nameSpan ref, after, ⟨clean, ?_, span, element, action, facts, ?_,
            isReached, plans, ?_, pushed⟩, passes⟩
          · exact CodeContext.leavesType_of_faithful sound reads (fun _ => rfl) keeps .empty
          · rw [isBody]
            cases action <;> simp [Stmt.allParts, Stmt.parts]
          · intro stmt target isStmt
            subst isStmt
            split at isAction
            · next isNone =>
                cases isNone
            · next breakSpan isBreak =>
                cases isBreak
                exact CodeContext.isNeutral_break _ _ target _ breakSpan
            · cases isAction
      · cases passes
  · cases passes

/-- The loop over an array that is left at once keeps the stack, with the array at
its test. -/
theorem breaksFirst_keepsStack :
    MethodShape.ofDescriptor.ReadsLoops .builtin ∧
      ∃ plan collection after, Method.breaksFirst.EmitsLoop .standard plan collection after ∧
        (loweringContext .builtin .standard .breaksFirst).fetchesFit plan = true ∧
        (loweringContext .builtin .standard .breaksFirst).isIdle plan = false ∧
        CodeStream.Balanced MethodShape.ofDescriptor [] .empty after ∧
        (loweringContext .builtin .standard .breaksFirst).KeepsStackAtTargets
          MethodShape.ofDescriptor plan collection .empty after := by
  have declared : ClassTable.ofUnit ⟨"Main", none, [], [], []⟩ = .ok .builtin := rfl
  have clean : (analyzedMethod .builtin .standard .breaksFirst).state.Clean := by
    decide +kernel
  have reads := ClassTable.readsLoops_ofDescriptor
    (ClassTable.ofUnit_sound (CompilationUnit.isAllowed_lenient _) declared) (by decide +kernel)
  have passes : Method.breaksFirst.loopPasses .standard (fun context plan _ _ =>
      context.fetchesFit plan && !context.isIdle plan) = true := by
    decide +kernel
  obtain ⟨plan, collection, after, emits, isFit⟩ := Method.exists_emitsLoop clean passes
  simp only [Bool.and_eq_true, Bool.not_eq_true'] at isFit
  obtain ⟨span, element, action, facts, member, isReached, plans, neutral, pushed⟩ := emits.emitted
  obtain ⟨found, isPlan, keeps⟩ := loopsKeepStack declared clean reads member MethodScope.root
  obtain rfl := Option.some.inj (plans.symm.trans isPlan)
  obtain ⟨balanced, keepsStack⟩ := keeps (by simp) isFit.1 emits.leavesType neutral pushed
  exact ⟨reads, plan, collection, after, emits, isFit.1, isFit.2, balanced,
    keepsStack isReached isFit.2⟩

/-- The test of a loop over an array may find the array on the stack, a loop may
drop one word of a value of two words, and it may take a reference for a value of a
primitive type. -/
theorem exists_unkeptStack :
    (∃ plan collection after, Method.breaksFirst.EmitsLoop .standard plan collection after ∧
      ∃ pushed started labeled labels offset,
        (loweringContext .builtin .standard .breaksFirst).pushExpr collection true .empty =
            .ok pushed ∧
          (loweringContext .builtin .standard .breaksFirst).startLoop plan pushed = .ok started ∧
          LoopLabels.made plan.continues started = (labels, labeled) ∧
          after.offset? labels.test = some offset ∧
          KindPath MethodShape.ofDescriptor after 0 after.position ⟨0, []⟩
            ⟨offset, [.reference]⟩) ∧
      (∃ plan collection after, Method.dropsLongs.EmitsLoop .standard plan collection after ∧
        ¬CodeStream.Balanced MethodShape.ofDescriptor [] .empty after) ∧
      ∃ plan collection after,
        Method.storesReferences.EmitsLoop { CompilerOptions.standard with keepUnusedLocals := true }
            plan collection after ∧
          ¬CodeStream.Balanced MethodShape.ofDescriptor [] .empty after := by
  refine ⟨?_, ?_, ?_⟩
  · have passes : Method.breaksFirst.loopPasses .standard (fun context plan collection after =>
        match context.pushExpr collection true .empty >>= context.startLoop plan with
        | .ok started =>
            (after.offset? (LoopLabels.made plan.continues started).1.test).any fun offset =>
              KindState.follow? MethodShape.ofDescriptor after [false, false, false] ⟨0, []⟩ =
                some ⟨offset, [.reference]⟩
        | .error _ => false) = true := by
      decide +kernel
    obtain ⟨plan, collection, after, emits, evaluated⟩ :=
      Method.exists_emitsLoop (by decide +kernel) passes
    split at evaluated
    · next started hasStarted =>
        obtain ⟨pushed, isPushed, isStarted⟩ := bind_eq_ok.mp hasStarted
        simp only [Option.any_eq_true, decide_eq_true_eq] at evaluated
        obtain ⟨offset, isThere, followed⟩ := evaluated
        exact ⟨plan, collection, after, emits, pushed, started, _, _, offset, isPushed, isStarted,
          rfl, isThere, .of_follow? .refl followed⟩
    · cases evaluated
  · have passes : Method.dropsLongs.loopPasses .standard (fun _ _ _ after =>
        (KindState.follow? MethodShape.ofDescriptor after
          [false, false, false, true, false, false, true, false, false, false, false]
          ⟨0, []⟩).any fun last =>
            after.instructions[last.offset]?.any fun instruction =>
              (instruction.effect MethodShape.ofDescriptor last.stack).isNone) = true := by
      decide +kernel
    obtain ⟨plan, collection, after, emits, evaluated⟩ :=
      Method.exists_emitsLoop (by decide +kernel) passes
    simp only [Option.any_eq_true, Option.isNone_iff_eq_none] at evaluated
    obtain ⟨last, followed, instruction, fetched, fails⟩ := evaluated
    exact ⟨plan, collection, after, emits,
      CodeStream.not_balanced_of_follow? followed fetched fails⟩
  · have passes : Method.storesReferences.loopPasses
        { CompilerOptions.standard with keepUnusedLocals := true } (fun _ _ _ after =>
        (KindState.follow? MethodShape.ofDescriptor after
          [false, false, false, true, false, false, true, false, false, false]
          ⟨0, []⟩).any fun last =>
            after.instructions[last.offset]?.any fun instruction =>
              (instruction.effect MethodShape.ofDescriptor last.stack).isNone) = true := by
      decide +kernel
    obtain ⟨plan, collection, after, emits, evaluated⟩ :=
      Method.exists_emitsLoop (by decide +kernel) passes
    simp only [Option.any_eq_true, Option.isNone_iff_eq_none] at evaluated
    obtain ⟨last, followed, instruction, fetched, fails⟩ := evaluated
    exact ⟨plan, collection, after, emits,
      CodeStream.not_balanced_of_follow? followed fetched fails⟩

end LoopLowering
