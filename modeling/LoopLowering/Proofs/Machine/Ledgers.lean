import LoopLowering.Proofs.Code.Emission
import LoopLowering.Proofs.Code.Steps
import LoopLowering.Proofs.Flow.Runs
import LoopLowering.Proofs.Machine.Executions

namespace LoopLowering

/-!
# Ledgers of locals

A ledger says what instructions demand of the way an execution has gone, and what
is known of that way where some locals are assigned. Where this is known before
an expression, the code of the expression meets every demand, and it is known
after the expression of the locals that the expression assigns as well.
-/

namespace CodeContext

/-- What instructions demand, and what is known at a place in the source when
some locals are assigned there. What is known lasts while nothing is stored, and
an assignment makes one more local known. -/
structure Ledger
    (context : CodeContext) where
  demand : Demand
  knows : Place → VarSet → Knowledge
  plain : ∀ {instruction : Instruction} {trail : Trail},
    instruction.usesSlot = false → demand instruction trail
  carries : ∀ {place : Place} {set : VarSet} {instruction : Instruction} {trail : Trail},
    knows place set trail →
    (∀ kind slot, instruction ≠ .store kind slot) →
    knows place set (instruction :: trail)
  load : ∀ {place : Place} {set : VarSet} {id : Nat} {slot : UInt16} {trail : Trail},
    knows place set trail →
    context.scope.Sees place.block place.count id →
    set.contains id = true →
    (context.localAt id).slot = some slot →
    demand (.load (CodeStream.kindOf context.scope id) slot) trail
  increment : ∀ {place : Place} {set : VarSet} {id : Nat} {slot : UInt16} {delta : Int16}
      {trail : Trail},
    knows place set trail →
    context.scope.Sees place.block place.count id →
    set.contains id = true →
    (context.localAt id).slot = some slot →
    (context.localAt id).type = .int →
    demand (.increment slot delta) trail
  store : ∀ {place : Place} {set : VarSet} {id : Nat} {slot : UInt16} {trail : Trail},
    knows place set trail →
    context.scope.Sees place.block place.count id →
    (context.localAt id).slot = some slot →
    demand (.store (CodeStream.kindOf context.scope id) slot) trail ∧
      knows place (set.insert id) (.store (CodeStream.kindOf context.scope id) slot :: trail)
  /-- An assignment to a local that does not exist in the code needs no store. -/
  absent : ∀ {place : Place} {set : VarSet} {id : Nat} {trail : Trail},
    knows place set trail →
    context.scope.Sees place.block place.count id →
    context.hasSlot id = false →
    knows place (set.insert id) trail
  /-- In a block scope around a place and after it, locals may be forgotten, and
  those that are not seen there count as known. -/
  weaken : ∀ {place outer : Place} {set smaller : VarSet} {trail : Trail},
    knows place set trail →
    outer.block ∈ context.scope.enclosing place.block →
    place.count ≤ outer.count →
    (∀ id : Nat, smaller.contains id = true →
      set.contains id = true ∨
        id < outer.count ∧ (context.localAt id).scope ∉ context.scope.enclosing outer.block) →
    knows outer smaller trail
  enter : ∀ {outer first inner : Nat} {set : VarSet} {trail : Trail},
    knows ⟨outer, first⟩ set trail →
    context.Opens outer first inner →
    knows ⟨inner, first⟩ set trail
  /-- What is known after more declarations is known after fewer, if the same
  locals can be known there. -/
  recount : ∀ {block count fewer : Nat} {set : VarSet} {trail other : Trail},
    knows ⟨block, count⟩ set trail →
    knows ⟨block, fewer⟩ set other →
    knows ⟨block, fewer⟩ set trail

namespace Ledger

variable
  {context : CodeContext}

/-- A step of code generation gets from where some locals are known to where
others are, whatever the code goes on with. -/
def Advances
    (ledger : context.Ledger)
    (code : MethodCode)
    (place : Place)
    (step : CodeStep)
    (before after : VarSet) :
    Prop :=
  ∀ {steps : Nat} {stream next : CodeStream},
    step stream = .ok next →
    code.Continues ledger.demand steps next (ledger.knows place after) →
    code.Continues ledger.demand steps stream (ledger.knows place before)

section Steps

variable
  {ledger : context.Ledger}
  {code : MethodCode}
  {place : Place}
  {set : VarSet}
  {steps : Nat}
  {stream after : CodeStream}

/-- At the same place, locals may be forgotten. -/
theorem within
    (wellFormed : context.scope.WellFormed)
    {trail : Trail}
    (knows : ledger.knows place set trail)
    {smaller : VarSet}
    (within : smaller.Within set) :
    ledger.knows place smaller trail :=
  ledger.weaken knows (wellFormed.mem_enclosing_self place.block) (Nat.le_refl _)
    fun id member => .inl (within id member)

/-- After more declarations, the same locals are known. -/
theorem later
    (wellFormed : context.scope.WellFormed)
    {trail : Trail}
    (knows : ledger.knows place set trail)
    {count : Nat}
    (counted : place.count ≤ count) :
    ledger.knows ⟨place.block, count⟩ set trail :=
  ledger.weaken knows (wellFormed.mem_enclosing_self place.block) counted
    fun _ member => .inl member

/-- A plain instruction comes before what goes on safely. -/
theorem continues_emit
    {instruction : Instruction}
    (continues : code.Continues ledger.demand steps (stream.emit instruction)
      (ledger.knows place set))
    (plain : instruction.isPlain = true) :
    code.Continues ledger.demand steps stream (ledger.knows place set) := by
  obtain ⟨usesNone, noTarget⟩ := Instruction.usesSlot_of_isPlain plain
  exact continues.emit noTarget fun trail knows =>
    ⟨ledger.plain usesNone, ledger.carries knows (Instruction.ne_store_of_usesSlot usesNone)⟩

/-- Plain instructions come before what goes on safely. -/
theorem continues_plainly
    (plainly : stream.Plainly after)
    (continues : code.Continues ledger.demand steps after (ledger.knows place set)) :
    code.Continues ledger.demand steps stream (ledger.knows place set) := by
  induction plainly with
  | refl =>
      exact continues
  | emit _ plain inductionHypothesis =>
      exact inductionHypothesis (continues_emit continues plain)

/-- A known local can be loaded. -/
theorem continues_load
    {id : LocalId}
    (loaded : stream.load context.scope id = .ok after)
    (sees : context.scope.Sees place.block place.count id)
    (member : set.contains id = true)
    (continues : code.Continues ledger.demand steps after (ledger.knows place set)) :
    code.Continues ledger.demand steps stream (ledger.knows place set) := by
  obtain ⟨slot, isSlot, rfl⟩ := CodeStream.load_eq_ok.mp loaded
  exact continues.emit rfl fun trail knows =>
    ⟨ledger.load knows sees member isSlot, ledger.carries knows (by simp)⟩

/-- A known integer local can be added to. -/
theorem continues_increment
    {id : LocalId}
    {delta : Int16}
    (added : stream.increment context.scope id delta = .ok after)
    (sees : context.scope.Sees place.block place.count id)
    (isInt : (context.localAt id).type = .int)
    (member : set.contains id = true)
    (continues : code.Continues ledger.demand steps after (ledger.knows place set)) :
    code.Continues ledger.demand steps stream (ledger.knows place set) := by
  obtain ⟨slot, isSlot, rfl⟩ := CodeStream.increment_eq_ok.mp added
  exact continues.emit rfl fun trail knows =>
    ⟨ledger.increment knows sees member isSlot isInt, ledger.carries knows (by simp)⟩

/-- A local that is stored to is known afterwards. -/
theorem continues_store
    {id : LocalId}
    {keep : Bool}
    (stored : stream.store context.scope id keep = .ok after)
    (sees : context.scope.Sees place.block place.count id)
    (continues : code.Continues ledger.demand steps after (ledger.knows place (set.insert id))) :
    code.Continues ledger.demand steps stream (ledger.knows place set) := by
  obtain ⟨slot, isSlot, rfl⟩ := CodeStream.store_eq_ok.mp stored
  have emitted := continues.sameCode (CodeStream.openLocal_same context.scope id _)
  exact continues_plainly (.copied .refl _ _) (emitted.emit rfl fun trail knows =>
    ledger.store knows sees isSlot)

/-- Branching on two values comes before what goes on safely on both ways. -/
theorem continues_branchOnValues
    {op : BinOp}
    {condition : Condition}
    {operand : Primitive}
    {label : Label}
    (continues : code.Continues ledger.demand steps
      (stream.branchOnValues op condition operand label) (ledger.knows place set))
    (target : code.ContinuesAt ledger.demand steps label (ledger.knows place set)) :
    code.Continues ledger.demand steps stream (ledger.knows place set) := by
  simp only [CodeStream.branchOnValues] at continues
  split at continues
  · exact (continues.branch target rfl fun trail knows =>
      ⟨ledger.plain rfl, ledger.carries knows (by simp)⟩).fewer (Nat.le_succ steps)
  · exact continues_emit ((continues.branch target rfl fun trail knows =>
      ⟨ledger.plain rfl, ledger.carries knows (by simp)⟩).fewer (Nat.le_succ steps)) rfl

/-- A comparison that branches evaluates its operands and goes on either way. -/
theorem continues_branchOnComparison
    {op : BinOp}
    {left right : Expr}
    {pushLeft pushRight : CodeStep}
    {branchIf : Bool}
    {label : Label}
    {middle last : VarSet}
    (leftAdvances : ledger.Advances code place pushLeft set middle)
    (rightAdvances : ledger.Advances code place pushRight middle last)
    (branched : context.branchOnComparison op left right pushLeft pushRight branchIf label stream =
      .ok after)
    (continues : code.Continues ledger.demand steps after (ledger.knows place last))
    (target : code.ContinuesAt ledger.demand steps label (ledger.knows place last)) :
    code.Continues ledger.demand steps stream (ledger.knows place set) := by
  simp only [branchOnComparison, bind_eq_ok] at branched
  obtain ⟨condition, -, pushed, isPushed, branched⟩ := branched
  split at branched
  · simp only [bind_eq_ok, pure_eq_ok] at branched
    obtain ⟨both, isBoth, rfl⟩ := branched
    have compared := continues_plainly (.convertOperand .refl _ _)
      (continues_branchOnValues continues target)
    exact leftAdvances isPushed (continues_plainly (.convertOperand .refl _ _)
      (rightAdvances isBoth compared))
  · simp only [bind_eq_ok, pure_eq_ok] at branched
    obtain ⟨both, isBoth, rfl⟩ := branched
    refine leftAdvances isPushed (rightAdvances isBoth ?_)
    split at continues
    · exact (continues.branch target rfl fun trail knows =>
        ⟨ledger.plain rfl, ledger.carries knows (by simp)⟩).fewer (Nat.le_succ steps)
    · exact (continues.branch target rfl fun trail knows =>
        ⟨ledger.plain rfl, ledger.carries knows (by simp)⟩).fewer (Nat.le_succ steps)

/-- A jump comes before what goes on safely at its target. -/
theorem continues_goto
    {label : Label}
    (completes : code.Completes (stream.emit (.goto label)))
    (target : code.ContinuesAt ledger.demand steps label (ledger.knows place set)) :
    code.Continues ledger.demand (steps + 1) stream (ledger.knows place set) :=
  .goto completes target fun _ knows => ⟨ledger.plain rfl, ledger.carries knows (by simp)⟩

/-- A test that becomes a value goes on either way. -/
theorem advances_testValue
    {branchUnless : Label → CodeStep}
    {later : VarSet}
    (complete : ∀ label, (branchUnless label).Appends)
    (branches : ∀ {steps : Nat} {label : Label} {stream tested : CodeStream},
      branchUnless label stream = .ok tested →
      code.Continues ledger.demand steps tested (ledger.knows place later) →
      code.ContinuesAt ledger.demand steps label (ledger.knows place later) →
      code.Continues ledger.demand steps stream (ledger.knows place set)) :
    ledger.Advances code place (fun stream => stream.testValue branchUnless) set later := by
  intro steps stream after isTested continues
  obtain ⟨tested, isBranched, rfl⟩ := CodeStream.testValue_eq_ok.mp isTested
  have labeled := ((CodeStream.Appends.refl stream).addLabel).addLabel.trans (complete _ isBranched)
  have jumped := (labeled.emit (.intConst 1)).emit (.goto stream.addLabel.nextLabel)
  have remain : ∀ other : Nat, other ∈ ([stream.addLabel.nextLabel] : List Nat) ↔
      other ∈ ([stream.addLabel.nextLabel, stream.nextLabel] : List Nat) ∧
        other ≠ stream.nextLabel := by
    intro other
    simp only [List.mem_cons, List.not_mem_nil, or_false, CodeStream.nextLabel,
      CodeStream.addLabel, Array.size_push]
    omega
  have placed := (jumped.place (by simp) remain).emit (.intConst 0)
  have endOpen := placed.isOpen_label stream.addLabel.nextLabel (by simp)
  have falseOpen := jumped.isOpen_label stream.nextLabel (by simp)
  have failed := continues_emit (continues.place endOpen) rfl
  have passed := continues_emit ((continues_goto (failed.place falseOpen).completes
    (continues.atPlaced endOpen.1)).fewer (Nat.le_succ steps)) rfl
  exact (branches isBranched passed (failed.atPlaced falseOpen.1)).addLabel.addLabel

/-- Operands that are combined are evaluated from left to right. -/
theorem advances_pushArithmetic
    {op : BinOp}
    {left right : Expr}
    {pushLeft pushRight : CodeStep}
    {middle last : VarSet}
    (leftAdvances : ledger.Advances code place pushLeft set middle)
    (rightAdvances : ledger.Advances code place pushRight middle last) :
    ledger.Advances code place (context.pushArithmetic op left right pushLeft pushRight) set
      last := by
  intro steps stream after combined continues
  simp only [pushArithmetic] at combined
  split at combined
  · simp only [throw_eq_ok] at combined
  · simp only [bind_eq_ok, pure_eq_ok] at combined
    obtain ⟨pushed, isPushed, both, isBoth, arith, -, rfl⟩ := combined
    have converted := continues_plainly (.convertOperand .refl _ _) (continues_emit continues rfl)
    exact leftAdvances isPushed (continues_plainly (.convertOperand .refl _ _)
      (rightAdvances isBoth converted))

/-- An assignment of a value makes its target known. -/
theorem advances_assignSimple
    {id : LocalId}
    {value : Expr}
    {push : (wanted : Bool) → CodeStep}
    {wanted : Bool}
    {later : VarSet}
    (sees : context.scope.Sees place.block place.count id)
    (advances : ∀ wanted, ledger.Advances code place (push wanted) set later) :
    ledger.Advances code place (context.assignSimple id value push wanted) set
      (later.insert id) := by
  intro steps stream after assigned continues
  simp only [assignSimple] at assigned
  split at assigned
  · simp only [bind_eq_ok] at assigned
    obtain ⟨pushed, isPushed, stored⟩ := assigned
    exact advances _ isPushed (continues_plainly (.convertAssigned .refl _ _ _)
      (continues_store stored sees continues))
  · next slotless =>
      refine advances _ assigned (continues.strengthen fun trail knows => ?_)
      exact ledger.absent knows sees (by simpa using slotless)

/-- An assignment of the result of an operator reads its target, and makes it
known. -/
theorem advances_assignOperated
    {id : LocalId}
    {op : BinOp}
    {value : Expr}
    {pushValue : CodeStep}
    {wanted : Bool}
    {later : VarSet}
    (sees : context.scope.Sees place.block place.count id)
    (member : set.contains id = true)
    (advances : ledger.Advances code place pushValue set later) :
    ledger.Advances code place (context.assignOperated id op value pushValue wanted) set
      (later.insert id) := by
  intro steps stream after assigned continues
  simp only [assignOperated] at assigned
  split at assigned
  · simp only [throw_eq_ok] at assigned
  · simp only [throw_eq_ok] at assigned
  · simp only [bind_eq_ok] at assigned
    obtain ⟨loaded, isLoaded, both, isBoth, arith, -, stored⟩ := assigned
    have combined := continues_emit (continues_plainly (.convert .refl _ _)
      (continues_store stored sees continues)) rfl
    exact continues_load isLoaded sees member (continues_plainly (.convert .refl _ _)
      (advances isBoth (continues_plainly (.convertOperand .refl _ _) combined)))

end Steps

end Ledger

/-- The method that code generation calls is the one that resolution found. -/
theorem HasType.eq_lookupMethod
    {strict : Bool}
    {context : CodeContext}
    {place : Place}
    (sound : context.Sound strict)
    (counted : place.count ≤ context.scope.locals.size)
    {receiver : Expr}
    {receiverTy : Ty}
    {method : String}
    {found taken : ClassTable.FoundMethod}
    {code object : CodeStream}
    (typed : context.HasType strict place receiver receiverTy)
    (finds : context.table.lookupMethod receiverTy method = some found)
    (takes : context.table.lookupMethod (context.exprType receiver) method = some taken)
    (pushed : context.pushExpr receiver true code = .ok object) :
    found = taken := by
  have emittable := emittable_of_pushExpr sound counted typed pushed
  have known : (context.exprType receiver).isUnknown = false := by
    cases missed : context.exprType receiver with
    | unknown =>
        rw [missed, Ty.lookupMethod_unknown] at takes
        cases takes
    | _ =>
        rfl
  rwa [(typed.takenFor sound counted emittable).lookupMethod known, finds,
    Option.some.injEq] at takes

namespace Ledger

section Expressions

variable
  {strict : Bool}
  {context : CodeContext}
  {ledger : context.Ledger}
  {code : MethodCode}
  {place : Place}

mutual

/-- The code of an expression that reads assigned locals makes known what the
expression assigns. -/
theorem advances_pushExpr
    (sound : context.Sound strict)
    (counted : place.count ≤ context.scope.locals.size) :
    ∀ {expr : Expr} {ty : Ty} {set : VarSet} {wanted : Bool},
      context.HasType strict place expr ty →
      expr.ReadsAssigned set →
      ledger.Advances code place (context.pushExpr expr wanted) set (expr.definite set)
  | .intLit _ value, ty, set, wanted, _, _, steps, stream, after, pushed, continues
  | .boolLit _ value, ty, set, wanted, _, _, steps, stream, after, pushed, continues
  | .stringLit _ value, ty, set, wanted, _, _, steps, stream, after, pushed, continues
  | .null _, ty, set, wanted, _, _, steps, stream, after, pushed, continues => by
      simp only [pushExpr, Except.ok.injEq] at pushed
      subst pushed
      simp only [Expr.definite] at continues
      cases wanted with
      | false =>
          exact continues
      | true =>
          exact continues_emit continues rfl
  | .name _ ref, ty, set, wanted, typed, reads, steps, stream, after, pushed, continues => by
      rw [HasType] at typed
      obtain ⟨id, binds, -, -⟩ := typed
      simp only [Expr.definite] at continues
      simp only [Expr.ReadsAssigned] at reads
      cases wanted with
      | false =>
          simp only [pushExpr, Bool.false_eq_true, if_false, Except.ok.injEq] at pushed
          exact pushed ▸ continues
      | true =>
          simp only [pushExpr, if_true, binds.bindingOf, bind_eq_ok, Except.ok.injEq,
            exists_eq_left'] at pushed
          exact continues_load pushed binds.sees (reads id binds.bound) continues
  | .newArray _ component elements, ty, set, wanted, typed, reads, steps, stream, after, pushed,
      continues => by
      rw [HasType] at typed
      obtain ⟨componentTy, -, -, fill, -⟩ := typed
      simp only [Expr.definite] at continues
      simp only [Expr.ReadsAssigned] at reads
      cases wanted with
      | false =>
          simp only [pushExpr, Bool.false_eq_true, if_false] at pushed
          exact advances_runExprs sound counted fill reads pushed continues
      | true =>
          simp only [pushExpr, if_true, bind_eq_ok, CodeStream.newArray_eq_ok] at pushed
          obtain ⟨type, -, created, ⟨-, rfl⟩, filled⟩ := pushed
          exact continues_plainly
            (.emit (.emit .refl rfl) (CodeStream.isPlain_creation context.table type))
            (advances_fillArray sound counted fill reads filled continues)
  | .binary _ op left right, ty, set, wanted, typed, reads, steps, stream, after, pushed,
      continues => by
      rw [HasType] at typed
      obtain ⟨leftTy, rightTy, leftTyped, rightTyped, -⟩ := typed
      simp only [Expr.definite] at continues
      simp only [Expr.ReadsAssigned] at reads
      cases wanted with
      | false =>
          simp only [pushExpr, Bool.false_eq_true, if_false, bind_eq_ok] at pushed
          obtain ⟨ran, isRan, pushed⟩ := pushed
          exact advances_pushExpr sound counted leftTyped reads.1 isRan
            (advances_pushExpr sound counted rightTyped reads.2 pushed continues)
      | true =>
          have leftAdvances : ledger.Advances code place (context.pushExpr left true) set
              (left.definite set) := advances_pushExpr sound counted leftTyped reads.1
          have rightAdvances : ledger.Advances code place (context.pushExpr right true)
              (left.definite set) (right.definite (left.definite set)) :=
            advances_pushExpr sound counted rightTyped reads.2
          simp only [pushExpr, if_true] at pushed
          split at pushed
          · refine advances_testValue ?_ ?_ pushed continues
            · exact fun label _ _ branched => appends_branchOnComparison
                (appends_pushExpr context left true) (appends_pushExpr context right true) branched
            · exact fun branched => continues_branchOnComparison leftAdvances rightAdvances branched
          · exact advances_pushArithmetic leftAdvances rightAdvances pushed continues
  | .assign _ target none value, ty, set, wanted, typed, reads, steps, stream, after, pushed,
      continues => by
      rw [HasType] at typed
      obtain ⟨id, valueTy, binds, valueTyped, -⟩ := typed
      simp only [Expr.definite, VarSet.insertBinding, binds.bound] at continues
      simp only [Expr.ReadsAssigned] at reads
      simp only [pushExpr, assign, binds.bindingOf, bind_eq_ok, Except.ok.injEq,
        exists_eq_left'] at pushed
      exact advances_assignSimple binds.sees
        (fun _ => advances_pushExpr sound counted valueTyped reads.2) pushed continues
  | .assign _ target (some op) value, ty, set, wanted, typed, reads, steps, stream, after, pushed,
      continues => by
      rw [HasType] at typed
      obtain ⟨id, valueTy, binds, -, valueTyped, -⟩ := typed
      simp only [Expr.definite, VarSet.insertBinding, binds.bound] at continues
      simp only [Expr.ReadsAssigned, Option.isSome_some, true_imp_iff] at reads
      have member := reads.1 id binds.bound
      simp only [pushExpr, assign, binds.bindingOf, bind_eq_ok, Except.ok.injEq,
        exists_eq_left'] at pushed
      split at pushed
      · next delta small =>
          split at small
          · next isInt =>
              have assigned : (value.definite set).insert id = set := by
                cases value with
                | intLit span literal =>
                    ext other
                    by_cases same : id = other
                    · subst same
                      simp [Expr.definite, member]
                    · simp [Expr.definite, same]
                | _ =>
                    cases small
              rw [assigned] at continues
              simp only [bind_eq_ok] at pushed
              obtain ⟨added, isAdded, pushed⟩ := pushed
              refine continues_increment isAdded binds.sees isInt member ?_
              split at pushed
              · exact continues_load pushed binds.sees member continues
              · rw [pure_eq_ok] at pushed
                exact pushed ▸ continues
          · cases small
      · exact advances_assignOperated binds.sees member
          (advances_pushExpr sound counted valueTyped reads.2) pushed continues
  | .call _ function args, ty, set, wanted, typed, reads, steps, stream, after, pushed,
      continues => by
      rw [HasType] at typed
      obtain ⟨info, found, pass, -⟩ := typed
      simp only [Expr.definite] at continues
      simp only [Expr.ReadsAssigned] at reads
      simp only [pushExpr, found, bind_eq_ok, pure_eq_ok] at pushed
      obtain ⟨arguments, arePushed, rfl⟩ := pushed
      exact advances_pushArguments sound counted pass reads arePushed
        (continues_plainly (.callFunction .refl _ _ _ _) continues)
  | .methodCall _ receiver method args, ty, set, wanted, typed, reads, steps, stream, after, pushed,
      continues => by
      rw [HasType] at typed
      obtain ⟨receiverTy, found, receiverTyped, finds, pass, -⟩ := typed
      simp only [Expr.definite] at continues
      simp only [Expr.ReadsAssigned] at reads
      simp only [pushExpr] at pushed
      split at pushed
      · cases pushed
      · next taken isTaken =>
          simp only [bind_eq_ok, pure_eq_ok] at pushed
          obtain ⟨object, isPushed, arguments, arePushed, rfl⟩ := pushed
          obtain rfl := receiverTyped.eq_lookupMethod sound counted finds isTaken isPushed
          exact advances_pushExpr sound counted receiverTyped reads.1 isPushed
            (advances_pushArguments sound counted pass reads.2 arePushed
              (continues_plainly (.callMethod .refl _ _ _ _) continues))

theorem advances_runExprs
    (sound : context.Sound strict)
    (counted : place.count ≤ context.scope.locals.size) :
    ∀ {exprs : List Expr} {component : Ty} {set : VarSet},
      context.Fill strict place component exprs →
      Expr.AllReadAssigned exprs set →
      ledger.Advances code place (context.runExprs exprs) set (Expr.definiteAll exprs set)
  | [], component, set, _, _, steps, stream, after, ran, continues => by
      simp only [runExprs, Except.ok.injEq] at ran
      exact ran ▸ continues
  | expr :: rest, component, set, fill, reads, steps, stream, after, ran, continues => by
      rw [Fill] at fill
      obtain ⟨⟨ty, typed, -⟩, restFill⟩ := fill
      simp only [Expr.AllReadAssigned] at reads
      simp only [Expr.definiteAll] at continues
      simp only [runExprs, bind_eq_ok] at ran
      obtain ⟨middle, first, remaining⟩ := ran
      exact advances_pushExpr sound counted typed reads.1 first
        (advances_runExprs sound counted restFill reads.2 remaining continues)

theorem advances_fillArray
    (sound : context.Sound strict)
    (counted : place.count ≤ context.scope.locals.size) :
    ∀ {exprs : List Expr} {component given : Ty} {index : Nat} {set : VarSet},
      context.Fill strict place component exprs →
      Expr.AllReadAssigned exprs set →
      ledger.Advances code place (context.fillArray given exprs index) set
        (Expr.definiteAll exprs set)
  | [], component, given, index, set, _, _, steps, stream, after, filled, continues => by
      simp only [fillArray, Except.ok.injEq] at filled
      exact filled ▸ continues
  | expr :: rest, component, given, index, set, fill, reads, steps, stream, after, filled,
      continues => by
      rw [Fill] at fill
      obtain ⟨⟨ty, typed, -⟩, restFill⟩ := fill
      simp only [Expr.AllReadAssigned] at reads
      simp only [Expr.definiteAll] at continues
      simp only [fillArray, bind_eq_ok] at filled
      obtain ⟨pushed, isPushed, remaining⟩ := filled
      have stored := continues_plainly (.emit (.convertAssigned .refl _ _ _) rfl)
        (advances_fillArray sound counted restFill reads.2 remaining continues)
      exact continues_plainly (.emit (.emit .refl rfl) rfl)
        (advances_pushExpr sound counted typed reads.1 isPushed stored)

theorem advances_pushArguments
    (sound : context.Sound strict)
    (counted : place.count ≤ context.scope.locals.size) :
    ∀ {exprs : List Expr} {params : List Ty} {set : VarSet},
      context.Pass strict place params exprs →
      Expr.AllReadAssigned exprs set →
      ledger.Advances code place (context.pushArguments exprs params) set
        (Expr.definiteAll exprs set)
  | [], params, set, _, _, steps, stream, after, pushed, continues => by
      simp only [pushArguments, Except.ok.injEq] at pushed
      exact pushed ▸ continues
  | expr :: rest, params, set, pass, reads, steps, stream, after, pushed, continues => by
      rw [Pass] at pass
      obtain ⟨param, others, ty, rfl, typed, -, restPass⟩ := pass
      simp only [Expr.AllReadAssigned] at reads
      simp only [Expr.definiteAll] at continues
      simp only [pushArguments, bind_eq_ok] at pushed
      obtain ⟨first, isPushed, remaining⟩ := pushed
      exact advances_pushExpr sound counted typed reads.1 isPushed
        (continues_plainly (.convertAssigned .refl _ _ _)
          (advances_pushArguments sound counted restPass reads.2 remaining continues))

end

end Expressions

end Ledger

end CodeContext

end LoopLowering
