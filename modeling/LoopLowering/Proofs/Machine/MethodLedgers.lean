import LoopLowering.Proofs.Code.Methods
import LoopLowering.Proofs.Machine.LedgerStatements

namespace LoopLowering

/-!
# Ledgers of methods

The code of a method without errors is that of its body, with a return after it
if an execution can come there. What a ledger demands is met wherever an
execution of it comes, if the ledger knows the parameters from the start.
-/

/-- The code of a method is a stream in which every branch target is placed. -/
structure MethodCode.Finishes
    (code : MethodCode)
    (stream : CodeStream) :
    Prop where
  instructions : code.instructions = stream.instructions
  labels : code.labels.toList.map some = stream.labels.toList

namespace MethodCode.Finishes

variable
  {code : MethodCode}
  {stream : CodeStream}

/-- A branch target is where the stream has placed it. -/
theorem labelPosition?_eq
    (finishes : code.Finishes stream)
    (label : Nat) :
    code.labelPosition? label = stream.offset? label := by
  have same := congrArg (fun labels => labels[label]?) finishes.labels
  simp only [List.getElem?_map, Array.getElem?_toList] at same
  simp only [MethodCode.labelPosition?, CodeStream.offset?, ← same]
  cases code.labels[label]? <;> rfl

/-- A stream is the whole of the code that is made of it. -/
theorem completes
    (finishes : code.Finishes stream) :
    code.Completes stream where
  instruction := fun offset _ => by rw [finishes.instructions]
  placed := fun placed => (finishes.labelPosition?_eq _).trans placed

end MethodCode.Finishes

/-- Complete code is finished as the code of a method. -/
theorem CodeStream.finishes_finish
    {scope : MethodScope}
    {name : String}
    {stream : CodeStream}
    {code : MethodCode}
    (complete : Appends [] .empty stream)
    (finished : stream.finish scope name = .ok code) :
    code.Finishes stream ∧ code.maxLocals = scope.frameSize := by
  obtain ⟨found, isFound, instructions, labels⟩ := exists_finish scope name complete
  obtain rfl := Except.ok.inj (finished.symm.trans isFound)
  refine ⟨⟨instructions, labels⟩, ?_⟩
  simp only [finish, bind_eq_ok, pure_eq_ok] at finished
  obtain ⟨offsets, -, rfl⟩ := finished
  rfl

section Methods

variable
  {strict : Bool}
  {table : ClassTable}
  {options : CompilerOptions}
  {method : Method}
  {code : MethodCode}

/-- A method without errors has no result or one of a type of values. -/
theorem isResult_returnType
    (tableSound : table.Sound strict)
    (allowed : method.isAllowed strict = true)
    (clean : (analyzedMethod table options method).state.Clean) :
    (loweringContext table options method).state.returnType = .void ∨
      (loweringContext table options method).state.returnType.isValue strict = true := by
  have bodyLeads := leads_checkStmts table options method.body.stmts MethodScope.root
    (method.bodyState table)
  have settles := settles_loweringContext clean
  obtain ⟨-, isResult⟩ := Method.sound_bodyState tableSound allowed
    (bodyLeads.isClean settles.isClean)
  have sameType : (loweringContext table options method).state.returnType =
      (method.bodyState table).returnType :=
    (bodyLeads.trans (marks_loweringContext table options method).toLeads).returnType
  rw [sameType]
  exact isResult

/-- The result type of a method without errors is known. -/
theorem isUnknown_returnType
    (tableSound : table.Sound strict)
    (allowed : method.isAllowed strict = true)
    (clean : (analyzedMethod table options method).state.Clean) :
    (loweringContext table options method).state.returnType.isUnknown = false :=
  Ty.IsResult.ne_unknown (.inr (isResult_returnType tableSound allowed clean))

/-- A method without errors returns after its body if an execution can come
there. -/
theorem returned_loweringContext
    (tableSound : table.Sound strict)
    (allowed : method.isAllowed strict = true)
    (clean : (analyzedMethod table options method).state.Clean)
    (ran : CodeStream) :
    (loweringContext table options method).returned ran =
      if (method.analyzedBody table options).point.flow.reachable then
        ran.emit (.returnWith none)
      else
        ran := by
  obtain ⟨completes, isVoid⟩ := completesNormally_loweringContext clean
  simp only [CodeContext.returned, completes]
  cases reachable : (method.analyzedBody table options).point.flow.reachable with
  | false =>
      rfl
  | true =>
      have known := isUnknown_returnType tableSound allowed clean
      rcases isVoid reachable with returnsNothing | unknown
      · simp [returnsNothing]
      · rw [known] at unknown
        cases unknown

/-- The code of a method without errors is that of its body after its parameters, with a
return after it if an execution can come there. -/
theorem exists_openedBody
    (tableSound : table.Sound strict)
    (allowed : method.isAllowed strict = true)
    (clean : (analyzedMethod table options method).state.Clean)
    (generated : (loweringContext table options method).methodCode
      (analyzedMethod table options method).node = .ok code) :
    ∃ opened ran, (loweringContext table options method).openParams
        (analyzedMethod table options method).node.params .empty = .ok opened ∧
      CodeStream.empty.SameCode opened ∧
      (loweringContext table options method).pushStmts (method.analyzedBody table options).nodes
        none [] MethodScope.root opened = .ok ran ∧
      code.Finishes ((loweringContext table options method).returned ran) ∧
      code.maxLocals = (loweringContext table options method).scope.frameSize := by
  obtain ⟨reachesAll, -⟩ := runs_body tableSound allowed clean
  have bound : ∀ param ∈ (analyzedMethod table options method).node.params,
      param.binding.isSome = true := isSome_binding_checkParams
  obtain ⟨opened, ran, isOpened, isRan, finished⟩ := CodeContext.methodCode_eq_ok.mp generated
  obtain ⟨found, isFound, sameCode⟩ :=
    (loweringContext table options method).exists_openParams bound .empty
  obtain rfl := Except.ok.inj (isOpened.symm.trans isFound)
  change CodeContext.pushStmts _ _ (method.analyzedBody table options).unreachableFrom _ _ _ = _
    at isRan
  rw [reachesAll] at isRan
  have body : CodeStream.Appends [] .empty ran := ((CodeStream.Appends.refl _).sameCode
    sameCode).trans (CodeContext.appends_pushStmts _ _ _ _ _ isRan)
  have marked := CodeStream.markSource_same opened.position
    (analyzedMethod table options method).node.body.span
    ((loweringContext table options method).returned ran)
  have complete := ((loweringContext table options method).appends_returned body).sameCode marked
  obtain ⟨finishes, frame⟩ := CodeStream.finishes_finish complete finished
  exact ⟨opened, ran, isOpened, sameCode, isRan, ⟨finishes.instructions.trans marked.1,
    finishes.labels.trans (congrArg Array.toList marked.2)⟩, frame⟩

/-- The code of a method without errors is that of its body, with a return after
it if an execution can come there. -/
theorem exists_bodyCode
    (tableSound : table.Sound strict)
    (allowed : method.isAllowed strict = true)
    (clean : (analyzedMethod table options method).state.Clean)
    (generated : (loweringContext table options method).methodCode
      (analyzedMethod table options method).node = .ok code) :
    ∃ opened ran, CodeStream.empty.SameCode opened ∧
      (loweringContext table options method).pushStmts (method.analyzedBody table options).nodes
        none [] MethodScope.root opened = .ok ran ∧
      code.Finishes ((loweringContext table options method).returned ran) ∧
      code.maxLocals = (loweringContext table options method).scope.frameSize := by
  obtain ⟨opened, ran, -, body⟩ := exists_openedBody tableSound allowed clean generated
  exact ⟨opened, ran, body⟩

/-- Wherever an execution of a method without errors comes, the demands of a
ledger are met. -/
theorem safe_methodCode
    (tableSound : table.Sound strict)
    (allowed : method.isAllowed strict = true)
    (clean : (analyzedMethod table options method).state.Clean)
    (ledger : (loweringContext table options method).Ledger)
    (suits : ∀ head ∈ Stmt.allHeads (method.analyzedBody table options).nodes,
      ledger.SuitsHead head)
    (starts : ledger.knows ⟨MethodScope.root, (method.bodyState table).scope.locals.size⟩
      (method.parameterSet table options) [])
    (generated : (loweringContext table options method).methodCode
      (analyzedMethod table options method).node = .ok code)
    (steps : Nat) :
    code.Safe ledger.demand steps 0 [] := by
  have sound := sound_loweringContext tableSound allowed clean
  obtain ⟨resolved, counts⟩ := resolved_analyzedBody tableSound allowed clean
  obtain ⟨-, runs⟩ := runs_body tableSound allowed clean
  obtain ⟨opened, ran, sameCode, isRan, finishes, -⟩ :=
    exists_bodyCode tableSound allowed clean generated
  rw [returned_loweringContext tableSound allowed clean] at finishes
  have ending : code.Continues ledger.demand steps ran (ledger.knowsAt
      ⟨MethodScope.root, (method.bodyState table).scope.locals.size +
        Stmt.localCounts (method.analyzedBody table options).nodes⟩
      (.after (method.analyzedBody table options).point.flow)) := by
    cases reachable : (method.analyzedBody table options).point.flow.reachable with
    | true =>
        rw [reachable, if_pos rfl] at finishes
        exact .finish finishes.completes rfl rfl fun _ _ => ledger.plain rfl
    | false =>
        rw [reachable, if_neg Bool.false_ne_true] at finishes
        refine ⟨finishes.completes, ?_⟩
        rintro - trail ⟨needed, isExit, -⟩
        simp [FlowExit.after, reachable] at isExit
  have acting := ledger.continues_pushStmts sound resolved (Nat.le_of_eq counts) runs suits isRan
    (show JumpFrame.Matches _ [] [] from trivial) ending
  exact (acting.sameCode sameCode).safe rfl [] starts

end Methods

end LoopLowering
