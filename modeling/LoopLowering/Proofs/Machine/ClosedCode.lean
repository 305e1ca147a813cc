import LoopLowering.Proofs.Code.LoopTurns
import LoopLowering.Proofs.Code.Relowering
import LoopLowering.Proofs.Machine.MethodLedgers

namespace LoopLowering

/-!
# Code is closed

Every branch target is placed, the last instruction never goes on, and no
execution leaves the code but by returning. A branch that no execution comes to
may still have its target after the last instruction.
-/

namespace CodeStream

/-- The last instruction never goes on to what comes after it. -/
def Ends
    (code : CodeStream) :
    Prop :=
  ∃ last, code.instructions.back? = some last ∧ last.endsFlow = true

variable
  {code after : CodeStream}

/-- Code ends with an instruction that never goes on. -/
theorem ends_emit
    {instruction : Instruction}
    (endsFlow : instruction.endsFlow = true) :
    (code.emit instruction).Ends :=
  ⟨instruction, by simp [emit], endsFlow⟩

/-- The same code ends in the same way. -/
theorem Ends.sameCode
    (ends : code.Ends)
    (same : code.SameCode after) :
    after.Ends := by
  rw [Ends, same.1]
  exact ends

end CodeStream

namespace CodeContext

variable
  {context : CodeContext}

mutual

/-- The code of a statement without an exit after it never goes on after it. -/
theorem ends_pushStmt :
    ∀ {stmt : Stmt} {frames : List JumpFrame} {before : VarSet} {targets : List JumpTarget}
        {scope : ScopeId} {code after : CodeStream},
      context.Runs stmt frames before none →
      context.pushStmt stmt targets scope code = .ok after →
      after.Ends
  | .localVar span decl, frames, before, targets, scope, code, after, runs, pushed
  | .expr span value, frames, before, targets, scope, code, after, runs, pushed => by
      simp only [Runs] at runs
      obtain ⟨-, needed, isExit, -⟩ := runs
      cases isExit
  | .block span stmts facts, frames, before, targets, scope, code, after, runs, pushed => by
      simp only [Runs] at runs
      simp only [pushStmt, bind_eq_ok, pure_eq_ok] at pushed
      obtain ⟨ran, isRan, rfl⟩ := pushed
      rw [runs.1] at isRan
      exact ((ends_pushStmts runs.2 isRan).sameCode (sameCode_leaveBlock context _ _ _)).sameCode
        (CodeStream.markSource_same _ _ _)
  | .branch span condition thenBranch none, frames, before, targets, scope, code, after, runs,
      pushed => by
      simp only [Runs] at runs
      obtain ⟨-, -, needed, isExit, -⟩ := runs
      cases isExit
  | .branch span condition thenBranch (some elseBranch), frames, before, targets, scope, code,
      after, runs, pushed => by
      simp only [Runs] at runs
      simp only [pushStmt, bind_eq_ok, pure_eq_ok] at pushed
      obtain ⟨tested, isTested, thenDone, isThenDone, done, isDone, rfl⟩ := pushed
      have ends := ends_pushStmt runs.2.2 isDone
      have placed : (done.place thenDone.nextLabel).Ends := ends
      exact placed.sameCode (CodeStream.markSource_same _ _ _)
  | .forEach span element collection none facts, frames, before, targets, scope, code, after, runs,
      pushed => by
      simp only [Runs] at runs
      obtain ⟨-, -, needed, isExit, -⟩ := runs
      cases isExit
  | .forEach span element collection (some action) facts, frames, before, targets, scope, code,
      after, runs, pushed => by
      simp only [Runs] at runs
      obtain ⟨-, ⟨needed, isExit, -⟩, -⟩ := runs
      cases isExit
  | .labeled span label body, frames, before, targets, scope, code, after, runs, pushed => by
      simp only [Runs] at runs
      simp only [pushStmt, bind_eq_ok, pure_eq_ok] at pushed
      obtain ⟨done, isDone, rfl⟩ := pushed
      have ends := ends_pushStmt runs isDone
      have placed : (done.place code.nextLabel).Ends := ends
      exact placed.sameCode (CodeStream.markSource_same _ _ _)
  | .breakTo span label, frames, before, targets, scope, code, after, runs, pushed
  | .continueTo span label, frames, before, targets, scope, code, after, runs, pushed => by
      simp only [pushStmt, bind_eq_ok, pure_eq_ok] at pushed
      obtain ⟨target, isTarget, rfl⟩ := pushed
      exact (CodeStream.ends_emit (by rfl)).sameCode (CodeStream.markSource_same _ _ _)
  | .returnWith span none, frames, before, targets, scope, code, after, runs, pushed => by
      simp only [pushStmt, Except.ok.injEq] at pushed
      subst pushed
      exact (CodeStream.ends_emit (by rfl)).sameCode (CodeStream.markSource_same _ _ _)
  | .returnWith span (some value), frames, before, targets, scope, code, after, runs, pushed => by
      simp only [pushStmt, pushReturn, bind_eq_ok, pure_eq_ok] at pushed
      obtain ⟨done, ⟨evaluated, isEvaluated, rfl⟩, rfl⟩ := pushed
      exact (CodeStream.ends_emit (by rfl)).sameCode (CodeStream.markSource_same _ _ _)
  | .empty span, frames, before, targets, scope, code, after, runs, pushed => by
      simp only [Runs] at runs
      obtain ⟨needed, isExit, -⟩ := runs
      cases isExit

theorem ends_pushStmts :
    ∀ {stmts : List Stmt} {frames : List JumpFrame} {before : VarSet}
        {targets : List JumpTarget} {scope : ScopeId} {code after : CodeStream},
      context.AllRun stmts frames before none →
      context.pushStmts stmts none targets scope code = .ok after →
      after.Ends
  | [], frames, before, targets, scope, code, after, runs, pushed => by
      simp only [AllRun] at runs
      obtain ⟨needed, isExit, -⟩ := runs
      cases isExit
  | stmt :: rest, frames, before, targets, scope, code, after, runs, pushed => by
      simp only [AllRun] at runs
      obtain ⟨middle, headRuns, ends, goesOn⟩ := runs
      obtain ⟨done, isDone, ran⟩ := (pushStmts_cons_eq_ok (by simp)).mp pushed
      cases middle with
      | none =>
          obtain rfl := ends rfl
          simp only [pushStmts, Except.ok.injEq] at ran
          exact ran ▸ ends_pushStmt headRuns isDone
      | some set =>
          exact ends_pushStmts (goesOn set rfl) ran

end

/-- The ledger that knows nothing and demands nothing. -/
def Ledger.blank
    (context : CodeContext) :
    context.Ledger where
  demand := fun _ _ => True
  knows := fun _ _ _ => True
  plain := fun _ => trivial
  carries := fun _ _ => trivial
  load := fun _ _ _ _ => trivial
  increment := fun _ _ _ _ _ => trivial
  store := fun _ _ _ => ⟨trivial, trivial⟩
  absent := fun _ _ _ => trivial
  weaken := fun _ _ _ _ => trivial
  enter := fun _ _ => trivial
  recount := fun _ _ => trivial

/-- Every loop suits the ledger that knows nothing and demands nothing. -/
theorem Ledger.suitsHead_blank
    {context : CodeContext}
    (head : LocalDecl × LoopFacts) :
    (Ledger.blank context).SuitsHead head where
  initial := fun _ => trivial
  index := by intros; exact trivial

end CodeContext

section Methods

variable
  {table : ClassTable}
  {options : CompilerOptions}
  {method : Method}
  {lowered : LoweredMethod}

/-- A method that is lowered without errors has the code that is generated
for it. -/
theorem exists_code_lowerMethod
    (isLowered : lowerMethod table options method = .ok lowered)
    (noErrors : lowered.hasErrors = false) :
    (analyzedMethod table options method).state.Clean ∧
      lowered.scope = (loweringContext table options method).scope ∧
      ∃ code, lowered.code = some code ∧
        (loweringContext table options method).methodCode
          (analyzedMethod table options method).node = .ok code := by
  cases generated : (loweringContext table options method).methodCode
      (analyzedMethod table options method).node with
  | ok code =>
      obtain rfl := Except.ok.inj (isLowered.symm.trans (lowerMethod_of_methodCode generated))
      exact ⟨noErrors, rfl, code, rfl, rfl⟩
  | error cause =>
      unfold loweringContext at generated
      simp only [lowerMethod, generated] at isLowered
      split at isLowered
      · next hasErrors =>
          obtain rfl := Except.ok.inj isLowered
          rw [LoweredMethod.hasErrors, hasErrors] at noErrors
          cases noErrors
      · cases isLowered

/-- The code of a method without errors refers to what there is, its last
instruction never goes on, and its branch targets are at most at its end. -/
theorem refers_methodCode
    {strict : Bool}
    {code : MethodCode}
    (tableSound : table.Sound strict)
    (allowed : method.isAllowed strict = true)
    (clean : (analyzedMethod table options method).state.Clean)
    (generated : (loweringContext table options method).methodCode
      (analyzedMethod table options method).node = .ok code) :
    (∀ instruction ∈ code.instructions, instruction.RefersTo
        (loweringContext table options method).scope code.labels.size) ∧
      (∃ last, code.instructions.back? = some last ∧ last.endsFlow = true) ∧
      (∀ offset ∈ code.labels, offset ≤ code.instructions.size) ∧
      code.maxLocals = (loweringContext table options method).scope.frameSize := by
  obtain ⟨-, runs⟩ := runs_body tableSound allowed clean
  obtain ⟨opened, ran, sameCode, isRan, finishes, frame⟩ :=
    exists_bodyCode tableSound allowed clean generated
  have labelCount : code.labels.size =
      ((loweringContext table options method).returned ran).labels.size := by
    have same := congrArg List.length finishes.labels
    simpa using same
  have resolved := (resolved_analyzedBody tableSound allowed clean).1
  obtain ⟨back, bodyWritten, -⟩ := CodeContext.exists_allTurnBack resolved runs (by simp) isRan
  have opens : CodeStream.Written (loweringContext table options method).scope .empty [] opened :=
    CodeStream.Written.refl.sameCode sameCode
  have written := opens.trans bodyWritten
  have complete : CodeStream.Appends [] .empty ran := ((CodeStream.Appends.refl _).sameCode
    sameCode).trans (CodeContext.appends_pushStmts _ _ _ _ _ isRan)
  have whole := (loweringContext table options method).appends_returned complete
  have returned := returned_loweringContext tableSound allowed clean ran
  refine ⟨?_, ?_, ?_, frame⟩
  · have whole : CodeStream.Written (loweringContext table options method).scope .empty ([] ++ back)
        ((loweringContext table options method).returned ran) := by
      rw [returned]
      split
      · exact written.emit (by trivial) rfl
      · exact written
    rw [finishes.instructions, labelCount]
    exact whole.refers fun instruction member => by simp [CodeStream.empty] at member
  · have ends : ((loweringContext table options method).returned ran).Ends := by
      rw [returned]
      split
      · exact CodeStream.ends_emit rfl
      · next unreached =>
          simp only [FlowExit.after, unreached, Bool.false_eq_true, if_false] at runs
          exact CodeContext.ends_pushStmts runs isRan
    rw [finishes.instructions]
    exact ends
  · intro offset member
    obtain ⟨label, inLabels, isOffset⟩ := Array.mem_iff_getElem.mp member
    have isAt : code.labelPosition? label = some offset :=
      Array.getElem?_eq_some_iff.mpr ⟨inLabels, isOffset⟩
    rw [finishes.labelPosition?_eq] at isAt
    rcases whole.isPlaced label (Nat.zero_le _) (CodeStream.lt_size_of_offset? isAt) with
      isOpen | ⟨found, isFound, -, inside⟩
    · cases isOpen
    · rw [CodeStream.offset?, isFound] at isAt
      obtain rfl := Option.some.inj isAt
      rw [finishes.instructions]
      exact inside

/-- The code of a method without errors is closed: every branch target is placed
in the code or at its end, the last instruction is a jump or a return, and no
execution leaves the code but by returning. -/
theorem isClosed_lowerMethod
    {unit : CompilationUnit}
    (declared : ClassTable.ofUnit unit = .ok table)
    (isLowered : lowerMethod table options method = .ok lowered)
    (noErrors : lowered.hasErrors = false) :
    ∃ code, lowered.code = some code ∧
      (∀ instruction ∈ code.instructions, ∀ label, instruction.target? = some label →
        ∃ offset, code.labelPosition? label = some offset ∧
          offset ≤ code.instructions.size) ∧
      (∃ last, code.instructions.back? = some last ∧ last.endsFlow = true) ∧
      ∀ trail offset, code.Reaches trail offset → offset < code.instructions.size := by
  have tableSound := ClassTable.ofUnit_sound unit.isAllowed_lenient declared
  obtain ⟨clean, -, code, isCode, generated⟩ := exists_code_lowerMethod isLowered noErrors
  obtain ⟨refers, ends, placed, -⟩ :=
    refers_methodCode tableSound method.isAllowed_lenient clean generated
  refine ⟨code, isCode, ?_, ends, ?_⟩
  · intro instruction member label isTarget
    have made := (refers instruction member).made isTarget
    exact ⟨code.labels[label], Array.getElem?_eq_getElem made, placed _ (Array.getElem_mem made)⟩
  · intro trail offset reaches
    have safe := safe_methodCode tableSound method.isAllowed_lenient clean (.blank _)
      (fun head _ => CodeContext.Ledger.suitsHead_blank head) trivial generated
    obtain ⟨instruction, fetched, -⟩ := reaches.safe safe 1
    exact (Array.getElem?_eq_some_iff.mp fetched).1

end Methods

/-- A method whose inner and outer conditional both leave by returning. -/
def Method.returnsFromBranches :
    Method where
  name := ⟨"m", .absent⟩
  typeParams := []
  params := [⟨⟨"a", .absent⟩, .named .absent "boolean", false, none⟩,
    ⟨⟨"b", .absent⟩, .named .absent "boolean", false, none⟩]
  returnType := none
  body := {
    span := .absent
    stmts := [.branch .absent (.name .absent (.unbound "a"))
      (.branch .absent (.name .absent (.unbound "b")) (.returnWith .absent none)
        (some (.returnWith .absent none)))
      (some (.returnWith .absent none))]
    facts := .initial
  }

/-- Code that is closed may still have a branch to its end, to which no execution
comes. -/
theorem returnsFromBranches_isClosed :
    ∃ lowered, ClassTable.ofUnit ⟨"Main", none, [], [], []⟩ = .ok .builtin ∧
      lowerMethod .builtin .standard .returnsFromBranches = .ok lowered ∧
      lowered.hasErrors = false ∧
      ∃ code, lowered.code = some code ∧
        (∃ instruction ∈ code.instructions, ∃ label, instruction.target? = some label ∧
          code.labelPosition? label = some code.instructions.size) ∧
        ∀ trail offset, code.Reaches trail offset → offset < code.instructions.size := by
  have declared : ClassTable.ofUnit ⟨"Main", none, [], [], []⟩ = .ok .builtin := rfl
  have evaluated : (lowerMethod .builtin .standard .returnsFromBranches).toOption.any
      (fun lowered => !lowered.hasErrors && lowered.code.any fun code =>
        code.instructions.any fun instruction => instruction.target?.any fun label =>
          code.labelPosition? label == some code.instructions.size) = true := by
    decide +kernel
  cases isLowered : lowerMethod .builtin .standard .returnsFromBranches with
  | error cause =>
      rw [isLowered] at evaluated
      cases evaluated
  | ok lowered =>
      simp only [isLowered, Except.toOption, Option.any_some, Bool.and_eq_true,
        Bool.not_eq_true'] at evaluated
      obtain ⟨noErrors, branches⟩ := evaluated
      obtain ⟨code, isCode, -, -, stays⟩ := isClosed_lowerMethod declared isLowered noErrors
      simp only [isCode, Option.any_some, Array.any_eq_true', Option.any_eq_true,
        beq_iff_eq] at branches
      exact ⟨lowered, declared, rfl, noErrors, code, isCode, branches, stays⟩

/-!
## Branches back in methods

A branch leads back if its target is not after it. Which branches of a stream do does
not change when code is written after it, because what is placed later is placed
behind. So the code of a method has one branch back for each loop that comes back for
another element.
-/

namespace CodeStream

/-- The target of an instruction, if it is placed and not after the instruction. -/
def backLabelAt?
    (code : CodeStream)
    (offset : Nat)
    (instruction : Instruction) :
    Option Label := do
  let label ← instruction.target?
  let target ← code.offset? label
  if target ≤ offset then some label else none

/-- The targets of the branches that lead back, in order. -/
def backLabels
    (code : CodeStream) :
    List Label :=
  code.instructions.toList.zipIdx.filterMap
    (fun entry => code.backLabelAt? entry.2 entry.1)

variable
  {before code after : CodeStream}

/-- An instruction that is emitted leads back by itself only. -/
theorem backLabels_emit
    (instruction : Instruction)
    (code : CodeStream) :
    (code.emit instruction).backLabels =
      code.backLabels ++ (code.backLabelAt? code.position instruction).toList := by
  have last : ∀ found : Option Label,
      [(instruction, code.position)].filterMap (fun _ => found) = found.toList := by
    intro found
    cases found <;> rfl
  have appended : (code.emit instruction).instructions.toList.zipIdx =
      code.instructions.toList.zipIdx ++ [(instruction, code.position)] := by
    simp [emit, position, List.zipIdx_append]
  rw [backLabels, appended, List.filterMap_append, ← last]
  rfl

/-- What leads back is the same where every branch target of an instruction is placed
before it or not. -/
theorem backLabels_congr
    (sameInstructions : after.instructions = before.instructions)
    (sameTargets : ∀ (instruction : Instruction), ∀ offset < before.position,
      after.backLabelAt? offset instruction = before.backLabelAt? offset instruction) :
    after.backLabels = before.backLabels := by
  simp only [backLabels, sameInstructions]
  refine List.filterMap_congr fun entry member => sameTargets entry.1 entry.2 ?_
  simpa [position] using (List.mem_zipIdx' member).1

/-- A target that is placed at the end of the code is not before any instruction. -/
theorem backLabels_place
    {label : Label}
    (isOpen : code.IsOpen label) :
    (code.place label).backLabels = code.backLabels := by
  refine backLabels_congr rfl fun instruction offset inCode => ?_
  cases isTarget : instruction.target? with
  | none =>
      simp [backLabelAt?, isTarget]
  | some target =>
      by_cases same : label = target
      · subst same
        have made := (Array.getElem?_eq_some_iff.mp isOpen).1
        have isAfter : ¬ code.position ≤ offset := Nat.not_le_of_lt inCode
        simp [backLabelAt?, isTarget, isOpen.offset?, offset?_place made, isAfter]
      · have elsewhere : (code.place label).offset? target = code.offset? target := by
          rw [offset?, labels_place same, offset?]
        simp [backLabelAt?, isTarget, elsewhere]

/-- What is written leads back to the targets that are listed. -/
theorem Written.backLabels_eq
    {scope : MethodScope}
    {back : List Label}
    (written : Written scope before back after) :
    after.backLabels = before.backLabels ++ back := by
  induction written with
  | refl =>
      rw [List.append_nil]
  | emit _ _ noTarget inductionHypothesis =>
      rw [backLabels_emit, inductionHypothesis]
      simp [backLabelAt?, noTarget]
  | branch _ isOpen isTarget inductionHypothesis =>
      rw [backLabels_emit, inductionHypothesis]
      simp [backLabelAt?, isTarget, isOpen.offset?]
  | turn _ isPlaced isBefore isTarget inductionHypothesis =>
      rw [backLabels_emit, inductionHypothesis]
      simp [backLabelAt?, isTarget, isPlaced, isBefore]
  | addLabel _ inductionHypothesis =>
      rw [← inductionHypothesis]
      refine backLabels_congr rfl fun instruction offset _ => ?_
      simp only [backLabelAt?, offset?_addLabel]
  | place _ isOpen inductionHypothesis =>
      rw [backLabels_place isOpen, inductionHypothesis]
  | sameCode _ same inductionHypothesis =>
      rw [← inductionHypothesis]
      refine backLabels_congr same.1 fun instruction offset _ => ?_
      simp only [backLabelAt?, offset?, same.2]

end CodeStream

/-- The branches back of a method are those of the stream that it is made of. -/
theorem MethodCode.Finishes.backEdges_eq
    {code : MethodCode}
    {stream : CodeStream}
    (finishes : code.Finishes stream) :
    code.backEdges.map Prod.snd = stream.backLabels := by
  simp only [MethodCode.backEdges, CodeStream.backLabels, finishes.instructions,
    List.map_filterMap]
  refine List.filterMap_congr fun entry _ => ?_
  simp only [MethodCode.backEdgeAt?, CodeStream.backLabelAt?, finishes.labelPosition?_eq]
  cases isTarget : entry.1.target? with
  | none => rfl
  | some label =>
      cases isPlaced : stream.offset? label with
      | none => simp [isPlaced]
      | some offset =>
          by_cases isBefore : offset ≤ entry.2 <;> simp [isPlaced, isBefore]

section Methods

variable
  {table : ClassTable}
  {options : CompilerOptions}
  {method : Method}
  {lowered : LoweredMethod}

/-- The branches back of a method without errors are those of its loops that come back. -/
theorem exists_loopTurns
    {strict : Bool}
    {code : MethodCode}
    (tableSound : table.Sound strict)
    (allowed : method.isAllowed strict = true)
    (clean : (analyzedMethod table options method).state.Clean)
    (generated : (loweringContext table options method).methodCode
      (analyzedMethod table options method).node = .ok code) :
    ∃ opened, (loweringContext table options method).openParams
        (analyzedMethod table options method).node.params .empty = .ok opened ∧
      (code.backEdges.map Prod.snd).Nodup ∧
      (code.backEdges.map Prod.snd).map some =
        (Stmt.allPathsTo (loweringContext table options method).comesBack
          (method.analyzedBody table options).nodes).map
            ((loweringContext table options method).actionAmong? [] MethodScope.root
              (method.analyzedBody table options).nodes none opened) := by
  obtain ⟨-, runs⟩ := runs_body tableSound allowed clean
  have resolved := (resolved_analyzedBody tableSound allowed clean).1
  obtain ⟨opened, ran, isOpened, sameCode, isRan, finishes, -⟩ :=
    exists_openedBody tableSound allowed clean generated
  obtain ⟨back, written, makes, actions⟩ :=
    CodeContext.exists_allTurnBack resolved runs (by simp) isRan
  have begins : CodeStream.Written (loweringContext table options method).scope .empty [] opened :=
    CodeStream.Written.refl.sameCode sameCode
  have whole : CodeStream.Written (loweringContext table options method).scope .empty ([] ++ back)
      ((loweringContext table options method).returned ran) := by
    rw [returned_loweringContext tableSound allowed clean]
    split
    · exact (begins.trans written).emit (by trivial) rfl
    · exact begins.trans written
  have isBack : code.backEdges.map Prod.snd = back :=
    finishes.backEdges_eq.trans whole.backLabels_eq
  rw [isBack]
  exact ⟨opened, isOpened, makes.nodup, actions⟩

/-- A method without errors branches back exactly once for each of its loops that
continues and does something: to the branch target of the action of that loop. A method
whose loops never continue does not branch back at all. -/
theorem backEdges_lowerMethod
    {unit : CompilationUnit}
    (declared : ClassTable.ofUnit unit = .ok table)
    (isLowered : lowerMethod table options method = .ok lowered)
    (noErrors : lowered.hasErrors = false) :
    ∃ code opened, lowered.code = some code ∧
      (loweringContext table options method).openParams lowered.method.params .empty =
        .ok opened ∧
      (∃ loops : List (Nat × List TreeStep), loops.Nodup ∧
        (∀ item path, (item, path) ∈ loops ↔
          ∃ part, lowered.method.partAt? item path = some part ∧
            (loweringContext table options method).comesBack part = true) ∧
        code.backEdges.map (fun edge => some edge.2) = loops.map (fun loop =>
          ((loweringContext table options method).methodSite? lowered.method opened loop.1
            loop.2).bind (loweringContext table options method).actionLabel?)) ∧
      (code.backEdges.map Prod.snd).Nodup ∧
      ((∀ item path span element collection action facts,
          lowered.method.partAt? item path =
              some (.forEach span element collection action facts) →
            facts.continues = false) →
        code.backEdges = []) := by
  have tableSound := ClassTable.ofUnit_sound unit.isAllowed_lenient declared
  obtain ⟨clean, -, code, isCode, generated⟩ := exists_code_lowerMethod isLowered noErrors
  obtain ⟨opened, isOpened, nodup, actions⟩ :=
    exists_loopTurns tableSound method.isAllowed_lenient clean generated
  have reachesAll := (runs_body tableSound method.isAllowed_lenient clean).1
  rw [method_lowerMethod isLowered]
  have isMember : ∀ item path,
      (item, path) ∈ Stmt.allPathsTo (loweringContext table options method).comesBack
          (method.analyzedBody table options).nodes ↔
        ∃ part, (analyzedMethod table options method).node.partAt? item path = some part ∧
          (loweringContext table options method).comesBack part = true :=
    fun item path => Stmt.mem_allPathsTo
  refine ⟨code, opened, isCode, isOpened, ⟨_, Stmt.nodup_allPathsTo _ _, isMember, ?_⟩, nodup,
    fun neverContinues => ?_⟩
  · rw [List.map_map] at actions
    refine actions.trans (List.map_congr_left fun loop _ => ?_)
    have isBody : (analyzedMethod table options method).node.body.facts.unreachableFrom = none :=
      reachesAll
    rw [CodeContext.methodSite?, isBody, Option.bind_assoc]
    rfl
  · have noLoops : Stmt.allPathsTo (loweringContext table options method).comesBack
        (method.analyzedBody table options).nodes = [] := by
      refine List.eq_nil_iff_forall_not_mem.mpr fun loop member => ?_
      obtain ⟨part, isPart, comesBack⟩ := (isMember loop.1 loop.2).mp member
      cases part with
      | forEach span element collection action facts =>
          simp [CodeContext.comesBack, neverContinues _ _ _ _ _ _ _ isPart] at comesBack
      | _ =>
          cases comesBack
    rw [noLoops] at actions
    simpa using actions

end Methods

/-- A method with a loop that leaves the loop around it, and a loop that does nothing. -/
def Method.breaksOut :
    Method where
  name := ⟨"m", .absent⟩
  typeParams := []
  params := [⟨⟨"xs", .absent⟩, .array .absent (.named .absent "int"), false, none⟩]
  returnType := none
  body := {
    span := .absent
    stmts := [
      .forEach .absent ⟨⟨"x", .absent⟩, .named .absent "int", none, false, none⟩
        (.name .absent (.unbound "xs"))
        (some (.forEach .absent ⟨⟨"y", .absent⟩, .named .absent "int", none, false, none⟩
          (.name .absent (.unbound "xs")) (some (.breakTo .absent none)) .initial)) .initial,
      .forEach .absent ⟨⟨"z", .absent⟩, .named .absent "int", none, false, none⟩
        (.name .absent (.unbound "xs")) none .initial]
    facts := .initial
  }

/-- Of a loop, the loop in it that is left at once, and a loop that does nothing, only
the first branches back. -/
theorem breaksOut_backEdges :
    ∃ lowered code, ClassTable.ofUnit ⟨"Main", none, [], [], []⟩ = .ok .builtin ∧
      lowerMethod .builtin .standard .breaksOut = .ok lowered ∧
      lowered.hasErrors = false ∧ lowered.code = some code ∧
      ∃ loops : List (Nat × List TreeStep), (∀ loop, loop ∈ loops ↔ loop = (0, [])) ∧
        code.backEdges.length = loops.length ∧ code.backEdges.length = 1 := by
  have declared : ClassTable.ofUnit ⟨"Main", none, [], [], []⟩ = .ok .builtin := rfl
  have evaluated : (lowerMethod .builtin .standard .breaksOut).toOption.any (fun lowered =>
      !lowered.hasErrors && lowered.code.any (fun code => code.backEdges.length == 1) &&
        (lowered.method.partAt? 0 []).any
          (loweringContext .builtin .standard .breaksOut).comesBack) = true := by
    decide +kernel
  cases isLowered : lowerMethod .builtin .standard .breaksOut with
  | error cause =>
      rw [isLowered] at evaluated
      cases evaluated
  | ok lowered =>
      simp only [isLowered, Except.toOption, Option.any_some, Bool.and_eq_true,
        Bool.not_eq_true', Option.any_eq_true] at evaluated
      obtain ⟨⟨noErrors, found, isFound, branches⟩, part, isPart, comesBack⟩ := evaluated
      obtain ⟨code, opened, isCode, -, ⟨loops, nodup, isMember, actions⟩, -, -⟩ :=
        backEdges_lowerMethod declared isLowered noErrors
      obtain rfl := Option.some.inj (isFound.symm.trans isCode)
      have one : found.backEdges.length = 1 := eq_of_beq branches
      have same : found.backEdges.length = loops.length := by
        simpa using congrArg List.length actions
      have member := (isMember 0 []).mpr ⟨part, isPart, comesBack⟩
      obtain ⟨loop, rfl⟩ := List.length_eq_one_iff.mp (same.symm.trans one)
      rw [List.mem_singleton.mp member]
      exact ⟨lowered, found, declared, rfl, noErrors, isCode, [loop], by simp, same, one⟩

end LoopLowering
