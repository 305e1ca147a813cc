import LoopLowering.Proofs.Execution.Endings
import LoopLowering.Proofs.Execution.ExpressionRuns
import LoopLowering.Proofs.Execution.Loops

namespace LoopLowering

/-!
# Conditions, declarations and returns

A condition that is branched on decides as its tree does. A declaration gives its
local a value, if it has an initial one, and a return returns the value that its tree
does.
-/

namespace CodeContext

variable
  {strict : Bool}
  {context : CodeContext}
  {code : MethodCode}
  {outside : Outside}
  {rounds : Nat}
  {place : Place}
  {first : Nat}
  {kept : Nat → Option Word}
  {set : VarSet}
  {stream next : CodeStream}
  {stack : List Word}
  {frames : List JumpFrame}
  {targets : List JumpTarget}
  {state : TreeState}
  {machine : Machine}

/-- A condition that is pushed is tested for being true or false. -/
theorem decides_branchOnValue
    {condition : Expr}
    {ty : Ty}
    {later : VarSet}
    (isType : context.exprType condition = ty)
    (isWord : ty.isWord = true)
    (isPrimitive : ty.isPrimitive = true)
    (computes : context.Computes code outside place kept (context.pushExpr condition true) set later
      (context.Yields outside condition ty true))
    {branchIf : Bool}
    {label : Label}
    (branched : context.branchOnValue condition branchIf label stream = .ok next)
    (stands : context.Stands place set kept stack state machine) :
    ∃ truth final, context.Evaluates outside state condition (.word (.int truth)) final ∧
      code.Decides outside stream machine next label ((truth != 0) == branchIf)
        (context.Stands place later kept stack final) := by
  have becomes : ty.becomes .boolean = true := by simp [Ty.becomes, isPrimitive, Ty.boolean]; rfl
  have isInt : ValueKind.ofTy ty = .int := by rw [Ty.ofTy_of_isWord isWord, if_pos isPrimitive]
  simp only [branchOnValue, bind_eq_ok, pure_eq_ok, isType,
    Ty.convertAssigned_of_becomes isWord (show Ty.boolean.isWord = true from rfl) becomes]
    at branched
  obtain ⟨pushed, isPushed, rfl⟩ := branched
  obtain ⟨word, final, evaluates, isKind, brings⟩ := computes.exists_word
    (by rintro rfl; cases isPrimitive) isPushed stands
  obtain ⟨truth, rfl⟩ := Word.exists_int (isKind.trans isInt)
  refine ⟨truth, final, evaluates, brings.branch rfl (fun _ => rfl) ?_⟩
  cases branchIf <;> cases same : truth == 0 <;>
    simp [Instruction.jumps, Condition.holds, bne, same]

/-- A condition that is branched on decides as its tree does. -/
theorem decides_branchOn
    (code : MethodCode)
    (outside : Outside)
    (executable : context.Executable strict)
    (counted : place.count ≤ context.scope.locals.size)
    {condition : Expr}
    {ty : Ty}
    (typed : context.HasType strict place condition ty)
    (isPrimitive : (context.exprType condition).isPrimitive = true)
    (unboxed : context.Unboxed condition = true)
    (unreserved : condition.isUnreserved = true)
    (reads : condition.ReadsAssigned set)
    {branchIf : Bool}
    {label : Label}
    (branched : context.branchOn condition branchIf label stream = .ok next)
    (stands : context.Stands place set kept stack state machine) :
    ∃ truth final, context.Evaluates outside state condition (.word (.int truth)) final ∧
      code.Decides outside stream machine next label ((truth != 0) == branchIf)
        (context.Stands place (condition.definite set) kept stack final) := by
  have isType := typed.exprType executable.words
  have byValue : context.branchOnValue condition branchIf label stream = .ok next →
      ∃ truth final, context.Evaluates outside state condition (.word (.int truth)) final ∧
        code.Decides outside stream machine next label ((truth != 0) == branchIf)
          (context.Stands place (condition.definite set) kept stack final) := fun valued =>
    decides_branchOnValue isType
      (typed.isWord executable.sound counted executable.words unboxed) (isType ▸ isPrimitive)
      (computes_pushExpr executable counted true typed unboxed unreserved reads) valued stands
  cases condition with
  | boolLit span value =>
      simp only [branchOn, Except.ok.injEq] at branched
      subst branched
      refine ⟨if value then 1 else 0, state, .boolLit, ?_⟩
      have begins : code.Brings outside stream machine stream
          (context.Stands place set kept stack state) := .refl stands stream
      split
      · next branches =>
          subst branches
          refine begins.branch rfl (fun _ => rfl) ?_
          cases value <;> rfl
      · next goesOn =>
          have stays : (((if value then 1 else 0 : Int32) != 0) == branchIf) = false := by
            cases value <;> cases branchIf <;> first | rfl | exact absurd rfl goesOn
          rw [stays]
          exact .ofBrings begins label
  | binary span op left right =>
      simp only [branchOn] at branched
      split at branched
      · rw [HasType] at typed
        obtain ⟨leftTy, rightTy, leftTyped, rightTyped, found⟩ := typed
        simp only [Unboxed, Bool.and_eq_true] at unboxed
        simp only [Expr.isUnreserved_binary, Bool.and_eq_true] at unreserved
        simp only [Expr.ReadsAssigned] at reads
        have applies := BinOp.appliesToWords_of_resultType?
          (leftTyped.isResult executable.sound counted).ne_unknown
          (rightTyped.isResult executable.sound counted).ne_unknown
          (leftTyped.isWord executable.sound counted executable.words unboxed.1)
          (rightTyped.isWord executable.sound counted executable.words unboxed.2) found
        obtain ⟨first, second, between, final, truth, leftEvaluates, rightEvaluates, isResult,
          decides⟩ := decides_branchOnComparison
            (computes_pushExpr executable counted true leftTyped unboxed.1 unreserved.1 reads.1)
            (computes_pushExpr executable counted true rightTyped unboxed.2 unreserved.2 reads.2)
            (leftTyped.exprType executable.words) (rightTyped.exprType executable.words) applies
            branched stands
        refine ⟨if truth then 1 else 0, final, .binary leftEvaluates rightEvaluates isResult, ?_⟩
        cases truth <;> exact decides
      · exact byValue branched
  | _ =>
      exact byValue branched

/-- A machine stands after a declaration without an initial value. -/
theorem Stands.declare
    {block : Nat}
    (stands : context.Stands ⟨block, first⟩ set kept stack state machine) :
    context.Stands ⟨block, first + 1⟩ set kept stack (state.forget first) machine := by
  refine ⟨(stands.holds.later (Nat.le_succ first)).congr fun id member => ?_, stands.operands,
    stands.memory⟩
  have different : id ≠ first := Nat.ne_of_lt (stands.holds id member).1
  simp [valuesWith, TreeState.forget, different]

/-- A declaration gives its local a value, if it has an initial one. -/
theorem brings_pushDeclaration
    (code : MethodCode)
    (outside : Outside)
    (rounds : Nat)
    (executable : context.Executable strict)
    (span : Span)
    {decl : LocalDecl}
    {block : Nat}
    (binding : decl.binding = some first)
    (declares : context.Declares block first)
    (gives : ∀ value, decl.initial = some value →
      context.Gives strict ⟨block, first + 1⟩ value (context.localAt first).type)
    (unboxed : context.UnboxedDecl decl = true)
    (unreserved : decl.isUnreserved = true)
    (reads : decl.ReadsAssigned set)
    (pushed : context.pushDeclaration decl stream = .ok next)
    (stands : context.Stands ⟨block, first⟩ set kept stack state machine)
    (label : Option String) :
    ∃ final,
      context.Executes outside rounds state label (.localVar span decl) .completes final ∧
      code.Brings outside stream machine next
        (context.Stands ⟨block, first + 1⟩ (decl.definite set) kept stack final) := by
  cases initial : decl.initial with
  | none =>
      simp only [pushDeclaration, initial, Except.ok.injEq] at pushed
      subst pushed
      simp only [LocalDecl.definite, initial]
      exact ⟨_, .declare binding initial, .refl stands.declare stream⟩
  | some value =>
      obtain ⟨ty, typed, converts⟩ := gives value initial
      have counted : first + 1 ≤ context.scope.locals.size := declares.known
      have isValue := executable.sound.locals first declares.known
      have sees : context.scope.Sees block (first + 1) first := by
        refine ⟨Nat.lt_succ_self first, ?_⟩
        rw [show (context.scope.localAt first).scope = block from declares.home]
        exact executable.sound.wellFormed.mem_enclosing_self block
      have isType := typed.exprType executable.words
      simp only [UnboxedDecl, initial, binding, boundType, isType, Bool.and_eq_true] at unboxed
      simp only [LocalDecl.isUnreserved, initial, Option.all_some, Bool.and_eq_true] at unreserved
      simp only [pushDeclaration, initial, binding] at pushed
      simp only [LocalDecl.definite, initial, binding, VarSet.insertBinding]
      have declared : context.Stands ⟨block, first + 1⟩ set kept stack state machine :=
        ⟨stands.holds.later (Nat.le_succ first), stands.operands, stands.memory⟩
      obtain ⟨words, final, ⟨assigned, between, evaluates, leaves, rfl⟩, brings⟩ :=
        computes_assignSimple executable declares.isSource sees isValue
          (executable.words.locals first declares.known) isType
          (typed.isWord executable.sound counted executable.words unboxed.2) unboxed.1
          (ne_void_of_converts isValue converts)
          (fun wanted => computes_pushExpr executable counted wanted typed unboxed.2 unreserved.2
            (reads value initial))
          false pushed declared
      obtain rfl := leaves.eq_nil
      exact ⟨_, .declareValue binding initial evaluates, brings⟩

/-- A return of a value returns the value that its tree does. -/
theorem exists_returned
    (outside : Outside)
    (rounds : Nat)
    (executable : context.Executable strict)
    (counted : place.count ≤ context.scope.locals.size)
    (span : Span)
    {value : Expr}
    {ty : Ty}
    (typed : context.HasType strict place value ty)
    (hasResult : context.state.returnType ≠ .void)
    (converts : context.table.converts ty context.state.returnType = true)
    (becomes : ty.becomes context.state.returnType = true)
    (unboxed : context.Unboxed value = true)
    (unreserved : value.isUnreserved = true)
    (reads : value.ReadsAssigned set)
    (pushed : context.pushReturn value stream = .ok next)
    (completes : code.Completes next)
    (stands : context.Stands place set kept stack state machine)
    (label : Option String) :
    ∃ word final last,
      context.Executes outside rounds state label (.returnWith span (some value))
        (.returns (some word)) final ∧
      code.Goes outside (stream.position, machine) last ∧
      code.returned? last = some (some word) ∧ last.2.memory = final.memory := by
  have isValue := executable.result.resolve_left hasResult
  have isWord := typed.isWord executable.sound counted executable.words unboxed
  simp only [pushReturn, bind_eq_ok, pure_eq_ok, typed.exprType executable.words,
    Ty.convertAssigned_of_becomes isWord executable.words.result becomes] at pushed
  obtain ⟨valued, isPushed, rfl⟩ := pushed
  obtain ⟨word, final, evaluates, isKind, at_, isThere, crosses⟩ :=
    Computes.exists_word
      (computes_pushExpr executable counted true typed unboxed unreserved reads)
      (ne_void_of_converts isValue converts) isPushed stands
  obtain ⟨slots, rfl, -⟩ := isThere.exists_slots
  have sameKind := isKind.trans (Ty.ofTy_of_becomes isWord executable.words.result becomes)
  refine ⟨word, final, _, .returnValue evaluates,
    crosses.goes (completes.earlier (CodeStream.extends_emit _ _)), ?_, rfl⟩
  simp [MethodCode.returned?, completes.fetched, Instruction.returned?, sameKind]

end CodeContext

/-!
## Runs of statements

The code of a statement that runs does what its tree does: it makes the same calls on the
same memory, and it ends where the tree does, with the values of the tree in the slots of the
locals.
-/

/-- The statement directly inside a label stands directly after it if it is a loop. -/
theorem JumpTarget.loopLabel?_label
    (name : String)
    (onBreak : Label)
    (labelsLoop : Bool)
    (targets : List JumpTarget) :
    loopLabel? (.label name onBreak labelsLoop :: targets) =
      if labelsLoop then some name else none := by
  cases labelsLoop <;> rfl

namespace CodeContext

variable
  {context : CodeContext}
  {code : MethodCode}
  {outside : Outside}
  {rounds : Nat}

/-- A branch target is placed in the code. -/
def IsPlacedIn
    (code : MethodCode)
    (_ : FlowExit)
    (label : Label) :
    Prop :=
  ∃ offset, code.labelPosition? label = some offset

/-- Code that is crossed completes a statement. -/
theorem Arrives.ofBrings
    {place : Place}
    {first : Nat}
    {set : VarSet}
    {kept : Nat → Option Word}
    {stack : List Word}
    {frames : List JumpFrame}
    {targets : List JumpTarget}
    {stream next : CodeStream}
    {after : FlowExit}
    {state : TreeState}
    {machine : Machine}
    (brings : code.Brings outside stream machine next (context.Stands place set kept stack state))
    (admits : after.Admits set)
    (goesOn : stream.isTerminated = false)
    (completes : code.Completes next) :
    context.Arrives code outside rounds (stream.position, machine) place first kept stack frames
      targets next after .completes state := by
  obtain ⟨at_, isThere, crosses⟩ := brings
  exact .completes (crosses.goesOn goesOn) (.ofAdmits admits isThere) (crosses.goes completes)

/-- Where a statement has completed, its code has ended. -/
theorem Arrives.exists_completed
    {start : Configuration}
    {place : Place}
    {first : Nat}
    {kept : Nat → Option Word}
    {stack : List Word}
    {frames : List JumpFrame}
    {targets : List JumpTarget}
    {next : CodeStream}
    {after : FlowExit}
    {state : TreeState}
    (arrives : context.Arrives code outside rounds start place first kept stack frames targets next
      after .completes state) :
    next.isTerminated = false ∧
      ∃ machine, context.StandsAt place after first kept stack state machine ∧
        code.Goes outside start (next.position, machine) := by
  cases arrives with
  | completes goesOn stands goes =>
      exact ⟨goesOn, _, stands, goes⟩
  | jumps takes =>
      exact takes.elim

mutual

/-- The code of a statement that is resolved and runs does what the tree does. -/
theorem arrives_pushStmt
    (outside : Outside)
    (rounds : Nat)
    (executable : context.Executable false) :
    ∀ {stmt : Stmt} {block first : Nat} {frames : List JumpFrame} {targets : List JumpTarget}
        {before : VarSet} {after : FlowExit} {scope : ScopeId} {stream next : CodeStream}
        {label : Option String} {kept : Nat → Option Word} {stack : List Word} {state : TreeState}
        {machine : Machine},
      context.Resolved false stmt block first →
      first + stmt.localCount ≤ context.scope.locals.size →
      context.Runs stmt frames before after →
      context.UnboxedStmt stmt = true →
      stmt.isUnreserved = true →
      (∀ head ∈ stmt.heads, context.PlainHead head) →
      context.pushStmt stmt targets scope stream = .ok next →
      code.Completes next →
      stream.isTerminated = false →
      JumpFrame.Matches (IsPlacedIn code) frames targets →
      JumpTarget.loopLabel? targets = (if stmt.isLoop then label else none) →
      context.Stands ⟨block, first⟩ before kept stack state machine →
      ∃ ending final,
        context.Executes outside rounds state label stmt ending final ∧
        context.Arrives code outside rounds (stream.position, machine)
          ⟨block, first + stmt.localCount⟩ first kept stack frames targets next after ending final
  | .localVar span decl, block, first, frames, targets, before, after, scope, stream, next, label,
      kept, stack, state, machine, resolved, counted, runs, unboxed, unreserved, plain, pushed,
      completes, goesOn, matches_, labels, stands => by
      simp only [Resolved] at resolved
      simp only [Runs] at runs
      simp only [UnboxedStmt] at unboxed
      simp only [Stmt.isUnreserved_localVar] at unreserved
      simp only [pushStmt, bind_eq_ok, pure_eq_ok] at pushed
      obtain ⟨done, isDone, rfl⟩ := pushed
      obtain ⟨binding, declares, gives⟩ := resolved
      have same := CodeStream.markSource_same stream.position span done
      obtain ⟨final, executes, brings⟩ := brings_pushDeclaration code outside rounds executable span
        binding declares gives unboxed unreserved runs.1 isDone stands label
      exact ⟨.completes, final, executes,
        (Arrives.ofBrings brings runs.2 goesOn (completes.ofSameCode same)).sameCode same⟩
  | .expr span value, block, first, frames, targets, before, after, scope, stream, next, label,
      kept, stack, state, machine, resolved, counted, runs, unboxed, unreserved, plain, pushed,
      completes, goesOn, matches_, labels, stands => by
      simp only [Resolved] at resolved
      simp only [Runs] at runs
      simp only [UnboxedStmt] at unboxed
      simp only [Stmt.isUnreserved_expr] at unreserved
      simp only [pushStmt, bind_eq_ok, pure_eq_ok] at pushed
      obtain ⟨done, isDone, rfl⟩ := pushed
      obtain ⟨ty, typed⟩ := resolved
      have same := CodeStream.markSource_same stream.position span done
      obtain ⟨words, final, ⟨value_, evaluates, leaves⟩, brings⟩ :=
        computes_pushExpr executable counted false typed unboxed unreserved runs.1 isDone stands
      obtain rfl := leaves.eq_nil
      exact ⟨.completes, final, .expr evaluates,
        (Arrives.ofBrings brings runs.2 goesOn (completes.ofSameCode same)).sameCode same⟩
  | .block span stmts facts, block, first, frames, targets, before, after, scope, stream, next,
      label, kept, stack, state, machine, resolved, counted, runs, unboxed, unreserved, plain,
      pushed, completes, goesOn, matches_, labels, stands => by
      rw [Resolved] at resolved
      obtain ⟨inner, isScope, opens, resolvedBody⟩ := resolved
      have wellFormed := executable.sound.wellFormed
      have around : block ∈ context.scope.enclosing inner := by
        rw [wellFormed.enclosing_eq inner, opens.parent]
        exact List.mem_cons_of_mem _ (wellFormed.mem_enclosing_self block)
      simp only [Runs] at runs
      simp only [UnboxedStmt] at unboxed
      simp only [Stmt.isUnreserved_block] at unreserved
      simp only [Stmt.localCount] at counted
      simp only [Stmt.heads] at plain
      simp only [pushStmt, bind_eq_ok, pure_eq_ok, isScope, Option.getD_some, runs.1] at pushed
      obtain ⟨ran, isRan, rfl⟩ := pushed
      have same := CodeStream.SameCode.trans (sameCode_leaveBlock context inner scope ran)
        (CodeStream.markSource_same stream.position span _)
      obtain ⟨ending, final, executes, arrives⟩ := arrives_pushStmts outside rounds executable
        resolvedBody counted runs.2 unboxed unreserved plain isRan (completes.ofSameCode same)
        goesOn matches_ labels
        ⟨stands.holds.enter wellFormed opens, stands.operands, stands.memory⟩
      have widened : context.Arrives code outside rounds (stream.position, machine)
          ⟨block, first + Stmt.localCounts stmts⟩ first kept stack frames targets ran after ending
          final := arrives.weaken wellFormed around (Nat.le_refl _)
      exact ⟨ending, final, .block executes, widened.sameCode same⟩
  | .branch span condition thenBranch none, block, first, frames, targets, before, after, scope,
      stream, next, label, kept, stack, state, machine, resolved, counted, runs, unboxed,
      unreserved, plain, pushed, completes, goesOn, matches_, labels, stands => by
      have wellFormed := executable.sound.wellFormed
      rw [Resolved] at resolved
      obtain ⟨⟨ty, typed, -⟩, resolvedThen⟩ := resolved
      simp only [Runs] at runs
      obtain ⟨reads, thenRuns, skips⟩ := runs
      simp only [UnboxedStmt, Bool.and_eq_true] at unboxed
      simp only [Stmt.isUnreserved_branch_none, Bool.and_eq_true] at unreserved
      simp only [Stmt.localCount] at counted
      simp only [Stmt.heads] at plain
      simp only [pushStmt, bind_eq_ok, pure_eq_ok] at pushed
      obtain ⟨tested, isTested, done, isDone, rfl⟩ := pushed
      have appends := ((CodeStream.Appends.refl stream).addLabel.trans
        (appends_branchOn context condition false _ isTested)).trans
          (appends_pushStmt context thenBranch targets scope isDone)
      have elseOpen := appends.isOpen_label stream.nextLabel (by simp)
      have same := CodeStream.markSource_same stream.position span (done.place stream.nextLabel)
      have placedCompletes := completes.ofSameCode same
      have doneCompletes := placedCompletes.earlier (CodeStream.extends_place elseOpen.2)
      have testCompletes := doneCompletes.earlier
        (appends_pushStmt context thenBranch targets scope isDone).extends_
      obtain ⟨truth, between, evaluates, at_, isThere, tests⟩ := decides_branchOn code outside
        executable (show first ≤ _ by omega) typed unboxed.1.1 unboxed.1.2 unreserved.1 reads isTested
        stands
      by_cases isZero : truth = 0
      · subst isZero
        have goes := tests.goes rfl testCompletes _
          (placedCompletes.placed (CodeStream.offset?_place elseOpen.1))
        refine ⟨.completes, between, .elseBranch evaluates .none, Arrives.sameCode ?_ same⟩
        exact .completes (CodeStream.isTerminated_place elseOpen.1)
          (.ofAdmits skips ⟨isThere.holds.later (Nat.le_add_right _ _), isThere.operands,
            isThere.memory⟩) goes
      · have stays : ((truth != 0) == false) = false := by simp [isZero]
        obtain ⟨ending, final, executes, arrives⟩ := arrives_pushStmt outside rounds executable
          resolvedThen counted thenRuns unboxed.2 unreserved.2 plain isDone doneCompletes
          (tests.goesOn stays ((CodeStream.isTerminated_addLabel stream).trans goesOn)) matches_
          (labels.trans (ite_self none).symm) isThere
        exact ⟨ending, final, .thenBranch evaluates isZero executes,
          ((arrives.ofGoes (tests.falls stays testCompletes)).placed elseOpen).sameCode same⟩
  | .branch span condition thenBranch (some elseBranch), block, first, frames, targets, before,
      after, scope, stream, next, label, kept, stack, state, machine, resolved, counted, runs,
      unboxed, unreserved, plain, pushed, completes, goesOn, matches_, labels, stands => by
      have wellFormed := executable.sound.wellFormed
      have atHome := wellFormed.mem_enclosing_self block
      rw [Resolved] at resolved
      obtain ⟨⟨ty, typed, -⟩, resolvedThen, resolvedElse⟩ := resolved
      simp only [Runs] at runs
      obtain ⟨reads, thenRuns, elseRuns⟩ := runs
      simp only [UnboxedStmt, Bool.and_eq_true] at unboxed
      obtain ⟨⟨⟨isPrimitive, conditionUnboxed⟩, thenUnboxed⟩, elseUnboxed⟩ := unboxed
      simp only [Stmt.isUnreserved_branch_some, Bool.and_eq_true] at unreserved
      simp only [Stmt.localCount] at counted
      simp only [Stmt.heads, List.mem_append] at plain
      simp only [pushStmt, bind_eq_ok, pure_eq_ok] at pushed
      obtain ⟨tested, isTested, thenDone, isThenDone, done, isDone, rfl⟩ := pushed
      have pushesThen := appends_pushStmt context thenBranch targets scope isThenDone
      have thenAppends := ((CodeStream.Appends.refl stream).addLabel.trans
        (appends_branchOn context condition false _ isTested)).trans pushesThen
      have older : stream.nextLabel < thenDone.nextLabel :=
        (thenAppends.isOpen_label stream.nextLabel (by simp)).1
      generalize isLeft : (if thenDone.addLabel.isTerminated = true then thenDone.addLabel
        else thenDone.addLabel.emit (.goto thenDone.nextLabel)) = left at isDone
      obtain ⟨leftAppends, leaves⟩ :
          CodeStream.Appends [thenDone.nextLabel, stream.nextLabel] stream left ∧
            thenDone.Extends left := by
        rw [← isLeft]
        split
        · exact ⟨thenAppends.addLabel, CodeStream.extends_addLabel thenDone⟩
        · exact ⟨thenAppends.addLabel.emit _, (CodeStream.extends_addLabel thenDone).trans
            (CodeStream.extends_emit _ _)⟩
      have elseOpen := leftAppends.isOpen_label stream.nextLabel (by simp)
      have remain : ∀ other : Nat, other ∈ [thenDone.nextLabel] ↔
          other ∈ [thenDone.nextLabel, stream.nextLabel] ∧ other ≠ stream.nextLabel := by
        intro other
        simp only [List.mem_cons, List.not_mem_nil, or_false]
        constructor
        · rintro rfl
          exact ⟨.inl rfl, Nat.ne_of_gt older⟩
        · rintro ⟨isEnd | isElse, different⟩
          · exact isEnd
          · exact absurd isElse different
      have pushesElse := appends_pushStmt context elseBranch targets scope isDone
      have endOpen := ((leftAppends.placeAmong stream.nextLabel [thenDone.nextLabel] (by simp)
        remain).trans pushesElse).isOpen_label thenDone.nextLabel (by simp)
      have same := CodeStream.markSource_same stream.position span (done.place thenDone.nextLabel)
      have placedCompletes := completes.ofSameCode same
      have endPlaced := placedCompletes.placed (CodeStream.offset?_place endOpen.1)
      have doneCompletes := placedCompletes.earlier (CodeStream.extends_place endOpen.2)
      have elseCompletes := doneCompletes.earlier pushesElse.extends_
      have leftCompletes := elseCompletes.earlier (CodeStream.extends_place elseOpen.2)
      have thenCompletes := leftCompletes.earlier leaves
      have testCompletes := thenCompletes.earlier pushesThen.extends_
      have deeper : first + thenBranch.localCount + elseBranch.localCount =
          first + (thenBranch.localCount + elseBranch.localCount) := Nat.add_assoc _ _ _
      obtain ⟨truth, between, evaluates, at_, isThere, tests⟩ := decides_branchOn code outside
        executable (show first ≤ _ by omega) typed isPrimitive conditionUnboxed unreserved.1.1 reads
        isTested stands
      by_cases isZero : truth = 0
      · subst isZero
        have goes := tests.goes rfl testCompletes _
          (elseCompletes.placed (CodeStream.offset?_place elseOpen.1))
        obtain ⟨ending, final, executes, arrives⟩ := arrives_pushStmt outside rounds executable
          resolvedElse (by rw [deeper]; exact counted) elseRuns elseUnboxed unreserved.2
          (fun head member => plain head (.inr member)) isDone doneCompletes
          (CodeStream.isTerminated_place elseOpen.1) matches_ (labels.trans (ite_self none).symm)
          ⟨isThere.holds.later (Nat.le_add_right _ _), isThere.operands, isThere.memory⟩
        rw [deeper] at arrives
        exact ⟨ending, final, .elseBranch evaluates (.some executes),
          (((arrives.keep (Nat.le_add_right _ _) fun _ _ => rfl).ofGoes goes).placed
            endOpen).sameCode same⟩
      · have stays : ((truth != 0) == false) = false := by simp [isZero]
        obtain ⟨ending, final, executes, arrives⟩ := arrives_pushStmt outside rounds executable
          resolvedThen (by omega) thenRuns thenUnboxed unreserved.1.2
          (fun head member => plain head (.inl member)) isThenDone thenCompletes
          (tests.goesOn stays ((CodeStream.isTerminated_addLabel stream).trans goesOn)) matches_
          (labels.trans (ite_self none).symm) isThere
        have widened : context.Arrives code outside rounds (tested.position, at_)
            ⟨block, first + (thenBranch.localCount + elseBranch.localCount)⟩ first kept stack frames
            targets thenDone after ending final :=
          arrives.weaken wellFormed atHome (by simp only; omega)
        refine ⟨ending, final, .thenBranch evaluates isZero executes, Arrives.sameCode ?_ same⟩
        refine (widened.ofGoes (tests.falls stays testCompletes)).goesOn fun thenGoesOn =>
          ⟨CodeStream.isTerminated_place endOpen.1, fun machine => ?_⟩
        rw [CodeStream.isTerminated_addLabel, thenGoesOn, if_neg Bool.false_ne_true] at isLeft
        have jumps := (MethodCode.Crosses.refl code outside thenDone.addLabel machine).goto
          thenDone.nextLabel
        rw [isLeft] at jumps
        exact jumps.goes rfl leftCompletes _ endPlaced
  | .forEach span element collection none facts, block, first, frames, targets, before, after,
      scope, stream, next, label, kept, stack, state, machine, resolved, counted, runs, unboxed,
      unreserved, plain, pushed, completes, goesOn, matches_, labels, stands => by
      obtain rfl : JumpTarget.loopLabel? targets = label := labels
      rw [Resolved] at resolved
      obtain ⟨inner, resolution, head⟩ := resolved
      simp only [Runs] at runs
      obtain ⟨enters, comesBack, admits⟩ := runs
      simp only [UnboxedStmt, Bool.and_eq_true] at unboxed
      simp only [Stmt.isUnreserved_forEach_none, Bool.and_eq_true] at unreserved
      simp only [Stmt.localCount, head.introducedCount] at counted ⊢
      simp only [Stmt.heads, List.mem_singleton, forall_eq] at plain
      simp only [pushStmt, bind_eq_ok, pure_eq_ok] at pushed
      obtain ⟨done, isDone, rfl⟩ := pushed
      have same := CodeStream.markSource_same stream.position span done
      obtain ⟨ending, final, executes, arrives⟩ := arrives_pushLoop executable head enters plain
        unboxed.1 unboxed.2 unreserved.2 (Nat.le_of_eq (Nat.add_assoc first 1 _)) admits
        (fun _ _ stream after isSame => Except.ok.inj isSame ▸ .refl _) isDone
        (completes.ofSameCode same) goesOn matches_ (fun _ => comesBack) (fun isFull => by cases isFull)
        (fun isFull => by cases isFull) stands
      exact ⟨ending, final, executes, arrives.sameCode same⟩
  | .forEach span element collection (some action) facts, block, first, frames, targets, before,
      after, scope, stream, next, label, kept, stack, state, machine, resolved, counted, runs,
      unboxed, unreserved, plain, pushed, completes, goesOn, matches_, labels, stands => by
      obtain rfl : JumpTarget.loopLabel? targets = label := labels
      rw [Resolved] at resolved
      obtain ⟨inner, resolution, head, resolvedAction⟩ := resolved
      simp only [Runs] at runs
      obtain ⟨enters, admits, acts⟩ := runs
      simp only [UnboxedStmt, Bool.and_eq_true] at unboxed
      simp only [Stmt.isUnreserved_forEach_some, Bool.and_eq_true] at unreserved
      simp only [Stmt.localCount, head.introducedCount] at counted ⊢
      simp only [Stmt.heads, List.mem_cons, forall_eq_or_imp] at plain
      simp only [pushStmt, bind_eq_ok, pure_eq_ok] at pushed
      obtain ⟨done, isDone, rfl⟩ := pushed
      have same := CodeStream.markSource_same stream.position span done
      have deeper : first + 1 + resolution.strategy.synthetics.length + action.localCount =
          first + (1 + resolution.strategy.synthetics.length + action.localCount) := by
        omega
      have passes : Stmt.isEmptyAction (some action) = true → facts.continues = true := by
        intro isEmpty
        rcases acts with ⟨-, comesBack⟩ | ⟨-, actionRuns⟩
        · exact comesBack
        · exact Ledger.comesBack_of_isEmpty isEmpty actionRuns
      have busy : Stmt.isEmptyAction (some action) = false → action.isEmptyBlock ≠ true := by
        intro isFull isEmpty
        simp [Stmt.isEmptyAction, isEmpty] at isFull
      have body := fun isFull => (acts.resolve_left fun passedOver =>
        busy isFull passedOver.1)
      obtain ⟨ending, final, executes, arrives⟩ := arrives_pushLoop executable head enters plain.1
        unboxed.1.1 unboxed.1.2 unreserved.1.2
        (show _ ≤ first + (1 + resolution.strategy.synthetics.length + action.localCount) by omega)
        admits (fun target inner => appends_pushStmt context action (target :: targets) inner) isDone
        (completes.ofSameCode same) goesOn matches_ passes (fun isFull => (body isFull).1)
        (by
          intro isFull entered onBreak onContinue home fetched ran kept state machine within isRan
            ranCompletes fetchedGoesOn isBreak isContinue stands
          have relaxes : FlowExit.Relaxes entered
              (facts.again (element.enteredWith collection before)) (facts.again entered) :=
            facts.again_relaxes _ _
          have framesRelax : JumpFrame.AllRelax entered
              (.loop after (facts.again (element.enteredWith collection before)) :: frames)
              (.loop after (facts.again entered) :: frames) :=
            ⟨.refl _ _, relaxes, .refl _ frames⟩
          obtain ⟨ending, final, executes, arrives⟩ := arrives_pushStmt outside rounds executable
            resolvedAction (by rw [deeper]; exact counted)
            ((body isFull).2.relax within framesRelax relaxes) unboxed.2 unreserved.2 plain.2 isRan ranCompletes fetchedGoesOn
            ⟨isBreak, isContinue, matches_⟩ (ite_self none).symm stands
          rw [deeper] at arrives
          exact ⟨ending, final, .some executes, arrives⟩)
        stands
      exact ⟨ending, final, executes, arrives.sameCode same⟩
  | .labeled span name body, block, first, frames, targets, before, after, scope, stream, next,
      label, kept, stack, state, machine, resolved, counted, runs, unboxed, unreserved, plain,
      pushed, completes, goesOn, matches_, labels, stands => by
      rw [Resolved] at resolved
      simp only [Runs] at runs
      simp only [UnboxedStmt] at unboxed
      simp only [Stmt.isUnreserved_labeled] at unreserved
      simp only [Stmt.localCount] at counted
      simp only [Stmt.heads] at plain
      simp only [pushStmt, bind_eq_ok, pure_eq_ok] at pushed
      obtain ⟨done, isDone, rfl⟩ := pushed
      have appends := (CodeStream.Appends.refl stream).addLabel.trans
        (appends_pushStmt context body _ scope isDone)
      have breakOpen := appends.isOpen_label stream.nextLabel (by simp)
      have same := CodeStream.markSource_same stream.position span (done.place stream.nextLabel)
      have placedCompletes := completes.ofSameCode same
      have placed := placedCompletes.placed (CodeStream.offset?_place breakOpen.1)
      obtain ⟨ending, final, executes, arrives⟩ := arrives_pushStmt outside rounds executable resolved
        counted runs unboxed unreserved plain isDone
        (placedCompletes.earlier (CodeStream.extends_place breakOpen.2))
        ((CodeStream.isTerminated_addLabel stream).trans goesOn)
        ⟨rfl, rfl, ⟨_, placed⟩, matches_⟩ (JumpTarget.loopLabel?_label _ _ _ targets) stands
      exact ⟨ending.ofLabeled name.node, final, .labeled executes,
        (arrives.labeled breakOpen placedCompletes).sameCode same⟩
  | .breakTo span name, block, first, frames, targets, before, after, scope, stream, next, label,
      kept, stack, state, machine, resolved, counted, runs, unboxed, unreserved, plain, pushed,
      completes, goesOn, matches_, labels, stands => by
      simp only [Runs] at runs
      simp only [pushStmt, bind_eq_ok, pure_eq_ok] at pushed
      obtain ⟨target, isTarget, rfl⟩ := pushed
      obtain ⟨offset, placed⟩ := matches_.ofBreak isTarget
      have same := CodeStream.markSource_same stream.position span (stream.emit (.goto target))
      have goes := ((MethodCode.Crosses.refl code outside stream machine).goto target).goes rfl
        (completes.ofSameCode same) offset placed
      exact ⟨.breaks (name.map Spanned.node), state, .breakTo,
        .jumps ⟨rfl, isTarget⟩ placed (.ofAdmits runs stands) goes⟩
  | .continueTo span name, block, first, frames, targets, before, after, scope, stream, next,
      label, kept, stack, state, machine, resolved, counted, runs, unboxed, unreserved, plain,
      pushed, completes, goesOn, matches_, labels, stands => by
      simp only [Runs] at runs
      simp only [pushStmt, bind_eq_ok, pure_eq_ok] at pushed
      obtain ⟨target, isTarget, rfl⟩ := pushed
      obtain ⟨offset, placed⟩ := matches_.ofContinue runs isTarget
      have same := CodeStream.markSource_same stream.position span (stream.emit (.goto target))
      have goes := ((MethodCode.Crosses.refl code outside stream machine).goto target).goes rfl
        (completes.ofSameCode same) offset placed
      exact ⟨.continues (name.map Spanned.node), state, .continueTo,
        .jumps ⟨rfl, isTarget⟩ placed (.ofAdmits runs stands) goes⟩
  | .returnWith span none, block, first, frames, targets, before, after, scope, stream, next,
      label, kept, stack, state, machine, resolved, counted, runs, unboxed, unreserved, plain,
      pushed, completes, goesOn, matches_, labels, stands => by
      simp only [pushStmt, Except.ok.injEq] at pushed
      subst pushed
      have same := CodeStream.markSource_same stream.position span (stream.emit (.returnWith none))
      have fetched := (completes.ofSameCode same).fetched
      exact ⟨.returns none, state, .returnNothing, .returns (.refl _)
        (by simp [MethodCode.returned?, fetched, Instruction.returned?]) stands.memory⟩
  | .returnWith span (some value), block, first, frames, targets, before, after, scope, stream,
      next, label, kept, stack, state, machine, resolved, counted, runs, unboxed, unreserved, plain,
      pushed, completes, goesOn, matches_, labels, stands => by
      rw [Resolved] at resolved
      obtain ⟨hasResult, ty, typed, converts⟩ := resolved
      simp only [Runs] at runs
      simp only [UnboxedStmt, Bool.and_eq_true] at unboxed
      simp only [Stmt.isUnreserved_returnWith] at unreserved
      simp only [pushStmt, bind_eq_ok, pure_eq_ok] at pushed
      obtain ⟨done, isDone, rfl⟩ := pushed
      have same := CodeStream.markSource_same stream.position span done
      obtain ⟨word, final, last, executes, goes, returned, sameMemory⟩ := exists_returned outside
        rounds executable counted span typed hasResult converts
        (typed.exprType executable.words ▸ unboxed.1) unboxed.2 unreserved runs isDone
        (completes.ofSameCode same) stands label
      exact ⟨.returns (some word), final, executes, .returns goes returned sameMemory⟩
  | .empty span, block, first, frames, targets, before, after, scope, stream, next, label, kept,
      stack, state, machine, resolved, counted, runs, unboxed, unreserved, plain, pushed, completes,
      goesOn, matches_, labels, stands => by
      simp only [Runs] at runs
      simp only [pushStmt, Except.ok.injEq] at pushed
      subst pushed
      exact ⟨.completes, state, .empty, .completes goesOn (.ofAdmits runs stands) (.refl _)⟩

theorem arrives_pushStmts
    (outside : Outside)
    (rounds : Nat)
    (executable : context.Executable false) :
    ∀ {stmts : List Stmt} {block first : Nat} {frames : List JumpFrame} {targets : List JumpTarget}
        {before : VarSet} {after : FlowExit} {scope : ScopeId} {stream next : CodeStream}
        {kept : Nat → Option Word} {stack : List Word} {state : TreeState} {machine : Machine},
      context.AllResolved false stmts block first →
      first + Stmt.localCounts stmts ≤ context.scope.locals.size →
      context.AllRun stmts frames before after →
      context.AllUnboxedStmts stmts = true →
      Stmt.areUnreserved stmts = true →
      (∀ head ∈ Stmt.allHeads stmts, context.PlainHead head) →
      context.pushStmts stmts none targets scope stream = .ok next →
      code.Completes next →
      stream.isTerminated = false →
      JumpFrame.Matches (IsPlacedIn code) frames targets →
      JumpTarget.loopLabel? targets = none →
      context.Stands ⟨block, first⟩ before kept stack state machine →
      ∃ ending final,
        context.ExecutesAll outside rounds state stmts ending final ∧
        context.Arrives code outside rounds (stream.position, machine)
          ⟨block, first + Stmt.localCounts stmts⟩ first kept stack frames targets next after ending
          final
  | [], block, first, frames, targets, before, after, scope, stream, next, kept, stack, state,
      machine, resolved, counted, runs, unboxed, unreserved, plain, pushed, completes, goesOn,
      matches_, labels, stands => by
      simp only [AllRun] at runs
      simp only [pushStmts, Except.ok.injEq] at pushed
      subst pushed
      exact ⟨.completes, state, .nil, .completes goesOn (.ofAdmits runs stands) (.refl _)⟩
  | stmt :: rest, block, first, frames, targets, before, after, scope, stream, next, kept, stack,
      state, machine, resolved, counted, runs, unboxed, unreserved, plain, pushed, completes, goesOn,
      matches_, labels, stands => by
      have wellFormed := executable.sound.wellFormed
      rw [AllResolved] at resolved
      simp only [AllRun] at runs
      obtain ⟨middle, headRuns, ends, runsOn⟩ := runs
      simp only [AllUnboxedStmts, Bool.and_eq_true] at unboxed
      simp only [Stmt.areUnreserved_cons, Bool.and_eq_true] at unreserved
      simp only [Stmt.localCounts] at counted
      simp only [Stmt.allHeads, List.mem_append] at plain
      obtain ⟨done, isDone, ran⟩ := (pushStmts_cons_eq_ok (by simp)).mp pushed
      have deeper : first + stmt.localCount + Stmt.localCounts rest =
          first + (stmt.localCount + Stmt.localCounts rest) := Nat.add_assoc _ _ _
      have doneCompletes := completes.earlier
        (appends_pushStmts context rest _ targets scope ran).extends_
      obtain ⟨ending, between, executes, arrives⟩ := arrives_pushStmt outside rounds executable
        resolved.1 (by omega) headRuns unboxed.1 unreserved.1
        (fun head member => plain head (.inl member)) isDone doneCompletes goesOn matches_ (labels.trans (ite_self none).symm) stands
      by_cases completed : ending = .completes
      · subst completed
        obtain ⟨doneGoesOn, at_, ⟨needed, others, rfl, agree, isThere⟩, goes⟩ :=
          arrives.exists_completed
        obtain ⟨ending, final, executesRest, arrivesRest⟩ := arrives_pushStmts outside rounds
          executable resolved.2 (by rw [deeper]; exact counted) (runsOn needed rfl) unboxed.2 unreserved.2
          (fun head member => plain head (.inr member)) ran completes doneGoesOn matches_ labels
          isThere
        rw [deeper] at arrivesRest
        exact ⟨ending, final, .goesOn executes executesRest,
          (arrivesRest.keep (Nat.le_add_right _ _) agree).ofGoes goes⟩
      · have widened : context.Arrives code outside rounds (stream.position, machine)
            ⟨block, first + (stmt.localCount + Stmt.localCounts rest)⟩ first kept stack frames
            targets done middle ending between :=
          arrives.weaken wellFormed (wellFormed.mem_enclosing_self block) (by simp only; omega)
        exact ⟨ending, between, .ends executes completed, widened.abrupt completed⟩

end

end CodeContext

end LoopLowering
