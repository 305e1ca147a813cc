import LoopLowering.Proofs.Code.JumpSelection
import LoopLowering.Proofs.Flow.Resolved
import LoopLowering.Proofs.Machine.LoopStacks

namespace LoopLowering

/-!
# Paths through the tree of a method

Flow analysis and code generation go down the same tree, each as far as it looks at
parts at all. A path from a method to a part leads both to that part, flow analysis
at a point with a stack of jump targets, and code generation with their branch
targets. The two stacks mirror each other, so that a jump there selects the same
statement in both.
-/

/-- A step from a statement to one of its parts. -/
inductive TreeStep where
  | item (index : Nat)
  | thenBranch
  | elseBranch
  /-- The body of a loop or of a labeled statement. -/
  | body
  deriving Repr, DecidableEq

/-- A statement that flow analysis is about to look at. -/
structure FlowSite where
  stmt : Stmt
  point : FlowPoint

namespace FlowSite

/-- Where flow analysis looks at a statement of a list, if it gets there. -/
def item?
    (options : CompilerOptions) :
    List Stmt → FlowPoint → (index : Nat) → Option FlowSite
  | [], _, _ => none
  | stmt :: rest, point, index =>
      if point.flow.reachable then
        match index with
        | 0 => some ⟨stmt, point⟩
        | index + 1 => item? options rest (analyzeStmt options stmt point).point index
      else
        none

/-- Where flow analysis looks at a part of a statement, if it does. -/
def child?
    (options : CompilerOptions)
    (site : FlowSite)
    (step : TreeStep) :
    Option FlowSite :=
  match site.stmt, step with
  | .block _ stmts _, .item index => item? options stmts site.point index
  | .branch _ condition thenBranch _, .thenBranch =>
      some ⟨thenBranch, analyzeExpr options condition site.point⟩
  | .branch _ condition thenBranch (some elseBranch), .elseBranch =>
      let tested := analyzeExpr options condition site.point
      let thenDone := (analyzeStmt options thenBranch tested).point
      some ⟨elseBranch, { thenDone with flow := tested.flow }⟩
  | .forEach _ element collection (some action) facts, .body =>
      facts.scope.bind fun scope =>
        let entry := enterLoop options scope element collection site.point
        if !skipsAction options action && entry.body.flow.reachable then
          some ⟨action, entry.body⟩
        else
          none
  | .labeled _ label body, .body =>
      some ⟨body,
        { site.point with jumps := site.point.jumps.pushLabel label.node body.isLoop }⟩
  | _, _ => none

/-- Where flow analysis looks at the part at the end of a path, if it does. -/
def along?
    (options : CompilerOptions) :
    List TreeStep → FlowSite → Option FlowSite
  | [], site => some site
  | step :: path, site => (site.child? options step).bind (along? options path)

end FlowSite

/-- Where flow analysis looks at a part of the body of a method, if it does. -/
def Method.flowSite?
    (options : CompilerOptions)
    (method : Method)
    (state : MethodState)
    (index : Nat)
    (path : List TreeStep) :
    Option FlowSite :=
  (FlowSite.item? options method.body.stmts (.atBody method.params state) index).bind
    (FlowSite.along? options path)

/-- A statement that code generation is about to generate. -/
structure CodeSite where
  stmt : Stmt
  targets : List JumpTarget
  scope : ScopeId
  code : CodeStream

namespace CodeContext

/-- The code of a loop up to its body, and the branch targets of the loop. -/
def openBody
    (context : CodeContext)
    (plan : LoopPlan)
    (collection : Expr)
    (code : CodeStream) :
    Except CodegenError (LoopLabels × CodeStream) := do
  let pushed ← context.pushExpr collection true code
  let started ← context.startLoop plan pushed
  let (labels, labeled) := LoopLabels.made plan.continues started
  let entered ← context.enterLoop plan labels labeled
  let fetched ← context.fetchElement plan (entered.place labels.action)
  return (labels, fetched)

/-- Where code generation generates a statement of a list, if it gets there. -/
def itemSite?
    (context : CodeContext)
    (targets : List JumpTarget)
    (scope : ScopeId) :
    List Stmt → (limit : Option Nat) → CodeStream → (index : Nat) → Option CodeSite
  | [], _, _, _ => none
  | _ :: _, some 0, _, _ => none
  | stmt :: rest, limit, code, index =>
      match index with
      | 0 => some ⟨stmt, targets, scope, code⟩
      | index + 1 =>
          (context.pushStmt stmt targets scope code).toOption.bind fun done =>
            context.itemSite? targets scope rest (limit.map Nat.pred) done index

/-- Where code generation generates a part of a statement, if it does. -/
def childSite?
    (context : CodeContext)
    (site : CodeSite)
    (step : TreeStep) :
    Option CodeSite :=
  match site.stmt, step with
  | .block _ stmts facts, .item index =>
      context.itemSite? site.targets (facts.scope.getD site.scope) stmts facts.unreachableFrom
        site.code index
  | .branch _ condition thenBranch _, .thenBranch =>
      (context.branchOn condition false site.code.nextLabel site.code.addLabel).toOption.map
        fun tested => ⟨thenBranch, site.targets, site.scope, tested⟩
  | .branch _ condition thenBranch (some elseBranch), .elseBranch =>
      (context.branchOn condition false site.code.nextLabel site.code.addLabel).toOption.bind
        fun tested => (context.pushStmt thenBranch site.targets site.scope tested).toOption.map
          fun thenDone =>
            let labeled := thenDone.addLabel
            let left :=
              if labeled.isTerminated then labeled else labeled.emit (.goto thenDone.nextLabel)
            ⟨elseBranch, site.targets, site.scope, left.place site.code.nextLabel⟩
  | .forEach _ element collection (some action) facts, .body =>
      if facts.reachable && !Stmt.isEmptyAction (some action) && facts.actionReachable then
        (context.plan? element (some action) facts site.scope).bind fun plan =>
          (context.openBody plan collection site.code).toOption.map fun opened =>
            ⟨action, .loop opened.1.exit opened.1.next :: site.targets, plan.scope, opened.2⟩
      else
        none
  | .labeled _ label body, .body =>
      some ⟨body, .label label.node site.code.nextLabel body.isLoop :: site.targets, site.scope,
        site.code.addLabel⟩
  | _, _ => none

/-- Where code generation generates the part at the end of a path, if it does. -/
def siteAlong?
    (context : CodeContext) :
    List TreeStep → CodeSite → Option CodeSite
  | [], site => some site
  | step :: path, site => (context.childSite? site step).bind (context.siteAlong? path)

/-- Where code generation generates a part of the body of a method, if it does. The
ranges of the parameters have been opened. -/
def methodSite?
    (context : CodeContext)
    (method : Method)
    (opened : CodeStream)
    (index : Nat)
    (path : List TreeStep) :
    Option CodeSite :=
  (context.itemSite? [] MethodScope.root method.body.stmts method.body.facts.unreachableFrom
    opened index).bind (context.siteAlong? path)

end CodeContext

namespace CodeContext

variable
  {context : CodeContext}

/-- The statement at a place has code there. -/
def Pushes
    (context : CodeContext)
    (site : CodeSite) :
    Prop :=
  ∃ done, context.pushStmt site.stmt site.targets site.scope site.code = .ok done

/-- Where statements have code, so has each one that code generation gets to. -/
theorem pushes_itemSite
    {targets : List JumpTarget}
    {scope : ScopeId}
    {site : CodeSite} :
    ∀ {stmts : List Stmt} {limit : Option Nat} {code after : CodeStream} {index : Nat},
      context.pushStmts stmts limit targets scope code = .ok after →
      context.itemSite? targets scope stmts limit code index = some site →
      context.Pushes site
  | [], limit, code, after, index, pushed, isSite => by
      simp [itemSite?] at isSite
  | stmt :: rest, limit, code, after, index, pushed, isSite => by
      rcases limit with _ | _ | limit
      case some.zero =>
        simp [itemSite?] at isSite
      all_goals
        simp only [pushStmts, bind_eq_ok] at pushed
        obtain ⟨done, isDone, pushed⟩ := pushed
        cases index with
        | zero =>
            simp only [itemSite?, Option.some.injEq] at isSite
            subst isSite
            exact ⟨done, isDone⟩
        | succ index =>
            simp only [itemSite?, isDone, Except.toOption, Option.bind_some] at isSite
            exact pushes_itemSite pushed isSite

/-- The plan of a loop knows whether it does nothing with its elements. -/
theorem hasEmptyAction_of_plan?
    {element : LocalDecl}
    {action : Option Stmt}
    {facts : LoopFacts}
    {outer : ScopeId}
    {plan : LoopPlan}
    (plans : context.plan? element action facts outer = some plan) :
    plan.hasEmptyAction = Stmt.isEmptyAction action := by
  unfold plan? at plans
  split at plans
  · cases plans
    rfl
  · cases plans

/-- The code of a loop begins with the code up to its body. -/
theorem Iteration.openBody
    {plan : LoopPlan}
    {collection : Expr}
    {body : JumpTarget → CodeStep}
    {code after : CodeStream}
    (iteration : context.Iteration plan collection body code after) :
    context.openBody plan collection code = .ok (iteration.labels, iteration.fetched) := by
  simp only [CodeContext.openBody, bind_eq_ok, iteration.isPushed, iteration.isStarted,
    iteration.isLabeled, iteration.isEntered, iteration.isFetched, Except.ok.injEq,
    exists_eq_left']
  rfl

/-- Where a loop has code, so has its body if it is generated. -/
theorem pushes_loopBody
    {span : Span}
    {element : LocalDecl}
    {collection : Expr}
    {action : Stmt}
    {facts : LoopFacts}
    {targets : List JumpTarget}
    {scope : ScopeId}
    {code : CodeStream}
    {child : CodeSite}
    (pushes : context.Pushes
      ⟨.forEach span element collection (some action) facts, targets, scope, code⟩)
    (isChild : context.childSite?
      ⟨.forEach span element collection (some action) facts, targets, scope, code⟩ .body =
        some child) :
    context.Pushes child := by
  obtain ⟨after, pushed⟩ := pushes
  simp only [childSite?] at isChild
  split at isChild
  · next runs =>
      simp only [Option.bind_eq_some_iff, Option.map_eq_some_iff] at isChild
      obtain ⟨plan, plans, opened, isOpened, rfl⟩ := isChild
      simp only [Bool.and_eq_true] at runs
      obtain ⟨⟨isReached, acts⟩, runsAction⟩ := runs
      have hasAction : plan.hasEmptyAction = false := by
        rw [hasEmptyAction_of_plan? plans]
        simpa using acts
      simp only [pushStmt, bind_eq_ok, pushLoop_of_plan? plans, isReached, if_true, acts,
        runsAction, Bool.and_self, pushPlanned, hasAction, Bool.false_and, Bool.false_eq_true,
        if_false] at pushed
      obtain ⟨done, ⟨iterated, isIterated, -⟩, -⟩ := pushed
      obtain ⟨iteration⟩ := exists_iteration isIterated
      rw [iteration.openBody] at isOpened
      obtain rfl := Option.some.inj isOpened
      exact ⟨_, iteration.isRan⟩
  · cases isChild

/-- Where a statement has code, so has each part that code generation gets to. -/
theorem pushes_childSite
    {site child : CodeSite}
    {step : TreeStep}
    (pushes : context.Pushes site)
    (isChild : context.childSite? site step = some child) :
    context.Pushes child := by
  obtain ⟨stmt, targets, scope, code⟩ := site
  cases stmt with
  | block span stmts facts =>
      cases step with
      | item index =>
          obtain ⟨after, pushed⟩ := pushes
          simp only [pushStmt, bind_eq_ok] at pushed
          obtain ⟨done, isDone, -⟩ := pushed
          exact pushes_itemSite isDone isChild
      | _ =>
          cases isChild
  | branch span condition thenBranch elseBranch =>
      obtain ⟨after, pushed⟩ := pushes
      cases elseBranch with
      | none =>
          simp only [pushStmt, bind_eq_ok] at pushed
          obtain ⟨tested, isTested, done, isDone, -⟩ := pushed
          cases step with
          | thenBranch =>
              simp only [childSite?, isTested] at isChild
              obtain rfl := Option.some.inj isChild
              exact ⟨done, isDone⟩
          | _ =>
              cases isChild
      | some elseBranch =>
          simp only [pushStmt, bind_eq_ok] at pushed
          obtain ⟨tested, isTested, thenDone, isThenDone, done, isDone, -⟩ := pushed
          cases step with
          | thenBranch =>
              simp only [childSite?, isTested] at isChild
              obtain rfl := Option.some.inj isChild
              exact ⟨thenDone, isThenDone⟩
          | elseBranch =>
              simp only [childSite?, isTested, Except.toOption, Option.bind_some,
                isThenDone] at isChild
              obtain rfl := Option.some.inj isChild
              exact ⟨done, isDone⟩
          | _ =>
              cases isChild
  | forEach span element collection action facts =>
      cases action with
      | none =>
          cases isChild
      | some action =>
          cases step with
          | body =>
              exact pushes_loopBody pushes isChild
          | _ =>
              cases isChild
  | labeled span label body =>
      cases step with
      | body =>
          obtain ⟨after, pushed⟩ := pushes
          simp only [pushStmt, bind_eq_ok] at pushed
          obtain ⟨done, isDone, -⟩ := pushed
          obtain rfl := Option.some.inj isChild
          exact ⟨done, isDone⟩
      | _ =>
          cases isChild
  | _ =>
      cases isChild

/-- Where a statement has code, so has the part at the end of a path that code
generation gets to. -/
theorem pushes_siteAlong :
    ∀ {path : List TreeStep} {site last : CodeSite},
      context.Pushes site →
      context.siteAlong? path site = some last →
      context.Pushes last
  | [], site, last, pushes, isLast => by
      obtain rfl := Option.some.inj isLast
      exact pushes
  | step :: path, site, last, pushes, isLast => by
      simp only [siteAlong?, Option.bind_eq_some_iff] at isLast
      obtain ⟨child, isChild, isLast⟩ := isLast
      exact pushes_siteAlong (pushes_childSite pushes isChild) isLast

/-- Where a method has code, so has each part that code generation gets to. So a jump
there that had no branch target would leave the method without code. -/
theorem pushes_methodSite
    {method : Method}
    {code : MethodCode}
    (generated : context.methodCode method = .ok code) :
    ∃ opened, context.openParams method.params .empty = .ok opened ∧
      ∀ (item : Nat) (path : List TreeStep) (site : CodeSite),
        context.methodSite? method opened item path = some site →
        context.Pushes site := by
  simp only [methodCode, bind_eq_ok] at generated
  obtain ⟨opened, isOpened, ran, isRan, -⟩ := generated
  refine ⟨opened, isOpened, fun item path site isSite => ?_⟩
  simp only [methodSite?, Option.bind_eq_some_iff] at isSite
  obtain ⟨begun, isBegun, isSite⟩ := isSite
  exact pushes_siteAlong (pushes_itemSite isRan isBegun) isSite

end CodeContext

namespace FlowSite

variable
  {options : CompilerOptions}
  {context : CodeContext}

/-- Flow analysis and code generation look at the same statement, the one before and
the other after its analysis, and know the statements around it alike. -/
structure Mirrors
    (options : CompilerOptions)
    (site : FlowSite)
    (generated : CodeSite) :
    Prop where
  reachable : site.point.flow.reachable = true
  node : generated.stmt = (analyzeStmt options site.stmt site.point).node
  jumps : site.point.jumps.Mirrors generated.targets

/-- Both passes know the statements around a statement of a list alike. -/
theorem mirrors_item
    {targets : List JumpTarget}
    {scope : ScopeId}
    {site : FlowSite}
    {generated : CodeSite} :
    ∀ {stmts : List Stmt} {point : FlowPoint} {limit : Option Nat} {code : CodeStream}
        {index : Nat},
      point.jumps.Mirrors targets →
      item? options stmts point index = some site →
      context.itemSite? targets scope (analyzeStmts options stmts point).nodes limit code index =
        some generated →
      site.Mirrors options generated
  | [], point, limit, code, index, mirrors, isSite, isGenerated => by
      simp [item?] at isSite
  | stmt :: rest, point, limit, code, index, mirrors, isSite, isGenerated => by
      cases reached : point.flow.reachable with
      | false =>
          simp [item?, reached] at isSite
      | true =>
          have narrows := narrows_analyzeStmt options stmt reached
          simp only [item?, reached, if_true] at isSite
          simp only [analyzeStmts, reached, if_true] at isGenerated
          cases index with
          | zero =>
              obtain rfl := Option.some.inj isSite
              rcases limit with _ | _ | limit <;>
                simp only [CodeContext.itemSite?, Option.some.injEq, reduceCtorEq] at isGenerated
              all_goals
                subst isGenerated
                exact ⟨reached, rfl, mirrors⟩
          | succ index =>
              rcases limit with _ | _ | limit <;>
                simp only [CodeContext.itemSite?, Option.bind_eq_some_iff, reduceCtorEq]
                  at isGenerated
              all_goals
                obtain ⟨done, -, isGenerated⟩ := isGenerated
                exact mirrors_item (mirrors.narrows narrows) isSite isGenerated

/-- Both passes know the statements around the body of a loop alike. -/
theorem Mirrors.loopBody
    {span : Span}
    {element : LocalDecl}
    {collection : Expr}
    {action : Stmt}
    {facts : LoopFacts}
    {point : FlowPoint}
    {next : FlowSite}
    {generated child : CodeSite}
    (mirrors : Mirrors options ⟨.forEach span element collection (some action) facts, point⟩
      generated)
    (isNext : child? options ⟨.forEach span element collection (some action) facts, point⟩ .body =
      some next)
    (isChild : context.childSite? generated .body = some child) :
    next.Mirrors options child := by
  obtain ⟨node, targets, scope, code⟩ := generated
  simp only [child?, Option.bind_eq_some_iff] at isNext
  obtain ⟨inner, isScope, isNext⟩ := isNext
  split at isNext
  · next entered =>
      obtain rfl := Option.some.inj isNext
      simp only [Bool.and_eq_true, Bool.not_eq_true'] at entered
      obtain ⟨notSkipped, reached⟩ := entered
      obtain ⟨jumps, narrows, isPushed⟩ :=
        (enters_enterLoop options inner element collection point).jumps
      have isNode := mirrors.node.trans
        (CodeContext.analyzeStmt_forEach options span element collection action point isScope).1
      simp only [LoopEntry.analyzeBody, notSkipped, Bool.false_eq_true, if_false, reached,
        if_true] at isNode
      subst isNode
      simp only [CodeContext.childSite?] at isChild
      split at isChild
      · simp only [Option.bind_eq_some_iff, Option.map_eq_some_iff] at isChild
        obtain ⟨plan, -, ⟨labels, opened⟩, -, rfl⟩ := isChild
        refine ⟨reached, rfl, ?_⟩
        rw [isPushed]
        exact ⟨trivial, mirrors.jumps.narrows narrows⟩
      · cases isChild
  · cases isNext

/-- Both passes know the statements around a part of a statement alike if they do
around the statement. -/
theorem Mirrors.child
    {site next : FlowSite}
    {generated child : CodeSite}
    {step : TreeStep}
    (mirrors : site.Mirrors options generated)
    (isNext : site.child? options step = some next)
    (isChild : context.childSite? generated step = some child) :
    next.Mirrors options child := by
  obtain ⟨stmt, point⟩ := site
  obtain ⟨node, targets, scope, code⟩ := generated
  have reached : point.flow.reachable = true := mirrors.reachable
  have isNode : node = (analyzeStmt options stmt point).node := mirrors.node
  have jumps : point.jumps.Mirrors targets := mirrors.jumps
  cases stmt with
  | block span stmts facts =>
      cases step with
      | item index =>
          rw [analyzeStmt] at isNode
          subst isNode
          exact mirrors_item jumps isNext isChild
      | _ =>
          cases isNext
  | branch span condition thenBranch elseBranch =>
      have tested := evaluates_analyzeExpr options condition point
      have testedReached := tested.reachable.trans reached
      have testedJumps := jumps.narrows tested.jumps
      cases step with
      | thenBranch =>
          obtain rfl := Option.some.inj isNext
          cases elseBranch <;>
            simp only [analyzeStmt] at isNode <;>
            subst isNode <;>
            simp only [CodeContext.childSite?, Option.map_eq_some_iff] at isChild
          all_goals
            obtain ⟨done, -, rfl⟩ := isChild
            exact ⟨testedReached, rfl, testedJumps⟩
      | elseBranch =>
          cases elseBranch with
          | none =>
              cases isNext
          | some elseBranch =>
              obtain rfl := Option.some.inj isNext
              simp only [analyzeStmt] at isNode
              subst isNode
              simp only [CodeContext.childSite?, Option.bind_eq_some_iff, Option.map_eq_some_iff]
                at isChild
              obtain ⟨branched, -, done, -, rfl⟩ := isChild
              exact ⟨testedReached, rfl,
                testedJumps.narrows (narrows_analyzeStmt options thenBranch testedReached)⟩
      | _ =>
          cases elseBranch <;> cases isNext
  | forEach span element collection action facts =>
      cases action with
      | none =>
          cases isNext
      | some action =>
          cases step with
          | body =>
              exact mirrors.loopBody isNext isChild
          | _ =>
              cases isNext
  | labeled span label body =>
      cases step with
      | body =>
          obtain rfl := Option.some.inj isNext
          simp only [analyzeStmt] at isNode
          subst isNode
          obtain rfl := Option.some.inj isChild
          exact ⟨reached, rfl, ⟨rfl, CodeContext.isLoop_analyzeStmt options body _⟩, jumps⟩
      | _ =>
          cases isNext
  | _ =>
      cases isNext

/-- Both passes know the statements around the part at the end of a path alike. -/
theorem Mirrors.along :
    ∀ {path : List TreeStep} {site last : FlowSite} {generated final : CodeSite},
      site.Mirrors options generated →
      site.along? options path = some last →
      context.siteAlong? path generated = some final →
      last.Mirrors options final
  | [], site, last, generated, final, mirrors, isLast, isFinal => by
      obtain rfl := Option.some.inj isLast
      obtain rfl := Option.some.inj isFinal
      exact mirrors
  | step :: path, site, last, generated, final, mirrors, isLast, isFinal => by
      simp only [along?, Option.bind_eq_some_iff] at isLast
      simp only [CodeContext.siteAlong?, Option.bind_eq_some_iff] at isFinal
      obtain ⟨next, isNext, isLast⟩ := isLast
      obtain ⟨child, isChild, isFinal⟩ := isFinal
      exact (mirrors.child isNext isChild).along isLast isFinal

end FlowSite

/-- Wherever flow analysis and code generation come to in the same tree, they look at the
same statement, and a jump there selects the same statement around it in both: a
recorded break goes to the branch target that leaves that statement, and a recorded
continue to the one that continues that loop, if there is one. -/
theorem Method.jumps_selectSame
    {options : CompilerOptions}
    {method : Method}
    {state : MethodState}
    {context : CodeContext}
    {opened : CodeStream}
    {item : Nat}
    {path : List TreeStep}
    {site : FlowSite}
    {generated : CodeSite}
    (analyzed : method.flowSite? options state item path = some site)
    (isGenerated :
      context.methodSite? (analyzeMethod options method state).node opened item path =
        some generated) :
    generated.stmt = (analyzeStmt options site.stmt site.point).node ∧
      site.point.jumps.Mirrors generated.targets ∧
      ∀ (wanted : Option String) (flow : FlowState) (changed : JumpStack),
        (site.point.jumps.recordBreak wanted flow = .ok changed →
          ∃ index record selected,
            JumpStack.Selects site.point.jumps generated.targets index record
                (record.addBreak flow) selected changed ∧
              JumpTarget.ofBreak generated.targets wanted = .ok selected.onBreak) ∧
        (site.point.jumps.recordContinue wanted flow = .ok changed →
          ∃ index record onBreak onContinue,
            JumpStack.Selects site.point.jumps generated.targets index (.loop record)
                (.loop (record.addContinue flow)) (.loop onBreak onContinue) changed ∧
              ∀ label, onContinue = some label →
                JumpTarget.ofContinue generated.targets wanted = .ok label) := by
  simp only [flowSite?, Option.bind_eq_some_iff] at analyzed
  simp only [CodeContext.methodSite?, Option.bind_eq_some_iff] at isGenerated
  obtain ⟨first, isFirst, analyzed⟩ := analyzed
  obtain ⟨begun, isBegun, isGenerated⟩ := isGenerated
  have outermost : (FlowPoint.atBody method.params state).jumps.Mirrors [] := trivial
  have mirrors := (FlowSite.mirrors_item outermost isFirst isBegun).along analyzed isGenerated
  exact ⟨mirrors.node, mirrors.jumps, fun wanted flow changed =>
    ⟨mirrors.jumps.selects_recordBreak, mirrors.jumps.selects_recordContinue⟩⟩

/-- A method that continues a loop by a label that a block around it has as well. -/
def Method.repeatsLabel :
    Method where
  name := ⟨"m", .absent⟩
  typeParams := []
  params := [⟨⟨"xs", .absent⟩, .array .absent (.named .absent "int"), false, none⟩]
  returnType := none
  body := {
    span := .absent
    stmts := [.labeled .absent ⟨"a", .absent⟩ (.block .absent [
      .labeled .absent ⟨"a", .absent⟩
        (.forEach .absent ⟨⟨"x", .absent⟩, .named .absent "int", none, false, none⟩
          (.name .absent (.unbound "xs")) (some (.continueTo .absent (some ⟨"a", .absent⟩)))
          .initial)] .initial)]
    facts := .initial
  }

/-- A continue by a repeated label goes on with the inner loop in both passes. -/
theorem repeatsLabel_selectsSame :
    ∃ site generated,
      (checkMethod .builtin .standard .repeatsLabel .initial).node.flowSite? .standard
          (checkMethod .builtin .standard .repeatsLabel .initial).state 0
          [.body, .item 0, .body, .body] = some site ∧
        (loweringContext .builtin .standard .repeatsLabel).methodSite?
            (analyzedMethod .builtin .standard .repeatsLabel).node .empty 0
            [.body, .item 0, .body, .body] = some generated ∧
        ∃ changed, site.point.jumps.recordContinue (some "a") site.point.flow = .ok changed ∧
          ∃ index record onBreak onContinue,
            JumpStack.Selects site.point.jumps generated.targets index (.loop record)
                (.loop (record.addContinue site.point.flow)) (.loop onBreak onContinue) changed ∧
              ∀ label, onContinue = some label →
                JumpTarget.ofContinue generated.targets (some "a") = .ok label := by
  have recorded : ((checkMethod .builtin .standard .repeatsLabel .initial).node.flowSite? .standard
      (checkMethod .builtin .standard .repeatsLabel .initial).state 0
      [.body, .item 0, .body, .body]).any (fun site =>
        (site.point.jumps.recordContinue (some "a") site.point.flow).toOption.isSome) = true := by
    decide +kernel
  have hasCode : ((loweringContext .builtin .standard .repeatsLabel).methodSite?
      (analyzedMethod .builtin .standard .repeatsLabel).node .empty 0
      [.body, .item 0, .body, .body]).isSome = true := by
    decide +kernel
  obtain ⟨site, isSite, isRecorded⟩ := (Option.any_eq_true _ _).mp recorded
  obtain ⟨generated, isGenerated⟩ := Option.isSome_iff_exists.mp hasCode
  obtain ⟨-, -, selects⟩ := Method.jumps_selectSame isSite isGenerated
  cases changes : site.point.jumps.recordContinue (some "a") site.point.flow with
  | error cause =>
      simp [changes, Except.toOption] at isRecorded
  | ok changed =>
      exact ⟨site, generated, isSite, isGenerated, changed, changes,
        (selects (some "a") site.point.flow changed).2 changes⟩

end LoopLowering
