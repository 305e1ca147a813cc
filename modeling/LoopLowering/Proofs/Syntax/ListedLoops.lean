import LoopLowering.Proofs.Code.PartPaths
import LoopLowering.Syntax.Traversal
import Mathlib.Data.List.Forall2
import Mathlib.Data.List.Sort

namespace LoopLowering

/-!
# Listed loops

The listing of the loops of a method has one entry for each path that leads to a loop, in
the order of the source, whether flow analysis reaches the loop or not. The depth of an
entry is the number of loops that its path goes through. These are the loops that a
traversal of the method meets, in the order in which it meets them.
-/

/-- Where a function that may fail succeeds, it gives the values that are filtered. -/
theorem forall₂_filterMap
    {α β : Type}
    (f : α → Option β)
    (items : List α) :
    List.Forall₂ (fun item value => f item = some value)
      (items.filter fun item => (f item).isSome) (items.filterMap f) := by
  induction items with
  | nil =>
      exact .nil
  | cons item rest inductionHypothesis =>
      cases found : f item with
      | none =>
          simpa [found] using inductionHypothesis
      | some value =>
          simpa [found] using inductionHypothesis

namespace Stmt

/-- The entry of a statement in the listing, if it is a loop, inside a number of loops. -/
def summary?
    (depth : Nat) :
    Stmt → Option LoopSummary
  | .forEach span element _ _ facts => some ⟨span, element.name.node, depth, facts⟩
  | _ => none

/-- The number of loops around the part of a statement at the end of a path: of the parts on
the way there, the last one left out, those that are loops. -/
def loopsAround
    (stmt : Stmt)
    (path : List TreeStep) :
    Nat :=
  (List.range path.length).countP fun length => (stmt.partAt? (path.take length)).any isLoop

/-- The entry of the loop at the end of a path in a statement that stands inside a number of
loops. -/
def loopAt?
    (depth : Nat)
    (stmt : Stmt)
    (path : List TreeStep) :
    Option LoopSummary :=
  (stmt.partAt? path).bind (summary? (depth + stmt.loopsAround path))

/-- The statements that have an entry are the loops. -/
theorem isSome_summary?
    (depth : Nat)
    (stmt : Stmt) :
    (stmt.summary? depth).isSome = stmt.isLoop := by
  cases stmt <;> rfl

/-- No loop is around the statement itself. -/
theorem loopsAround_nil
    (stmt : Stmt) :
    stmt.loopsAround [] = 0 :=
  rfl

/-- The loops around a part of a statement are the statement, if it is a loop, and those of
the part that the first step leads to. -/
theorem loopsAround_cons
    {stmt part : Stmt}
    {step : TreeStep}
    (isPart : stmt.child? step = some part)
    (path : List TreeStep) :
    stmt.loopsAround (step :: path) = stmt.isLoop.toNat + part.loopsAround path := by
  simp only [loopsAround, List.length_cons, List.range_succ_eq_map, List.countP_cons,
    List.countP_map, Function.comp_def, List.take_zero, List.take_succ_cons, partAt?, isPart,
    Option.bind_some, Option.any_some]
  cases stmt.isLoop <;> simp [Nat.add_comm]

/-- The entry at the end of a path is the one in the part that the first step leads to. -/
theorem loopAt?_cons
    {stmt part : Stmt}
    {step : TreeStep}
    (isPart : stmt.child? step = some part)
    (depth : Nat)
    (path : List TreeStep) :
    stmt.loopAt? depth (step :: path) = part.loopAt? (depth + stmt.isLoop.toNat) path := by
  simp [loopAt?, partAt?, isPart, loopsAround_cons isPart, Nat.add_assoc]

/-- The loops of a list of statements are those of each of them, in order. -/
theorem loopsAtAll_eq
    (depth : Nat)
    (stmts : List Stmt) :
    loopsAtAll depth stmts = stmts.flatMap (loopsAt depth) := by
  induction stmts with
  | nil =>
      rfl
  | cons stmt rest inductionHypothesis =>
      rw [loopsAtAll, inductionHypothesis, List.flatMap_cons]

/-- A loop is listed before the loops in it, and the parts of a statement are gone through in
the order of the source. -/
theorem loopsAt_eq
    (depth : Nat)
    (stmt : Stmt) :
    stmt.loopsAt depth =
      (stmt.summary? depth).toList ++
        stmt.children.flatMap fun child => child.2.loopsAt (depth + stmt.isLoop.toNat) := by
  cases stmt with
  | block span stmts facts =>
      have items : stmts.flatMap (loopsAt depth) =
          stmts.zipIdx.flatMap fun item => item.1.loopsAt depth := by
        conv_lhs => rw [← List.zipIdx_map_fst 0 stmts, List.flatMap_map]
      simp [loopsAt, loopsAtAll_eq, summary?, children, isLoop, List.flatMap_map, items]
  | branch span condition thenBranch elseBranch =>
      cases elseBranch <;> simp [loopsAt, summary?, children, isLoop]
  | forEach span element collection action facts =>
      cases action <;> simp [loopsAt, summary?, children, isLoop]
  | _ =>
      simp [loopsAt, summary?, children, isLoop]

/-- The loops that are listed are those at the ends of paths, in the order of the paths. -/
theorem filterMap_paths
    (stmt : Stmt) :
    ∀ depth : Nat, stmt.paths.filterMap (stmt.loopAt? depth) = stmt.loopsAt depth := by
  induction stmt using ofChildren with
  | ofParts stmt inductionHypothesis =>
      -- The depth is left open, as the parts of a loop are one deeper than the loop.
      intro depth
      have inner : ∀ child ∈ stmt.children,
          (child.2.paths.map fun path => child.1 :: path).filterMap (stmt.loopAt? depth) =
            child.2.loopsAt (depth + stmt.isLoop.toNat) := by
        intro child isChild
        rw [← inductionHypothesis child isChild, List.filterMap_map]
        exact List.filterMap_congr fun path _ =>
          loopAt?_cons (mem_children.mp isChild) depth path
      have here : stmt.loopAt? depth [] = stmt.summary? depth := by
        simp [loopAt?, partAt?, loopsAround_nil]
      rw [loopsAt_eq, paths_eq, ← List.singleton_append, List.filterMap_append,
        List.filterMap_flatMap, List.flatMap_congr inner]
      cases isEntry : stmt.summary? depth <;> simp [here, isEntry]

end Stmt

/-- What a traversal tells about a loop that it meets: where the loop stands, and the name of
its element. -/
def VisitedNode.loopHead? :
    VisitedNode → Option (Span × String)
  | .loop span element => some (span, element.name.node)
  | _ => none

mutual

/-- No loop is met in an expression. -/
@[simp] theorem Expr.filterMap_loopHead :
    ∀ expr : Expr, (expr.visits fun _ => true).filterMap VisitedNode.loopHead? = []
  | .intLit .. | .boolLit .. | .stringLit .. | .null _ | .name .. => by
      simp [Expr.visits, visitNode, VisitedNode.loopHead?]
  | .newArray _ _ elements => by
      simp [Expr.visits, visitNode, List.filterMap_cons, VisitedNode.loopHead?,
        Expr.filterMap_allLoopHeads elements]
  | .binary _ _ left right => by
      simp [Expr.visits, visitNode, List.filterMap_cons, VisitedNode.loopHead?,
        Expr.filterMap_loopHead left, Expr.filterMap_loopHead right]
  | .assign _ _ _ value => by
      simp [Expr.visits, visitNode, List.filterMap_cons, VisitedNode.loopHead?,
        Expr.filterMap_loopHead value]
  | .call _ _ args => by
      simp [Expr.visits, visitNode, List.filterMap_cons, VisitedNode.loopHead?,
        Expr.filterMap_allLoopHeads args]
  | .methodCall _ receiver _ args => by
      simp [Expr.visits, visitNode, List.filterMap_cons, VisitedNode.loopHead?,
        Expr.filterMap_loopHead receiver, Expr.filterMap_allLoopHeads args]

theorem Expr.filterMap_allLoopHeads :
    ∀ exprs : List Expr,
      (Expr.visitsAll (fun _ => true) exprs).filterMap VisitedNode.loopHead? = []
  | [] => by
      simp [Expr.visitsAll]
  | expr :: rest => by
      simp [Expr.visitsAll, Expr.filterMap_loopHead expr, Expr.filterMap_allLoopHeads rest]

end

/-- No loop is met in a declaration. -/
@[simp] theorem LocalDecl.filterMap_loopHead
    (decl : LocalDecl) :
    (decl.visits fun _ => true).filterMap VisitedNode.loopHead? = [] := by
  cases initial : decl.initial <;>
    simp [LocalDecl.visits, visitNode, List.filterMap_cons, VisitedNode.loopHead?, initial,
      Expr.filterMap_loopHead]

/-- Where a listed loop stands, and the name of its element. -/
def LoopSummary.head
    (loop : LoopSummary) :
    Span × String :=
  (loop.span, loop.element)

mutual

/-- The loops that are met in a statement are those that are listed. -/
theorem Stmt.filterMap_loopHead :
    ∀ (stmt : Stmt) (depth : Nat),
      (stmt.visits fun _ => true).filterMap VisitedNode.loopHead? =
        (stmt.loopsAt depth).map LoopSummary.head
  | .block _ stmts _, depth => by
      simp [Stmt.visits, visitNode, List.filterMap_cons, VisitedNode.loopHead?, Stmt.loopsAt,
        Stmt.filterMap_allLoopHeads stmts depth]
  | .branch _ _ thenBranch none, depth => by
      simp [Stmt.visits, visitNode, List.filterMap_cons, VisitedNode.loopHead?, Stmt.loopsAt,
        Stmt.filterMap_loopHead thenBranch depth]
  | .branch _ _ thenBranch (some elseBranch), depth => by
      simp [Stmt.visits, visitNode, List.filterMap_cons, VisitedNode.loopHead?, Stmt.loopsAt,
        Stmt.filterMap_loopHead thenBranch depth, Stmt.filterMap_loopHead elseBranch depth]
  | .forEach _ _ _ none _, _ => by
      simp [Stmt.visits, visitNode, List.filterMap_cons, VisitedNode.loopHead?, Stmt.loopsAt,
        LoopSummary.head]
  | .forEach _ _ _ (some action) _, depth => by
      simp [Stmt.visits, visitNode, List.filterMap_cons, VisitedNode.loopHead?, Stmt.loopsAt,
        LoopSummary.head, Stmt.filterMap_loopHead action (depth + 1)]
  | .labeled _ _ body, depth => by
      simp [Stmt.visits, visitNode, List.filterMap_cons, VisitedNode.loopHead?, Stmt.loopsAt,
        Stmt.filterMap_loopHead body depth]
  | .localVar .., _ | .expr .., _ | .returnWith _ (some _), _ => by
      simp [Stmt.visits, visitNode, List.filterMap_cons, VisitedNode.loopHead?, Stmt.loopsAt]
  | .returnWith _ none, _ | .breakTo .., _ | .continueTo .., _ | .empty _, _ => by
      simp [Stmt.visits, visitNode, VisitedNode.loopHead?, Stmt.loopsAt]

theorem Stmt.filterMap_allLoopHeads :
    ∀ (stmts : List Stmt) (depth : Nat),
      (Stmt.visitsAll (fun _ => true) stmts).filterMap VisitedNode.loopHead? =
        (Stmt.loopsAtAll depth stmts).map LoopSummary.head
  | [], _ => by
      simp [Stmt.visitsAll, Stmt.loopsAtAll]
  | stmt :: rest, depth => by
      simp [Stmt.visitsAll, Stmt.loopsAtAll, Stmt.filterMap_loopHead stmt depth,
        Stmt.filterMap_allLoopHeads rest depth]

end

namespace Method

/-- A listing of loops along paths: each path to a loop of the method is there once, a loop
comes before the loops in it and otherwise the order is that of the source, and the entry for
a path is that of the loop at its end. -/
structure ListsLoops
    (method : Method)
    (paths : List (List TreeStep))
    (loops : List LoopSummary) :
    Prop where
  inOrder : paths.Pairwise (List.Lex TreeStep.ComesBefore)
  mem_iff : ∀ path : List TreeStep,
    path ∈ paths ↔ ∃ part, method.block.partAt? path = some part ∧ part.isLoop = true
  entries : List.Forall₂ (fun path loop => method.block.loopAt? 0 path = some loop) paths loops

variable
  {method : Method}

/-- The order of the source leaves one listing. -/
theorem ListsLoops.unique
    {paths others : List (List TreeStep)}
    {loops found : List LoopSummary}
    (lists : method.ListsLoops paths loops)
    (listsOthers : method.ListsLoops others found) :
    loops = found := by
  -- Paths in strictly ascending order are settled by which of them there are.
  have samePaths : paths = others :=
    lists.inOrder.eq_of_mem_iff listsOthers.inOrder fun path =>
      (lists.mem_iff path).trans (listsOthers.mem_iff path).symm
  subst samePaths
  have isFunction : Relator.RightUnique fun path loop => method.block.loopAt? 0 path = some loop :=
    fun path loop other isLoop isOther => Option.some.inj (isLoop.symm.trans isOther)
  exact List.right_unique_forall₂' isFunction lists.entries listsOthers.entries

/-- The listing of a method goes along the paths to its loops. -/
theorem listsLoops
    (method : Method) :
    method.ListsLoops
      (method.block.paths.filter fun path => (method.block.loopAt? 0 path).isSome)
      method.loops := by
  constructor
  case inOrder =>
    exact method.block.pairwise_paths.filter _
  case mem_iff =>
    intro path
    simp only [List.mem_filter, Stmt.mem_paths, Stmt.loopAt?]
    cases isPart : method.block.partAt? path <;> simp [Stmt.isSome_summary?]
  case entries =>
    have isListing : method.loops = method.block.paths.filterMap (method.block.loopAt? 0) := by
      rw [Stmt.filterMap_paths]
      rfl
    rw [isListing]
    exact forall₂_filterMap _ _

/-- There is exactly one listing of the loops of a method in the order of the source: the one
that the method gives. A traversal of the method meets the same loops in the same order. -/
theorem listsLoops_iff
    (method : Method) :
    (∀ loops : List LoopSummary,
      (∃ paths, method.ListsLoops paths loops) ↔ loops = method.loops) ∧
    method.visits.filterMap VisitedNode.loopHead? = method.loops.map LoopSummary.head := by
  refine ⟨fun loops => ⟨?_, ?_⟩, ?_⟩
  · rintro ⟨paths, lists⟩
    exact lists.unique method.listsLoops
  · rintro rfl
    exact ⟨_, method.listsLoops⟩
  · simpa [visits, visitsWhere, visitNode, List.filterMap_cons, VisitedNode.loopHead?, loops]
      using Stmt.filterMap_allLoopHeads method.body.stmts 0

/-- The loop in the loop is listed before the loop in the other branch, and the one behind the
return statement last. -/
example :
    let name (text : String) : Expr := .name .absent (.unbound text)
    let loop (element : String) (action : Option Stmt) : Stmt :=
      .forEach .absent ⟨⟨element, .absent⟩, .named .absent "int", none, false, none⟩ (name "xs")
        action .initial
    let inner : Stmt := .labeled .absent ⟨"label", .absent⟩ (loop "b" none)
    let stmts : List Stmt :=
      [.branch .absent (name "flag") (loop "a" (some inner)) (some (loop "c" none)),
        .returnWith .absent none, loop "d" none]
    let method : Method :=
      ⟨⟨"m", .absent⟩, [], [], none, ⟨.absent, stmts, ⟨none, some 2⟩⟩⟩
    method.loops.map (fun loop => (loop.element, loop.depth)) =
      [("a", 0), ("b", 1), ("c", 0), ("d", 0)] :=
  rfl

end Method

end LoopLowering
