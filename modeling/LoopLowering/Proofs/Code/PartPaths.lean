import LoopLowering.Proofs.Code.TreePaths
import Mathlib.Data.List.Lex
import Mathlib.Data.List.Nodup

namespace LoopLowering

/-!
# Paths to parts

The parts of a statement are told apart by the paths that lead to them. All of them are
listed by their paths in the order of the source, a part before the parts in it; those
that pass a test, each part once, in the order in which their code ends.
-/

/-- Whether a step from a statement leads to an earlier part than another step from it. -/
inductive TreeStep.ComesBefore :
    TreeStep → TreeStep → Prop where
  | item {index later : Nat} (isLess : index < later) : ComesBefore (.item index) (.item later)
  | branch : ComesBefore .thenBranch .elseBranch

/-- Of two steps at most one leads to an earlier part. -/
instance : Std.Asymm TreeStep.ComesBefore where
  asymm := by
    rintro _ _ (isLess | _) (isGreater | _)
    exact Nat.lt_asymm isLess isGreater

namespace Stmt

/-- The part of a statement that a step leads to. -/
def child? :
    Stmt → TreeStep → Option Stmt
  | .block _ stmts _, .item index => stmts[index]?
  | .branch _ _ thenBranch _, .thenBranch => some thenBranch
  | .branch _ _ _ elseBranch, .elseBranch => elseBranch
  | .forEach _ _ _ action _, .body => action
  | .labeled _ _ body, .body => some body
  | _, _ => none

/-- The part of a statement at the end of a path. -/
def partAt? :
    List TreeStep → Stmt → Option Stmt
  | [], stmt => some stmt
  | step :: path, stmt => (stmt.child? step).bind (partAt? path)

/-- The steps from a statement with the parts that they lead to, in the order of the
source. -/
def children :
    Stmt → List (TreeStep × Stmt)
  | .block _ stmts _ => stmts.zipIdx.map fun item => (.item item.2, item.1)
  | .branch _ _ thenBranch none => [(.thenBranch, thenBranch)]
  | .branch _ _ thenBranch (some elseBranch) =>
      [(.thenBranch, thenBranch), (.elseBranch, elseBranch)]
  | .forEach _ _ _ (some action) _ => [(.body, action)]
  | .labeled _ _ body => [(.body, body)]
  | .forEach _ _ _ none _ | .localVar .. | .expr .. | .breakTo .. | .continueTo ..
  | .returnWith .. | .empty _ => []

/-- The steps that are listed are those that lead to a part. -/
theorem mem_children
    {stmt part : Stmt}
    {step : TreeStep} :
    (step, part) ∈ stmt.children ↔ stmt.child? step = some part := by
  cases stmt with
  | block span stmts facts =>
      cases step <;> simp [children, child?, List.mem_zipIdx_iff_getElem?]
  | branch span condition thenBranch elseBranch =>
      cases elseBranch <;> cases step <;> simp [children, child?, eq_comm]
  | forEach span element collection action facts =>
      cases action <;> cases step <;> simp [children, child?, eq_comm]
  | labeled span label body =>
      cases step <;> simp [children, child?, eq_comm]
  | _ =>
      simp [children, child?]

/-- The parts of a statement are listed in the order of the source. -/
theorem pairwise_children
    (stmt : Stmt) :
    stmt.children.Pairwise fun first second => first.1.ComesBefore second.1 := by
  cases stmt with
  | block span stmts facts =>
      -- The positions in the list ascend, whatever the statements are.
      have ascends : (stmts.zipIdx.map Prod.snd).Pairwise (· < ·) := by
        rw [List.zipIdx_map_snd]
        exact List.pairwise_lt_range'
      exact List.pairwise_map.mpr ((List.pairwise_map.mp ascends).imp .item)
  | branch span condition thenBranch elseBranch =>
      cases elseBranch with
      | none => exact List.pairwise_singleton _ _
      | some elseBranch => exact List.pairwise_pair.mpr .branch
  | forEach span element collection action facts =>
      cases action with
      | none => exact .nil
      | some action => exact List.pairwise_singleton _ _
  | labeled span label body =>
      exact List.pairwise_singleton _ _
  | _ =>
      exact .nil

/-- A part of a statement is smaller. -/
theorem sizeOf_child
    {stmt : Stmt}
    {child : TreeStep × Stmt}
    (isChild : child ∈ stmt.children) :
    sizeOf child.2 < sizeOf stmt := by
  cases stmt with
  | block span stmts facts =>
      obtain ⟨item, isItem, rfl⟩ := List.mem_map.mp isChild
      have smaller := List.sizeOf_lt_of_mem (List.fst_mem_of_mem_zipIdx isItem)
      simp only [block.sizeOf_spec]
      omega
  | branch span condition thenBranch elseBranch =>
      cases elseBranch with
      | none =>
          obtain rfl := List.mem_singleton.mp isChild
          simp only [branch.sizeOf_spec]
          omega
      | some elseBranch =>
          rcases List.mem_pair.mp isChild with rfl | rfl <;>
            simp only [branch.sizeOf_spec, Option.some.sizeOf_spec] <;> omega
  | forEach span element collection action facts =>
      cases action with
      | none =>
          cases isChild
      | some action =>
          obtain rfl := List.mem_singleton.mp isChild
          simp only [forEach.sizeOf_spec, Option.some.sizeOf_spec]
          omega
  | labeled span label body =>
      obtain rfl := List.mem_singleton.mp isChild
      simp only [labeled.sizeOf_spec]
      omega
  | _ =>
      cases isChild

/-- What holds of a statement once it holds of its parts holds of every statement. -/
@[elab_as_elim]
theorem ofChildren
    {motive : Stmt → Prop}
    (ofParts : ∀ stmt : Stmt, (∀ child ∈ stmt.children, motive child.2) → motive stmt)
    (stmt : Stmt) :
    motive stmt :=
  ofParts stmt fun child _ => ofChildren ofParts child.2
termination_by sizeOf stmt
decreasing_by exact sizeOf_child ‹_›

/-- The paths to the parts of a statement in the order of the source, the path to a part
before those to the parts in it. -/
def paths
    (stmt : Stmt) :
    List (List TreeStep) :=
  [] :: stmt.children.attach.flatMap fun child =>
    child.val.2.paths.map fun path => child.val.1 :: path
termination_by sizeOf stmt
decreasing_by exact sizeOf_child child.property

/-- The paths to the parts of a statement go through the parts that one step leads to. -/
theorem paths_eq
    (stmt : Stmt) :
    stmt.paths =
      [] :: stmt.children.flatMap fun child => child.2.paths.map fun path => child.1 :: path := by
  rw [paths, List.flatMap_subtype, List.unattach_attach]
  simp

/-- A path that goes through the parts of a statement goes on in the part that its first step
leads to. -/
theorem mem_flatMap_children
    {listed : Stmt → List (List TreeStep)}
    {stmt : Stmt}
    {step : TreeStep}
    {path : List TreeStep} :
    (step :: path ∈ stmt.children.flatMap fun child =>
        (listed child.2).map fun path => child.1 :: path) ↔
      ∃ part, stmt.child? step = some part ∧ path ∈ listed part := by
  simp only [List.mem_flatMap, List.mem_map, List.cons.injEq]
  constructor
  · rintro ⟨⟨_, part⟩, isChild, _, isListed, rfl, rfl⟩
    exact ⟨part, mem_children.mp isChild, isListed⟩
  · rintro ⟨part, isPart, isListed⟩
    exact ⟨(step, part), mem_children.mpr isPart, path, isListed, rfl, rfl⟩

/-- The paths that are listed are those that lead to a part. -/
theorem mem_paths
    {stmt : Stmt}
    {path : List TreeStep} :
    path ∈ stmt.paths ↔ ∃ part, stmt.partAt? path = some part := by
  induction path generalizing stmt with
  | nil =>
      simp [paths_eq stmt, partAt?]
  | cons step path inductionHypothesis =>
      rw [paths_eq, List.mem_cons, mem_flatMap_children]
      cases isPart : stmt.child? step <;> simp [partAt?, isPart, inductionHypothesis]

/-- The paths to the parts of a statement are listed in the order of the source, each of them
once. -/
theorem pairwise_paths
    (stmt : Stmt) :
    stmt.paths.Pairwise (List.Lex TreeStep.ComesBefore) := by
  induction stmt using ofChildren with
  | ofParts stmt inductionHypothesis =>
      rw [paths_eq, List.pairwise_cons, List.pairwise_flatMap]
      refine ⟨?_, ?_, ?_⟩
      · intro path isInner
        obtain ⟨child, -, isPath⟩ := List.mem_flatMap.mp isInner
        obtain ⟨inner, -, rfl⟩ := List.mem_map.mp isPath
        exact .nil
      · intro child isChild
        exact List.pairwise_map.mpr ((inductionHypothesis child isChild).imp .cons)
      · refine stmt.pairwise_children.imp fun {first second} isEarlier => ?_
        intro earlier inFirst later inSecond
        obtain ⟨inner, -, rfl⟩ := List.mem_map.mp inFirst
        obtain ⟨other, -, rfl⟩ := List.mem_map.mp inSecond
        exact .rel isEarlier

/-- The path to a statement itself, if it passes a test. -/
def pathHere
    (test : Stmt → Bool)
    (stmt : Stmt) :
    List (List TreeStep) :=
  if test stmt then [[]] else []

mutual

/-- The paths to the parts of a statement that pass a test, inner parts before those
around them. -/
def pathsTo
    (test : Stmt → Bool) :
    Stmt → List (List TreeStep)
  | .block span stmts facts =>
      (allPathsTo test stmts).map (fun entry => .item entry.1 :: entry.2) ++
        pathHere test (.block span stmts facts)
  | .branch span condition thenBranch none =>
      (pathsTo test thenBranch).map (fun path => .thenBranch :: path) ++
        pathHere test (.branch span condition thenBranch none)
  | .branch span condition thenBranch (some elseBranch) =>
      (pathsTo test thenBranch).map (fun path => .thenBranch :: path) ++
        ((pathsTo test elseBranch).map (fun path => .elseBranch :: path) ++
          pathHere test (.branch span condition thenBranch (some elseBranch)))
  | .forEach span element collection (some action) facts =>
      (pathsTo test action).map (fun path => .body :: path) ++
        pathHere test (.forEach span element collection (some action) facts)
  | .labeled span label body =>
      (pathsTo test body).map (fun path => .body :: path) ++
        pathHere test (.labeled span label body)
  | stmt => pathHere test stmt

/-- The paths to the parts of statements that pass a test, each with the number of the
statement it begins at. -/
def allPathsTo
    (test : Stmt → Bool) :
    List Stmt → List (Nat × List TreeStep)
  | [] => []
  | stmt :: rest =>
      (pathsTo test stmt).map (fun path => (0, path)) ++
        (allPathsTo test rest).map (fun entry => (entry.1 + 1, entry.2))

end

variable
  {test : Stmt → Bool}

/-- The path to a statement itself is the one without steps. -/
theorem mem_pathHere
    {stmt : Stmt}
    {path : List TreeStep} :
    path ∈ pathHere test stmt ↔ path = [] ∧ test stmt = true := by
  unfold pathHere
  split
  · next passes => simp [passes]
  · next fails => simp [fails]

/-- There is at most one path to a statement itself. -/
theorem nodup_pathHere
    (test : Stmt → Bool)
    (stmt : Stmt) :
    (pathHere test stmt).Nodup := by
  unfold pathHere
  split <;> simp

/-- The paths to the parts of a list of statements are those to the parts of each of them,
in order. -/
theorem map_allPathsTo
    (stmts : List Stmt)
    (first : Nat) :
    (allPathsTo test stmts).map (fun entry => TreeStep.item (first + entry.1) :: entry.2) =
      (stmts.zipIdx first).flatMap fun item =>
        (item.1.pathsTo test).map fun path => .item item.2 :: path := by
  induction stmts generalizing first with
  | nil =>
      rfl
  | cons stmt rest inductionHypothesis =>
      simp [allPathsTo, ← inductionHypothesis, Function.comp_def, Nat.add_assoc, Nat.add_comm 1]

/-- The paths to the parts of a statement go through the parts that one step leads to. -/
theorem pathsTo_eq
    (stmt : Stmt) :
    stmt.pathsTo test =
      (stmt.children.flatMap fun child =>
        (child.2.pathsTo test).map fun path => child.1 :: path) ++ pathHere test stmt := by
  cases stmt with
  | block span stmts facts =>
      have items := @map_allPathsTo test stmts 0
      simp only [Nat.zero_add] at items
      simp [pathsTo, children, items, List.flatMap_map]
  | branch span condition thenBranch elseBranch =>
      cases elseBranch <;> simp [pathsTo, children]
  | forEach span element collection action facts =>
      cases action <;> simp [pathsTo, children]
  | _ =>
      simp [pathsTo, children]

/-- The paths lead to the parts that pass the test, and to each of them one does. -/
theorem mem_pathsTo
    {stmt : Stmt}
    {path : List TreeStep} :
    path ∈ stmt.pathsTo test ↔ ∃ part, stmt.partAt? path = some part ∧ test part = true := by
  induction path generalizing stmt with
  | nil =>
      simp [pathsTo_eq stmt, mem_pathHere, partAt?]
  | cons step path inductionHypothesis =>
      rw [pathsTo_eq, List.mem_append, mem_flatMap_children]
      cases isPart : stmt.child? step <;>
        simp [partAt?, isPart, mem_pathHere, inductionHypothesis]

theorem mem_allPathsTo
    {stmts : List Stmt}
    {index : Nat}
    {path : List TreeStep} :
    (index, path) ∈ allPathsTo test stmts ↔
      ∃ part, stmts[index]?.bind (partAt? path) = some part ∧ test part = true := by
  induction stmts generalizing index with
  | nil =>
      simp [allPathsTo]
  | cons stmt rest inductionHypothesis =>
      cases index <;> simp [allPathsTo, mem_pathsTo, inductionHypothesis]

/-- No path that begins with a step leads to the statement itself. -/
theorem disjoint_pathHere
    {paths : List (List TreeStep)}
    (begins : [] ∉ paths)
    (nodup : paths.Nodup)
    (stmt : Stmt) :
    (paths ++ pathHere test stmt).Nodup := by
  refine List.nodup_append.mpr ⟨nodup, nodup_pathHere test stmt, fun path member other here => ?_⟩
  rintro rfl
  exact begins ((mem_pathHere.mp here).1 ▸ member)

/-- Each part that passes the test has one path. -/
theorem nodup_pathsTo
    (test : Stmt → Bool)
    (stmt : Stmt) :
    (stmt.pathsTo test).Nodup := by
  induction stmt using ofChildren with
  | ofParts stmt inductionHypothesis =>
      rw [pathsTo_eq]
      refine disjoint_pathHere (by simp) (List.nodup_flatMap.mpr ⟨?_, ?_⟩) stmt
      · intro child isChild
        exact (inductionHypothesis child isChild).map List.cons_injective
      · refine stmt.pairwise_children.imp fun {first second} isEarlier => ?_
        intro path inFirst inSecond
        obtain ⟨inner, -, rfl⟩ := List.mem_map.mp inFirst
        obtain ⟨other, -, same⟩ := List.mem_map.mp inSecond
        rw [(List.cons.inj same).1] at isEarlier
        exact Std.Irrefl.irrefl _ isEarlier

theorem nodup_allPathsTo
    (test : Stmt → Bool)
    (stmts : List Stmt) :
    (allPathsTo test stmts).Nodup := by
  induction stmts with
  | nil =>
      exact .nil
  | cons stmt rest inductionHypothesis =>
      rw [allPathsTo]
      refine List.nodup_append.mpr ⟨(nodup_pathsTo test stmt).map ?_,
        inductionHypothesis.map ?_, ?_⟩
      · exact fun _ _ same => (Prod.mk.inj same).2
      · rintro ⟨index, path⟩ ⟨other, otherPath⟩ same
        simp only [Prod.mk.injEq, Nat.add_right_cancel_iff] at same
        exact Prod.ext same.1 same.2
      · intro entry inFirst other inRest
        obtain ⟨path, -, rfl⟩ := List.mem_map.mp inFirst
        obtain ⟨later, -, rfl⟩ := List.mem_map.mp inRest
        simp

end Stmt

/-- The part of the body of a method at the end of a path. -/
def Method.partAt?
    (method : Method)
    (item : Nat)
    (path : List TreeStep) :
    Option Stmt :=
  method.body.stmts[item]?.bind (Stmt.partAt? path)

end LoopLowering
