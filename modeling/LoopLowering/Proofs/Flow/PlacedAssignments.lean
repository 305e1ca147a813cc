import LoopLowering.Proofs.Flow.GuardedStatements
import LoopLowering.Proofs.Resolution.PlacedStatements

namespace LoopLowering

/-!
# Assignments of statements in their place

Of the locals that are declared before a statement, its executions assign only
those that the block scope around it sees. Final locals that are declared inside
blocks are out of sight behind them.
-/

/-- A local that a statement in its place may assign: one that it declares, or an
older one that the block scope around it sees. -/
def MethodScope.Touches
    (scopes : MethodScope)
    (block first last : Nat)
    (id : LocalId) :
    Prop :=
  first ≤ id ∧ id < last ∨ scopes.Sees block first id

namespace MethodScope.Touches

variable
  {scopes : MethodScope}
  {block inner first middle last limit : Nat}
  {id : LocalId}
  {trace : LocalTrace}

/-- What the first of two statements touches. -/
theorem ofFirst
    (touches : scopes.Touches block first middle id)
    (grows : middle ≤ last) :
    scopes.Touches block first last id :=
  touches.imp_left fun within => ⟨within.1, Nat.lt_of_lt_of_le within.2 grows⟩

/-- What the second of two statements touches. -/
theorem ofSecond
    (touches : scopes.Touches block middle last id)
    (before : first ≤ middle)
    (grows : middle ≤ last) :
    scopes.Touches block first last id := by
  rcases touches with ⟨after, isBefore⟩ | ⟨older, sees⟩
  · exact .inl ⟨Nat.le_trans before after, isBefore⟩
  · rcases Nat.lt_or_ge id first with oldest | after
    · exact .inr ⟨oldest, sees⟩
    · exact .inl ⟨after, Nat.lt_of_lt_of_le older grows⟩

/-- What an expression assigns. -/
theorem ofSeen
    (sees : scopes.SeesAssigned block limit trace)
    (atLeast : first ≤ limit)
    (atMost : limit ≤ last)
    (assigned : .assign id ∈ trace) :
    scopes.Touches block first last id :=
  (show scopes.Touches block limit last id from .inr (sees id assigned)).ofSecond atLeast atMost

/-- What is touched in a block scope that has been opened. -/
theorem ofInner
    (wellFormed : scopes.WellFormed)
    (opens : scopes.Opens block first inner)
    (touches : scopes.Touches inner first last id) :
    scopes.Touches block first last id := by
  refine touches.imp_right fun sees => ⟨sees.1, ?_⟩
  have home := sees.2
  rw [wellFormed.enclosing_eq inner, opens.parent] at home
  rcases List.mem_cons.mp home with isInner | around
  · exact absurd isInner (Nat.ne_of_lt (opens.fresh id sees.1))
  · exact around

end MethodScope.Touches

/-- A loop assigns its element and what its body does. -/
theorem Behaviour.Iterated.mem_assign
    {labels : List String}
    {element : Option LocalId}
    {body : Behaviour}
    {trace : LocalTrace}
    {outcome : TraceEnd}
    {id : LocalId}
    (iterated : Iterated labels element body trace outcome)
    (member : .assign id ∈ trace) :
    element = some id ∨ ∃ taken ending, body taken ending ∧ .assign id ∈ taken := by
  have isElement : LocalStep.assign id ∈ LocalTrace.ofBinding .assign element →
      element = some id := by
    cases element <;> simp [LocalTrace.ofBinding, eq_comm]
  induction iterated with
  | exhausted =>
      cases member
  | @again taken rest ending outcome isBody resumed goesOn inductionHypothesis =>
      rcases List.mem_append.mp member with inFirst | inRest
      · exact (List.mem_append.mp inFirst).imp isElement fun inBody =>
          ⟨taken, ending, isBody, inBody⟩
      · exact inductionHypothesis inRest
  | @broken taken isBody =>
      exact (List.mem_append.mp member).imp isElement fun inBody => ⟨taken, _, isBody, inBody⟩
  | @left taken ending isBody resumed notBreak =>
      exact (List.mem_append.mp member).imp isElement fun inBody => ⟨taken, _, isBody, inBody⟩

section Statements

variable
  {scopes : MethodScope}

mutual

/-- A statement in its place takes no locals back. -/
theorem MethodScope.Places.le :
    ∀ {stmt : Stmt} {block first last : Nat},
      scopes.Places stmt block first last → first ≤ last
  | .localVar .., _, first, last, placed => by
      simp only [Places] at placed
      obtain ⟨-, -, -, rfl, -⟩ := placed
      exact Nat.le_succ first
  | .expr .., _, _, _, placed | .returnWith _ (some _), _, _, _, placed => by
      simp only [Places] at placed
      exact Nat.le_of_eq placed.1.symm
  | .block _ stmts _, _, _, _, placed => by
      simp only [Places] at placed
      obtain ⟨inner, -, inside⟩ := placed
      exact MethodScope.PlacesAll.le inside
  | .branch _ _ thenBranch none, _, _, _, placed => by
      simp only [Places] at placed
      exact MethodScope.Places.le placed.2
  | .branch _ _ thenBranch (some elseBranch), _, _, _, placed => by
      simp only [Places] at placed
      obtain ⟨-, middle, isThen, isElse⟩ := placed
      exact Nat.le_trans (MethodScope.Places.le isThen) (MethodScope.Places.le isElse)
  | .forEach _ _ _ none _, _, _, _, placed => by
      simp only [Places] at placed
      obtain ⟨inner, loop⟩ := placed
      exact Nat.le_of_lt loop.declares
  | .forEach _ _ _ (some action) _, _, _, _, placed => by
      simp only [Places] at placed
      obtain ⟨inner, middle, loop, inside⟩ := placed
      exact Nat.le_trans (Nat.le_of_lt loop.declares) (MethodScope.Places.le inside)
  | .labeled _ _ body, _, _, _, placed => by
      simp only [Places] at placed
      exact MethodScope.Places.le placed
  | .breakTo .., _, _, _, placed | .continueTo .., _, _, _, placed
  | .returnWith _ none, _, _, _, placed | .empty _, _, _, _, placed => by
      simp only [Places] at placed
      exact Nat.le_of_eq placed.symm

theorem MethodScope.PlacesAll.le :
    ∀ {stmts : List Stmt} {block first last : Nat},
      scopes.PlacesAll stmts block first last → first ≤ last
  | [], _, _, _, placed => by
      simp only [PlacesAll] at placed
      exact Nat.le_of_eq placed.symm
  | stmt :: rest, _, _, _, placed => by
      simp only [PlacesAll] at placed
      obtain ⟨middle, head, tail⟩ := placed
      exact Nat.le_trans (MethodScope.Places.le head) (MethodScope.PlacesAll.le tail)

end

mutual

/-- Executions of a statement in its place assign only what it touches. -/
theorem touches_behaviour
    (wellFormed : scopes.WellFormed)
    {id : LocalId} :
    ∀ {stmt : Stmt} {labels : List String} {block first last : Nat} {trace : LocalTrace}
      {outcome : TraceEnd},
      scopes.Places stmt block first last →
      stmt.behaviour labels trace outcome →
      .assign id ∈ trace →
      scopes.Touches block first last id
  | .localVar _ decl, labels, block, first, last, _, _, placed, taken, assigned => by
      simp only [MethodScope.Places] at placed
      obtain ⟨isBound, -, -, rfl, sees⟩ := placed
      simp only [Stmt.behaviour] at taken
      obtain ⟨rfl, -⟩ := taken
      unfold LocalDecl.steps at assigned
      cases initial : decl.initial with
      | none =>
          simp [initial] at assigned
      | some value =>
          simp only [initial, isBound] at assigned
          rcases List.mem_append.mp assigned with inValue | isFirst
          · exact .ofSeen (sees value initial) (Nat.le_succ first) (Nat.le_refl _) inValue
          · obtain rfl : id = first := by
              simpa [LocalTrace.ofBinding] using isFirst
            exact .inl ⟨Nat.le_refl _, Nat.lt_succ_self _⟩
  | .expr _ value, labels, block, first, last, _, _, placed, taken, assigned
  | .returnWith _ (some value), labels, block, first, last, _, _, placed, taken, assigned => by
      simp only [MethodScope.Places] at placed
      obtain ⟨rfl, sees⟩ := placed
      simp only [Stmt.behaviour] at taken
      obtain ⟨rfl, -⟩ := taken
      exact .ofSeen sees (Nat.le_refl _) (Nat.le_refl _) assigned
  | .block _ stmts _, labels, block, first, last, _, _, placed, taken, assigned => by
      simp only [MethodScope.Places] at placed
      obtain ⟨inner, opens, inside⟩ := placed
      simp only [Stmt.behaviour] at taken
      exact .ofInner wellFormed opens (touches_allBehaviour wellFormed inside taken assigned)
  | .branch _ condition thenBranch none, labels, block, first, last, _, _, placed, taken,
      assigned => by
      simp only [MethodScope.Places] at placed
      obtain ⟨sees, inside⟩ := placed
      simp only [Stmt.behaviour] at taken
      rcases taken with ⟨_, _, rfl, ⟨rfl, -⟩, branch⟩ | ⟨⟨-, rfl⟩, notComplete⟩
      · rcases List.mem_append.mp assigned with inCondition | inBranch
        · exact .ofSeen sees (Nat.le_refl _) (MethodScope.Places.le inside) inCondition
        · rcases branch with isThen | ⟨rfl, -⟩
          · exact touches_behaviour wellFormed inside isThen inBranch
          · cases inBranch
      · exact absurd rfl notComplete
  | .branch _ condition thenBranch (some elseBranch), labels, block, first, last, _, _, placed,
      taken, assigned => by
      simp only [MethodScope.Places] at placed
      obtain ⟨sees, middle, inThen, inElse⟩ := placed
      have before := MethodScope.Places.le inThen
      have after := MethodScope.Places.le inElse
      simp only [Stmt.behaviour] at taken
      rcases taken with ⟨_, _, rfl, ⟨rfl, -⟩, branch⟩ | ⟨⟨-, rfl⟩, notComplete⟩
      · rcases List.mem_append.mp assigned with inCondition | inBranch
        · exact .ofSeen sees (Nat.le_refl _) (Nat.le_trans before after) inCondition
        · rcases branch with isThen | isElse
          · exact (touches_behaviour wellFormed inThen isThen inBranch).ofFirst after
          · exact (touches_behaviour wellFormed inElse isElse inBranch).ofSecond before after
      · exact absurd rfl notComplete
  | .forEach _ element collection none facts, labels, block, first, last, _, _, placed, taken,
      assigned => by
      simp only [MethodScope.Places] at placed
      obtain ⟨inner, loop⟩ := placed
      refine .ofInner wellFormed loop.opens ?_
      simp only [Stmt.behaviour] at taken
      rcases taken with ⟨_, _, rfl, ⟨rfl, -⟩, iterated⟩ | ⟨⟨-, rfl⟩, notComplete⟩
      · rcases List.mem_append.mp assigned with inCollection | inLoop
        · exact .ofSeen loop.collection (Nat.le_succ first) loop.declares inCollection
        · rcases iterated.mem_assign inLoop with isElement | ⟨_, _, ⟨rfl, -⟩, inBody⟩
          · rw [loop.binding, Option.some.injEq] at isElement
            exact .inl ⟨Nat.le_of_eq isElement, isElement ▸ loop.declares⟩
          · cases inBody
      · exact absurd rfl notComplete
  | .forEach _ element collection (some action) facts, labels, block, first, last, _, _, placed,
      taken, assigned => by
      simp only [MethodScope.Places] at placed
      obtain ⟨inner, middle, loop, inside⟩ := placed
      have after := MethodScope.Places.le inside
      refine .ofInner wellFormed loop.opens ?_
      simp only [Stmt.behaviour] at taken
      rcases taken with ⟨_, _, rfl, ⟨rfl, -⟩, iterated⟩ | ⟨⟨-, rfl⟩, notComplete⟩
      · rcases List.mem_append.mp assigned with inCollection | inLoop
        · exact .ofSeen loop.collection (Nat.le_succ first)
            (Nat.le_trans loop.declares after) inCollection
        · rcases iterated.mem_assign inLoop with isElement | ⟨_, _, isBody, inBody⟩
          · rw [loop.binding, Option.some.injEq] at isElement
            exact .inl ⟨Nat.le_of_eq isElement,
              isElement ▸ Nat.lt_of_lt_of_le loop.declares after⟩
          · exact (touches_behaviour wellFormed inside isBody inBody).ofSecond
              (Nat.le_of_lt loop.declares) after
      · exact absurd rfl notComplete
  | .labeled _ label body, labels, block, first, last, _, _, placed, taken, assigned => by
      simp only [MethodScope.Places] at placed
      simp only [Stmt.behaviour] at taken
      obtain ⟨ending, isBody, -⟩ := taken
      exact touches_behaviour wellFormed placed isBody assigned
  | .breakTo .., labels, block, first, last, _, _, _, taken, assigned
  | .continueTo .., labels, block, first, last, _, _, _, taken, assigned
  | .returnWith _ none, labels, block, first, last, _, _, _, taken, assigned
  | .empty _, labels, block, first, last, _, _, _, taken, assigned => by
      simp only [Stmt.behaviour] at taken
      obtain ⟨rfl, -⟩ := taken
      cases assigned

theorem touches_allBehaviour
    (wellFormed : scopes.WellFormed)
    {id : LocalId} :
    ∀ {stmts : List Stmt} {block first last : Nat} {trace : LocalTrace} {outcome : TraceEnd},
      scopes.PlacesAll stmts block first last →
      Stmt.allBehaviour stmts trace outcome →
      .assign id ∈ trace →
      scopes.Touches block first last id
  | [], block, first, last, _, _, _, taken, assigned => by
      simp only [Stmt.allBehaviour] at taken
      obtain ⟨rfl, -⟩ := taken
      cases assigned
  | stmt :: rest, block, first, last, _, _, placed, taken, assigned => by
      simp only [MethodScope.PlacesAll] at placed
      obtain ⟨middle, head, tail⟩ := placed
      have before := MethodScope.Places.le head
      have after := MethodScope.PlacesAll.le tail
      simp only [Stmt.allBehaviour] at taken
      rcases taken with ⟨_, _, rfl, isHead, isTail⟩ | ⟨isHead, -⟩
      · rcases List.mem_append.mp assigned with inHead | inTail
        · exact (touches_behaviour wellFormed head isHead inHead).ofFirst after
        · exact (touches_allBehaviour wellFormed tail isTail inTail).ofSecond before after
      · exact (touches_behaviour wellFormed head isHead assigned).ofFirst after

end

end Statements

/-- A statement is the declaration of a final local. -/
def Stmt.declaresFinal :
    Stmt → Bool
  | .localVar _ decl => decl.isFinal
  | _ => false

/-- A statement declares a final local for the statements behind it without being its
declaration: a branch is one, or it has a label. -/
def Stmt.leaksFinal :
    Stmt → Bool
  | .branch _ _ thenBranch none => thenBranch.declaresFinal
  | .branch _ _ thenBranch (some elseBranch) => thenBranch.declaresFinal || elseBranch.declaresFinal
  | .labeled _ _ body => body.declaresFinal
  | _ => false

section Scopes

variable
  {scopes : MethodScope}
  {id : Nat}

/-- A block scope that has been opened is younger than the one around it. -/
theorem MethodScope.Opens.younger
    {outer first inner : Nat}
    (opens : scopes.Opens outer first inner)
    (wellFormed : scopes.WellFormed) :
    outer < inner :=
  wellFormed.parentOlder opens.parent

/-- A local declared before is not declared inside a block scope that is opened later. -/
theorem MethodScope.Opens.outside
    {outer first inner : Nat}
    (opens : scopes.Opens outer first inner)
    (wellFormed : scopes.WellFormed)
    (older : id < first) :
    scopes.isWithin (scopes.localAt id).scope inner = false := by
  rw [isWithin, Bool.eq_false_iff]
  intro contained
  have inside : inner ∈ scopes.enclosing (scopes.localAt id).scope := by simpa using contained
  exact absurd (opens.fresh id older) (Nat.not_lt.mpr (wellFormed.le_of_mem_enclosing inside))

/-- The only final local that the head of a loop declares is its element. -/
theorem MethodScope.PlacesLoop.eq_first_of_final
    {element : LocalDecl}
    {collection : Expr}
    {facts : LoopFacts}
    {outer first inner last : Nat}
    (loop : scopes.PlacesLoop element collection facts outer first inner last)
    (isFinal : (scopes.localAt id).isFinal = true)
    (after : first ≤ id)
    (before : id < last) :
    id = first := by
  rcases Nat.eq_or_lt_of_le after with same | later
  · exact same.symm
  · rw [loop.others id later before] at isFinal
    cases isFinal

/-- A loop does not declare older locals, and it is not around their declarations. -/
theorem MethodScope.PlacesLoop.liesAfter
    {span : Span}
    {element : LocalDecl}
    {collection : Expr}
    {action : Option Stmt}
    {facts : LoopFacts}
    {outer first inner last : Nat}
    (loop : scopes.PlacesLoop element collection facts outer first inner last)
    (wellFormed : scopes.WellFormed)
    (uninitialized : element.initial = none)
    (older : id < first) :
    Stmt.LiesAfter id (scopes.isWithin (scopes.localAt id).scope)
      (.forEach span element collection action facts) := by
  refine ⟨fun same => ?_, uninitialized, fun scope isScope => ?_⟩
  · rw [loop.binding, Option.some.injEq] at same
    exact Nat.ne_of_gt older same
  · rw [loop.scope, Option.some.injEq] at isScope
    exact isScope ▸ loop.opens.outside wellFormed older

mutual

/-- A final local that a statement in its place declares is at home in a scope inside,
unless the statement is its declaration. -/
theorem home_of_places
    (wellFormed : scopes.WellFormed)
    (isFinal : (scopes.localAt id).isFinal = true) :
    ∀ {stmt : Stmt} {block first last : Nat},
      scopes.Places stmt block first last →
      (∀ part ∈ stmt.parts, part.leaksFinal = false) →
      first ≤ id → id < last →
      (stmt.declaresFinal = true ∧ (scopes.localAt id).scope = block) ∨
        block < (scopes.localAt id).scope
  | .localVar _ decl, block, first, last, placed, _, after, before => by
      simp only [MethodScope.Places] at placed
      obtain ⟨-, home, sameFinal, rfl, -⟩ := placed
      obtain rfl : id = first := Nat.le_antisymm (Nat.le_of_lt_succ before) after
      exact .inl ⟨sameFinal.symm.trans isFinal, home⟩
  | .expr .., _, _, _, placed, _, after, before
  | .returnWith _ (some _), _, _, _, placed, _, after, before => by
      simp only [MethodScope.Places] at placed
      exact absurd before (Nat.not_lt.mpr (placed.1 ▸ after))
  | .block _ stmts _, block, first, last, placed, sealed, after, before => by
      simp only [MethodScope.Places] at placed
      simp only [Stmt.parts] at sealed
      obtain ⟨inner, opens, inside⟩ := placed
      exact .inr (Nat.lt_of_lt_of_le (opens.younger wellFormed)
        (home_of_placesAll wellFormed isFinal inside
          (fun part member => sealed part (List.mem_cons_of_mem _ member)) after before))
  | .branch span condition thenBranch none, block, first, last, placed, sealed, after, before => by
      simp only [MethodScope.Places] at placed
      have notFinal : thenBranch.declaresFinal = false :=
        sealed (.branch span condition thenBranch none) (by simp [Stmt.parts])
      simp only [Stmt.parts] at sealed
      refine .inr ((home_of_places wellFormed isFinal placed.2
        (fun part member => sealed part (List.mem_cons_of_mem _ member)) after
          before).resolve_left ?_)
      simp [notFinal]
  | .branch span condition thenBranch (some elseBranch), block, first, last, placed, sealed, after,
      before => by
      simp only [MethodScope.Places] at placed
      obtain ⟨-, middle, inThen, inElse⟩ := placed
      have notFinal : (thenBranch.declaresFinal || elseBranch.declaresFinal) = false :=
        sealed (.branch span condition thenBranch (some elseBranch)) (by simp [Stmt.parts])
      rw [Bool.or_eq_false_iff] at notFinal
      simp only [Stmt.parts] at sealed
      rcases Nat.lt_or_ge id middle with inFirst | inSecond
      · refine .inr ((home_of_places wellFormed isFinal inThen (fun part member => sealed part
          (List.mem_cons_of_mem _ (List.mem_append_left _ member))) after inFirst).resolve_left ?_)
        simp [notFinal.1]
      · refine .inr ((home_of_places wellFormed isFinal inElse (fun part member => sealed part
          (List.mem_cons_of_mem _ (List.mem_append_right _ member))) inSecond
            before).resolve_left ?_)
        simp [notFinal.2]
  | .forEach _ _ _ none _, block, first, last, placed, _, after, before => by
      simp only [MethodScope.Places] at placed
      obtain ⟨inner, loop⟩ := placed
      obtain rfl := loop.eq_first_of_final isFinal after before
      exact .inr (loop.elementHome.symm ▸ loop.opens.younger wellFormed)
  | .forEach _ _ _ (some action) _, block, first, last, placed, sealed, after, before => by
      simp only [MethodScope.Places] at placed
      obtain ⟨inner, middle, loop, inside⟩ := placed
      simp only [Stmt.parts] at sealed
      have younger := loop.opens.younger wellFormed
      rcases Nat.lt_or_ge id middle with inHead | inBody
      · obtain rfl := loop.eq_first_of_final isFinal after inHead
        exact .inr (loop.elementHome.symm ▸ younger)
      · rcases home_of_places wellFormed isFinal inside
          (fun part member => sealed part (List.mem_cons_of_mem _ member)) inBody before with
          ⟨-, home⟩ | deeper
        · exact .inr (home ▸ younger)
        · exact .inr (Nat.lt_trans younger deeper)
  | .labeled span label body, block, first, last, placed, sealed, after, before => by
      simp only [MethodScope.Places] at placed
      have notFinal : body.declaresFinal = false :=
        sealed (.labeled span label body) (by simp [Stmt.parts])
      simp only [Stmt.parts] at sealed
      refine .inr ((home_of_places wellFormed isFinal placed
        (fun part member => sealed part (List.mem_cons_of_mem _ member)) after
          before).resolve_left ?_)
      simp [notFinal]
  | .breakTo .., _, _, _, placed, _, after, before
  | .continueTo .., _, _, _, placed, _, after, before
  | .returnWith _ none, _, _, _, placed, _, after, before
  | .empty _, _, _, _, placed, _, after, before => by
      simp only [MethodScope.Places] at placed
      exact absurd before (Nat.not_lt.mpr (placed ▸ after))

theorem home_of_placesAll
    (wellFormed : scopes.WellFormed)
    (isFinal : (scopes.localAt id).isFinal = true) :
    ∀ {stmts : List Stmt} {block first last : Nat},
      scopes.PlacesAll stmts block first last →
      (∀ part ∈ Stmt.allParts stmts, part.leaksFinal = false) →
      first ≤ id → id < last →
      block ≤ (scopes.localAt id).scope
  | [], _, _, _, placed, _, after, before => by
      simp only [MethodScope.PlacesAll] at placed
      exact absurd before (Nat.not_lt.mpr (placed ▸ after))
  | stmt :: rest, block, first, last, placed, sealed, after, before => by
      simp only [MethodScope.PlacesAll] at placed
      obtain ⟨middle, head, tail⟩ := placed
      simp only [Stmt.allParts] at sealed
      rcases Nat.lt_or_ge id middle with inHead | inTail
      · rcases home_of_places wellFormed isFinal head
          (fun part member => sealed part (List.mem_append_left _ member)) after inHead with
          ⟨-, home⟩ | deeper
        · exact Nat.le_of_eq home.symm
        · exact Nat.le_of_lt deeper
      · exact home_of_placesAll wellFormed isFinal tail
          (fun part member => sealed part (List.mem_append_right _ member)) inTail before

end

mutual

/-- A local that is declared before a statement in its place is not declared in it, and
it is declared outside its loops. -/
theorem liesAfter_of_places
    (wellFormed : scopes.WellFormed) :
    ∀ {stmt : Stmt} {block first last : Nat},
      scopes.Places stmt block first last →
      (∀ head ∈ stmt.heads, head.1.initial = none) →
      id < first →
      ∀ part ∈ stmt.parts, part.LiesAfter id (scopes.isWithin (scopes.localAt id).scope)
  | .localVar _ decl, block, first, last, placed, _, older => by
      simp only [MethodScope.Places] at placed
      simp only [Stmt.parts, List.forall_mem_singleton, Stmt.LiesAfter, placed.1]
      exact fun same => Nat.ne_of_gt older (Option.some.inj same)
  | .block _ stmts _, block, first, last, placed, uninitialized, older => by
      simp only [MethodScope.Places] at placed
      obtain ⟨inner, -, inside⟩ := placed
      simp only [Stmt.heads] at uninitialized
      simp only [Stmt.parts, List.forall_mem_cons, Stmt.LiesAfter, true_and]
      exact liesAfter_of_placesAll wellFormed inside uninitialized older
  | .branch _ _ thenBranch none, block, first, last, placed, uninitialized, older => by
      simp only [MethodScope.Places] at placed
      simp only [Stmt.heads] at uninitialized
      simp only [Stmt.parts, List.forall_mem_cons, Stmt.LiesAfter, true_and]
      exact liesAfter_of_places wellFormed placed.2 uninitialized older
  | .branch _ _ thenBranch (some elseBranch), block, first, last, placed, uninitialized, older => by
      simp only [MethodScope.Places] at placed
      obtain ⟨-, middle, inThen, inElse⟩ := placed
      simp only [Stmt.heads, List.forall_mem_append] at uninitialized
      simp only [Stmt.parts, List.forall_mem_cons, List.forall_mem_append, Stmt.LiesAfter, true_and]
      exact ⟨liesAfter_of_places wellFormed inThen uninitialized.1 older,
        liesAfter_of_places wellFormed inElse uninitialized.2
          (Nat.lt_of_lt_of_le older (MethodScope.Places.le inThen))⟩
  | .forEach _ element collection none facts, block, first, last, placed, uninitialized, older => by
      simp only [MethodScope.Places] at placed
      obtain ⟨inner, loop⟩ := placed
      simp only [Stmt.heads, List.forall_mem_singleton] at uninitialized
      simp only [Stmt.parts, List.forall_mem_singleton]
      exact loop.liesAfter wellFormed uninitialized older
  | .forEach _ element collection (some action) facts, block, first, last, placed, uninitialized,
      older => by
      simp only [MethodScope.Places] at placed
      obtain ⟨inner, middle, loop, inside⟩ := placed
      simp only [Stmt.heads, List.forall_mem_cons] at uninitialized
      simp only [Stmt.parts, List.forall_mem_cons]
      exact ⟨loop.liesAfter wellFormed uninitialized.1 older,
        liesAfter_of_places wellFormed inside uninitialized.2 (Nat.lt_trans older loop.declares)⟩
  | .labeled _ _ body, block, first, last, placed, uninitialized, older => by
      simp only [MethodScope.Places] at placed
      simp only [Stmt.heads] at uninitialized
      simp only [Stmt.parts, List.forall_mem_cons, Stmt.LiesAfter, true_and]
      exact liesAfter_of_places wellFormed placed uninitialized older
  | .expr .., _, _, _, _, _, _ | .breakTo .., _, _, _, _, _, _ | .continueTo .., _, _, _, _, _, _
  | .returnWith .., _, _, _, _, _, _ | .empty _, _, _, _, _, _, _ => by
      simp only [Stmt.parts, List.forall_mem_singleton, Stmt.LiesAfter]

theorem liesAfter_of_placesAll
    (wellFormed : scopes.WellFormed) :
    ∀ {stmts : List Stmt} {block first last : Nat},
      scopes.PlacesAll stmts block first last →
      (∀ head ∈ Stmt.allHeads stmts, head.1.initial = none) →
      id < first →
      ∀ part ∈ Stmt.allParts stmts, part.LiesAfter id (scopes.isWithin (scopes.localAt id).scope)
  | [], _, _, _, _, _, _ => by
      simp [Stmt.allParts]
  | stmt :: rest, block, first, last, placed, uninitialized, older => by
      simp only [MethodScope.PlacesAll] at placed
      obtain ⟨middle, head, tail⟩ := placed
      simp only [Stmt.allHeads, List.forall_mem_append] at uninitialized
      simp only [Stmt.allParts, List.forall_mem_append]
      exact ⟨liesAfter_of_places wellFormed head uninitialized.1 older,
        liesAfter_of_placesAll wellFormed tail uninitialized.2
          (Nat.lt_of_lt_of_le older (MethodScope.Places.le head))⟩

end

end Scopes

end LoopLowering
