import LoopLowering.Proofs.Code.Relowering
import LoopLowering.Proofs.Resolution.ReservedNames

namespace LoopLowering

/-!
# Names that refer to locals of the source

The tree of a method without reserved names has none after the passes either. As
the locals that loops introduce have reserved names, what such a tree names is
always a local of the source.
-/

namespace Expr

mutual

/-- The names of an expression do not depend on its bindings. -/
theorem isUnreserved_cleared :
    ∀ expr : Expr,
      expr.cleared.isUnreserved = expr.isUnreserved
  | .intLit .. | .boolLit .. | .stringLit .. | .null _ => rfl
  | .name .. => by
      simp [cleared, NameRef.unbound]
  | .newArray _ _ elements => by
      simp [cleared, areUnreserved_cleared elements]
  | .binary _ _ left right => by
      simp [cleared, isUnreserved_cleared left, isUnreserved_cleared right]
  | .assign _ _ _ value => by
      simp [cleared, NameRef.unbound, isUnreserved_cleared value]
  | .call _ _ args => by
      simp [cleared, areUnreserved_cleared args]
  | .methodCall _ receiver _ args => by
      simp [cleared, isUnreserved_cleared receiver, areUnreserved_cleared args]

theorem areUnreserved_cleared :
    ∀ exprs : List Expr,
      areUnreserved (allCleared exprs) = areUnreserved exprs
  | [] => rfl
  | expr :: rest => by
      simp [allCleared, isUnreserved_cleared expr, areUnreserved_cleared rest]

end

end Expr

/-- The names of a declaration do not depend on its bindings. -/
theorem LocalDecl.isUnreserved_cleared
    (decl : LocalDecl) :
    decl.cleared.isUnreserved = decl.isUnreserved := by
  cases initial : decl.initial <;>
    simp [isUnreserved, cleared, initial, Expr.isUnreserved_cleared]

namespace Stmt

mutual

/-- The names of a statement do not depend on what is recorded in it. -/
theorem isUnreserved_cleared :
    ∀ stmt : Stmt,
      stmt.cleared.isUnreserved = stmt.isUnreserved
  | .breakTo .. | .continueTo .. | .empty _ | .returnWith _ none => rfl
  | .localVar _ decl => by
      simp [cleared, decl.isUnreserved_cleared]
  | .expr _ value | .returnWith _ (some value) => by
      simp [cleared, value.isUnreserved_cleared]
  | .block _ stmts _ => by
      simp [cleared, areUnreserved_cleared stmts]
  | .branch _ condition thenBranch none => by
      simp [cleared, condition.isUnreserved_cleared, isUnreserved_cleared thenBranch]
  | .branch _ condition thenBranch (some elseBranch) => by
      simp [cleared, condition.isUnreserved_cleared, isUnreserved_cleared thenBranch,
        isUnreserved_cleared elseBranch]
  | .forEach _ element collection none _ => by
      simp [cleared, element.isUnreserved_cleared, collection.isUnreserved_cleared]
  | .forEach _ element collection (some action) _ => by
      simp [cleared, element.isUnreserved_cleared, collection.isUnreserved_cleared,
        isUnreserved_cleared action]
  | .labeled _ _ body => by
      simp [cleared, isUnreserved_cleared body]

theorem areUnreserved_cleared :
    ∀ stmts : List Stmt,
      areUnreserved (allCleared stmts) = areUnreserved stmts
  | [] => rfl
  | stmt :: rest => by
      simp [allCleared, isUnreserved_cleared stmt, areUnreserved_cleared rest]

end

end Stmt

section Methods

variable
  {table : ClassTable}
  {options : CompilerOptions}
  {method : Method}

namespace CodeContext

/-- The locals that loops introduce have reserved names. -/
def ReservesNames
    (context : CodeContext) :
    Prop :=
  ∀ id, (context.localAt id).isSynthetic = true →
    isReservedName (context.localAt id).name = true

/-- A name that is not reserved is bound to a local of the source. -/
theorem ReservesNames.isSource
    {context : CodeContext}
    (reserves : context.ReservesNames)
    {place : Place}
    {ref : NameRef}
    {id : Nat}
    (binds : context.Binds place ref id)
    (unreserved : isReservedName ref.name = false) :
    (context.localAt id).isSynthetic = false := by
  cases isSynthetic : (context.localAt id).isSynthetic with
  | false =>
      rfl
  | true =>
      have reserved := reserves id isSynthetic
      rw [binds.name, unreserved] at reserved
      cases reserved

end CodeContext

end Methods

end LoopLowering
