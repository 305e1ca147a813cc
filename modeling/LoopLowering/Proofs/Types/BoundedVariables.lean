import LoopLowering.Proofs.Types.HierarchyWalks
import LoopLowering.Types.Compatibility

namespace LoopLowering

/-!
# Conversions of type variables

A value whose type is a type variable has the type of its bound as well. The
conversion looks at the bound only where the target is a class type, so a
variable converts to itself, to the root class, and to the class types to which
its bound converts, but neither to an array type nor to another variable, even
if that is its bound.
-/

namespace ClassTable

variable
  {table : ClassTable}
  {className : String}
  {args : List Ty}

/-- Whether the supertype of a class that a type has converts to an instantiation of the
class: one of them is raw, or the arguments lie within the others. -/
def supertypeConverts
    (table : ClassTable)
    (ty : Ty)
    (className : String)
    (args : List Ty) :
    Bool :=
  match table.findSupertype ty className with
  | some found => found.args.isEmpty || args.isEmpty ||
      (found.args.length == args.length && table.areContained found.args args)
  | none => false

/-- A type that inherits from no class has no supertype to convert. -/
theorem supertypeConverts_of_classless
    {ty : Ty}
    (noClass : ty.inheritingClass? = none) :
    table.supertypeConverts ty className args = false := by
  simp [supertypeConverts, findSupertype, noClass, reachable, walk_nil]

/-- A type variable converts to a class type as a supertype of its bound does. -/
theorem isAssignable_typeVar_classType
    (name : String)
    (bound : Ty) :
    table.isAssignable (.typeVar name bound) (.classType className args) =
      (className == "Object" || table.supertypeConverts bound className args) := by
  have sameSupertype : table.findSupertype (.typeVar name bound) className =
      table.findSupertype bound className := rfl
  rw [isAssignable, supertypeConverts, ← sameSupertype]
  rfl

/-- A type that has a type of its own converts to a class type other than the root class as
a supertype of it does. -/
theorem isAssignable_classType
    (notRoot : className ≠ "Object") :
    ∀ {ty : Ty},
      ty.isUntyped = false →
      table.isAssignable ty (.classType className args) = table.supertypeConverts ty className args
  | .classType _ _, _ | .typeVar _ _, _ | .wildcard, _ => by
      rw [isAssignable, beq_eq_false_iff_ne.mpr notRoot]
      rfl
  | .wildcardExtends bound, typed => by
      have converts : table.isAssignable bound (.classType className args) =
          table.supertypeConverts bound className args := isAssignable_classType notRoot typed
      rw [isAssignable] at converts ⊢
      exact converts
  | .array _, _ => by
      rw [isAssignable, supertypeConverts_of_classless rfl, ← beq_eq_false_iff_ne.mpr notRoot]
      rfl
  | .primitive _, _ | .void, _ => by
      rw [isAssignable, supertypeConverts_of_classless rfl]
      rfl
  | .null, typed | .unknown, typed => by
      cases typed

/-- A type without a type of its own has no supertype. -/
theorem supertypeConverts_of_isUntyped :
    ∀ {ty : Ty},
      ty.isUntyped = true →
      table.supertypeConverts ty className args = false
  | .wildcardExtends bound, untyped => by
      have noSupertype : table.supertypeConverts bound className args = false :=
        supertypeConverts_of_isUntyped untyped
      exact noSupertype
  | .null, _ | .unknown, _ => supertypeConverts_of_classless rfl
  | .classType _ _, untyped | .typeVar _ _, untyped | .wildcard, untyped | .array _, untyped
  | .primitive _, untyped | .void, untyped => by
      cases untyped

/-- A type variable converts to what failed to resolve, to variables of its own name, to the
root class, and to those class types to which its bound converts and has a type of
its own to convert. In particular it does not convert to its bound if that is an
array type or another variable. -/
theorem isAssignable_typeVar_iff
    (table : ClassTable)
    (name : String)
    (bound target : Ty) :
    table.isAssignable (.typeVar name bound) target = true ↔
      target = .unknown ∨
      (∃ other, target = .typeVar name other) ∨
      ∃ className args, target = .classType className args ∧
        (className = "Object" ∨
          bound.isUntyped = false ∧ table.isAssignable bound target = true) := by
  cases target with
  | unknown =>
      simp [isAssignable]
  | classType className args =>
      rw [isAssignable_typeVar_classType]
      by_cases isRoot : className = "Object"
      · simp [isRoot]
      · cases typed : bound.isUntyped with
        | true =>
            simp [isRoot, supertypeConverts_of_isUntyped typed]
        | false =>
            simp [isRoot, isAssignable_classType isRoot typed]
  | typeVar other otherBound =>
      simpa [isAssignable, Ty.isUntyped, Ty.withoutWildcards] using @eq_comm _ name other
  | _ =>
      simp [isAssignable, Ty.isUntyped, Ty.withoutWildcards, Ty.unwrapsTo]

end ClassTable

end LoopLowering
