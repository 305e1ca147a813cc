import LoopLowering.Types.Supertypes

namespace LoopLowering

/-!
# Conversions between types

A value converts to another type by assignment, which covers widening of
primitives and subtyping of references, or by boxing. Raw class types convert
to and from every instantiation of their class.
-/

namespace Ty

/-- Whether a type is reached from another by replacing outer wildcards by
their bounds. -/
def unwrapsTo
    (target : Ty) :
    Ty → Bool
  | .wildcardExtends bound => decide (.wildcardExtends bound = target) || unwrapsTo target bound
  | .wildcard => decide (Ty.wildcard = target) || decide (object = target)
  | ty => decide (ty = target)

/-- Whether a type, seen through the bounds of outer wildcards, has no type of
its own: it is null or failed to resolve. -/
def isUntyped
    (ty : Ty) :
    Bool :=
  match ty.withoutWildcards with
  | .null | .unknown => true
  | _ => false

end Ty

namespace ClassTable

mutual

/-- Whether a value of one type can be assigned to a variable of another. -/
def isAssignable
    (table : ClassTable)
    (source : Ty) :
    (target : Ty) → Bool
  | .unknown => true
  | .primitive kind =>
      match source with
      | .unknown => true
      | .primitive given => given == kind || given.widensTo kind
      | _ => false
  | .void => source == .unknown || source == .void
  | .null => source.isUntyped
  | .wildcard => source.isUntyped || Ty.unwrapsTo .wildcard source
  | .wildcardExtends bound => source.isUntyped || Ty.unwrapsTo (.wildcardExtends bound) source
  | .typeVar name _ =>
      source.isUntyped ||
        match source.withoutWildcards with
        | .typeVar other _ => other == name
        | _ => false
  | .array component =>
      source.isUntyped ||
        match source.withoutWildcards with
        | .array given =>
            given == component ||
              (given.isReference && component.isReference && table.isAssignable given component)
        | _ => false
  | .classType name args =>
      source.isUntyped ||
        match source.withoutWildcards with
        | .classType .. | .typeVar .. =>
            name == "Object" ||
              match table.findSupertype source.withoutWildcards name with
              | some found => found.args.isEmpty || args.isEmpty ||
                  (found.args.length == args.length && table.areContained found.args args)
              | none => false
        | .array _ => name == "Object"
        | _ => false

/-- Whether a type argument lies within another: a wildcard admits whatever
converts to its bound, and anything else admits only itself. -/
def isContained
    (table : ClassTable)
    (argument : Ty) :
    (target : Ty) → Bool
  | .wildcard => true
  | .wildcardExtends bound =>
      table.isAssignable (argument.wildcardBound?.getD argument) bound
  | .primitive kind => argument == .primitive kind
  | .classType name args => argument == .classType name args
  | .typeVar name bound => argument == .typeVar name bound
  | .array component => argument == .array component
  | .null => argument == .null
  | .void => argument == .void
  | .unknown => argument == .unknown

/-- Whether type arguments lie within others, position by position. -/
def areContained
    (table : ClassTable) :
    (arguments targets : List Ty) → Bool
  | argument :: arguments, target :: targets =>
      table.isContained argument target && table.areContained arguments targets
  | _, _ => true

end

/-- The wrapper type of a primitive type. -/
def boxed
    (kind : Primitive) :
    Ty :=
  .named kind.wrapper

/-- The primitive type a reference type unboxes to. -/
def unboxed?
    (ty : Ty) :
    Option Primitive :=
  match ty.erasure with
  | .classType name _ => Primitive.ofWrapper? name
  | _ => none

/-- Whether a value converts by boxing a primitive or unboxing a wrapper. -/
def isBoxable
    (table : ClassTable)
    (source target : Ty) :
    Bool :=
  match source, target with
  | .primitive _, .primitive _ => false
  | .primitive kind, target => target.isReference && table.isAssignable (boxed kind) target
  | source, .primitive kind =>
      source.isReference &&
        match unboxed? source with
        | some given => given == kind || given.widensTo kind
        | none => false
  | _, _ => false

/-- Whether a value converts by assignment or by boxing. -/
def converts
    (table : ClassTable)
    (source target : Ty) :
    Bool :=
  table.isAssignable source target || table.isBoxable source target

end ClassTable

end LoopLowering
