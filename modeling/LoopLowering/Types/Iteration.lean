import LoopLowering.Types.Compatibility

namespace LoopLowering

/-!
# Iterable types

A type other than an array can be iterated when it inherits from the iterable
interface. What its elements are depends on the arguments it gives to that
interface.
-/

/-- The interface of everything that can be iterated. -/
def iterableName :
    String :=
  "Iterable"

/-- The arguments a type gives to the iterable interface. -/
inductive IterableArguments where
  /-- None: the type is raw. -/
  | raw
  /-- Wildcards only, known by their upper bounds. -/
  | unbound (bounds : List Ty)
  | parameterized (args : List Ty)
  deriving Repr, DecidableEq

namespace IterableArguments

/-- The name of a kind of arguments. -/
def name :
    IterableArguments → String
  | .raw => "raw"
  | .unbound _ => "unbound"
  | .parameterized _ => "parameterized"

/-- The types an iteration may produce. -/
def elementTypes :
    IterableArguments → List Ty
  | .raw => []
  | .unbound types | .parameterized types => types

/-- The kind of arguments a list of type arguments is. -/
def ofArgs
    (args : List Ty) :
    IterableArguments :=
  if args.isEmpty then
    .raw
  else
    match args.mapM Ty.wildcardBound? with
    | some bounds => .unbound bounds
    | none => .parameterized args

end IterableArguments

/-- How a type can be iterated. -/
structure IterationCapability where
  arguments : IterableArguments
  /-- The type the iterator is requested from. -/
  receiver : Ty
  deriving Repr, DecidableEq

namespace ClassTable

/-- How a type can be iterated, if it can. A type that is iterable only through
a bound its erasure does not show is asked through the interface itself. -/
def iteration?
    (table : ClassTable)
    (ty : Ty) :
    Option IterationCapability :=
  (table.findSupertype ty iterableName).map (fun found => {
    arguments := .ofArgs found.args
    receiver :=
      if (table.findSupertype ty.erasure iterableName).isSome then ty.erasure
      else .named iterableName
  })

end ClassTable

end LoopLowering
