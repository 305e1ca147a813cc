import LoopLowering.Locals.MethodScope
import LoopLowering.Loop.Strategy
import LoopLowering.Types.Iteration

namespace LoopLowering

/-!
# Classifying loops

The static types of the collection and of the loop variable decide how a loop
fetches its elements and how each is converted before it is stored. A mismatch
between the two is a finding; the loop is lowered all the same.
-/

/-- Why a collection cannot be iterated. -/
inductive ClassifyError where
  | notIterable
  /-- The iterable interface is given more than one argument. -/
  | badArity (found : Ty) (arity : Nat)
  deriving Repr, DecidableEq

namespace ClassifyError

/-- The text of a classification error. -/
def message :
    ClassifyError → String
  | .notIterable => "Can only iterate over an array or an instance of java.lang.Iterable"
  | .badArity found arity =>
      "Can only iterate over an array or an instance of java.lang.Iterable: " ++ found.text ++
        " instantiates Iterable with " ++ toString arity ++ " type arguments"

end ClassifyError

/-- The kind of strategy a collection calls for, before any local exists. -/
inductive LoopShape where
  | array
  | rawIterable (receiver : Ty)
  | genericIterable (receiver : Ty)
  deriving Repr, DecidableEq

namespace LoopShape

/-- The name of a shape. -/
def name :
    LoopShape → String
  | .array => "array"
  | .rawIterable _ => "raw-iterable"
  | .genericIterable _ => "generic-iterable"

/-- The type the iterator is requested from. -/
def receiver? :
    LoopShape → Option Ty
  | .array => none
  | .rawIterable receiver | .genericIterable receiver => some receiver

end LoopShape

/-- Something to report about a loop that is lowered all the same. -/
inductive LoopFinding where
  | mismatch (element declared : Ty)
  /-- A primitive element is boxed, or a wrapper is unboxed. -/
  | autoboxing (element declared : Ty) (boxing : Bool)
  deriving Repr, DecidableEq

/-- How a loop is to be lowered. -/
structure Classified where
  shape : LoopShape
  elementType : Ty
  conversion : ElementConversion
  findings : List LoopFinding
  deriving Repr, DecidableEq

namespace ElementConversion

/-- Whether a conversion boxes, unboxes, or does neither. -/
def boxing? :
    ElementConversion → Option Bool
  | .boxing _ | .boxingThenWidening _ => some true
  | .unboxing .. => some false
  | .none | .widening .. => Option.none

/-- The conversion from an element to the loop variable. Nothing is done from
reference to reference, where a cast suffices. -/
def between
    (element declared : Ty) :
    ElementConversion :=
  match element.primitive?, declared.primitive? with
  | some source, some target => if source = target then .none else .widening source target
  | Option.none, some target =>
      match ClassTable.unboxed? element with
      | some source => .unboxing source target
      | Option.none => .none
  | some source, Option.none =>
      if ClassTable.boxed source = declared then .boxing source else .boxingThenWidening source
  | Option.none, Option.none => .none

end ElementConversion

namespace ClassTable

/-- The shape and the element type a collection calls for. -/
def loopShape
    (table : ClassTable)
    (collection : Ty) :
    Except ClassifyError (LoopShape × Ty) :=
  match collection with
  | .array component => .ok (.array, component)
  | _ =>
      match table.iteration? collection with
      | none => .error .notIterable
      | some capability =>
          match capability.arguments with
          | .raw => .ok (.rawIterable capability.receiver, .object)
          | .unbound [element] | .parameterized [element] =>
              .ok (.genericIterable capability.receiver, element)
          | .unbound types | .parameterized types =>
              .error (.badArity collection types.length)

/-- What to report about binding elements to a loop variable. -/
def loopFindings
    (table : ClassTable)
    (element declared : Ty) :
    List LoopFinding :=
  (if table.converts element declared then [] else [.mismatch element declared]) ++
    match (ElementConversion.between element declared).boxing? with
    | some boxing => [.autoboxing element declared boxing]
    | none => []

/-- Decide how a loop over a collection with a variable of a type is lowered. -/
def classify
    (table : ClassTable)
    (declared collection : Ty) :
    Except ClassifyError Classified := do
  let (shape, element) ← table.loopShape collection
  return {
    shape := shape
    elementType := element
    conversion := .between element declared
    findings := table.loopFindings element declared
  }

end ClassTable

namespace LoopShape

/-- The name of the local that holds an array index or an iterator. -/
def indexName :
    String :=
  " index"

/-- The name of the local that holds the length of an array. -/
def boundName :
    String :=
  " max"

/-- The name of the local that holds an array. -/
def sourceName :
    String :=
  " collection"

/-- The types of the locals a shape needs, by name, in the order in which they
are declared. -/
def synthetics
    (collection : Ty) :
    LoopShape → List (String × Ty)
  | .array => [(indexName, .int), (boundName, .int), (sourceName, collection)]
  | .rawIterable _ | .genericIterable _ => [(indexName, .named "Iterator")]

/-- The strategy of a shape whose locals are numbered from a first one. -/
def strategyFrom
    (first : LocalId) :
    LoopShape → LoopStrategy
  | .array => .array first (first + 1) (first + 2)
  | .rawIterable receiver => .rawIterable first receiver
  | .genericIterable receiver => .genericIterable first receiver

end LoopShape

namespace MethodScope

/-- Declare the locals a loop needs in the scope of the loop. -/
def declareSynthetics
    (block : ScopeId)
    (shape : LoopShape)
    (collection : Ty)
    (span : Span)
    (scope : MethodScope) :
    MethodScope :=
  (shape.synthetics collection).foldl
    (fun scope entry => scope.declare block (.synthetic entry.1 entry.2 span)) scope

end MethodScope

end LoopLowering
