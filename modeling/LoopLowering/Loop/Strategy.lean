import LoopLowering.Source.Handles
import LoopLowering.Types.Ty

namespace LoopLowering

/-!
# Loop strategies

A for-each loop is lowered in one of three ways: by index over an array, or by
iterator over a raw or a parameterized iterable. This module holds what the
passes record about a loop: the chosen strategy with its compiler-introduced
locals, the conversion of each element, and the facts found by flow analysis.
-/

/-- How a loop fetches its elements, with the locals it introduces. -/
inductive LoopStrategy where
  | array (index bound source : LocalId)
  /-- The receiver is the type the iterator is requested from. -/
  | rawIterable (iterator : LocalId) (receiver : Ty)
  | genericIterable (iterator : LocalId) (receiver : Ty)
  deriving Repr, DecidableEq

namespace LoopStrategy

/-- The name of a strategy. -/
def name :
    LoopStrategy → String
  | .array .. => "array"
  | .rawIterable .. => "raw-iterable"
  | .genericIterable .. => "generic-iterable"

/-- The locals a strategy introduces, in the order they are declared. -/
def synthetics :
    LoopStrategy → List LocalId
  | .array index bound source => [index, bound, source]
  | .rawIterable iterator _ | .genericIterable iterator _ => [iterator]

/-- The type an iterator is requested from. -/
def receiver? :
    LoopStrategy → Option Ty
  | .array .. => none
  | .rawIterable _ receiver | .genericIterable _ receiver => some receiver

/-- Whether elements are fetched by index. -/
def isArray :
    LoopStrategy → Bool
  | .array .. => true
  | _ => false

end LoopStrategy

/-- The conversion applied to each element before it is stored. -/
inductive ElementConversion where
  | none
  | widening (source target : Primitive)
  /-- Box a primitive into exactly its wrapper. -/
  | boxing (kind : Primitive)
  /-- Box a primitive, then regard the wrapper as one of its supertypes. -/
  | boxingThenWidening (kind : Primitive)
  /-- Unbox a wrapper, then widen when the two kinds differ. -/
  | unboxing (source target : Primitive)
  deriving Repr, DecidableEq, Inhabited

namespace ElementConversion

/-- The name of a kind of conversion. -/
def name :
    ElementConversion → String
  | .none => "none"
  | .widening .. => "widening"
  | .boxing _ => "boxing"
  | .boxingThenWidening _ => "boxing-then-widening"
  | .unboxing .. => "unboxing"

/-- The primitive type a conversion starts from. -/
def source? :
    ElementConversion → Option Primitive
  | .none => Option.none
  | .widening source _ | .unboxing source _ => some source
  | .boxing kind | .boxingThenWidening kind => some kind

/-- The primitive type a conversion ends in. -/
def target? :
    ElementConversion → Option Primitive
  | .widening _ target | .unboxing _ target => some target
  | _ => Option.none

/-- The text of a conversion. -/
def text :
    ElementConversion → String
  | .none => "none"
  | .widening source target => "widening " ++ source.name ++ " to " ++ target.name
  | .boxing kind => "boxing " ++ kind.name
  | .boxingThenWidening kind => "boxing " ++ kind.name ++ " then widening"
  | .unboxing source target =>
      if source = target then
        "unboxing to " ++ target.name
      else
        "unboxing to " ++ source.name ++ " then widening to " ++ target.name

end ElementConversion

/-- A loop whose collection can be iterated. -/
structure LoopResolution where
  strategy : LoopStrategy
  /-- The type of the produced elements before conversion. -/
  elementType : Ty
  conversion : ElementConversion
  deriving Repr, DecidableEq

/-- What resolution found out about a loop. -/
inductive LoopClassification where
  | pending
  /-- The collection cannot be iterated, and the loop is not lowered. -/
  | invalid
  | resolved (resolution : LoopResolution)
  deriving Repr, DecidableEq, Inhabited

namespace LoopClassification

/-- The resolution of a loop that has one. -/
def resolution? :
    LoopClassification → Option LoopResolution
  | .resolved resolution => some resolution
  | _ => none

/-- The strategy of a loop that has one. -/
def strategy?
    (classification : LoopClassification) :
    Option LoopStrategy :=
  classification.resolution?.map LoopResolution.strategy

end LoopClassification

/-- What the passes record about one loop. -/
structure LoopFacts where
  /-- The block scope of the element and of the introduced locals. -/
  scope : Option ScopeId
  classification : LoopClassification
  /-- Flow analysis reached the loop. -/
  reachable : Bool
  /-- Flow analysis entered the body. -/
  actionReachable : Bool
  /-- Some path comes back for another element, so the loop tests at the
  bottom and branches back. -/
  continues : Bool
  /-- The state after the collection is evaluated, with the element assigned. -/
  entered : Option CheckpointId
  /-- The state after the loop. -/
  left : Option CheckpointId
  deriving Repr, DecidableEq

namespace LoopFacts

/-- A loop no pass has looked at. -/
def initial :
    LoopFacts where
  scope := none
  classification := .pending
  reachable := false
  actionReachable := false
  continues := false
  entered := none
  left := none

end LoopFacts

end LoopLowering
