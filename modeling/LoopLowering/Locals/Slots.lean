import LoopLowering.Locals.MethodScope

namespace LoopLowering

/-!
# Frame slots

The locals of a scope that exist in the code take consecutive slots in the
order of their declaration, after those of the scopes around it. Scopes side by
side share slots, because only one of them is alive at a time. Slots are 16-bit
numbers.
-/

namespace MethodScope

/-- The slots taken by those of the given locals that exist in the code. -/
def widthOf
    (scope : MethodScope)
    (keepUnused : Bool)
    (ids : List LocalId) :
    UInt16 :=
  (ids.map (fun id =>
    if scope.isMaterialized keepUnused id then (scope.localAt id).width else 0)).foldr (· + ·) 0

/-- The slots taken by the locals a scope declares itself. -/
def blockWidth
    (scope : MethodScope)
    (keepUnused : Bool)
    (id : ScopeId) :
    UInt16 :=
  scope.widthOf keepUnused (scope.block id).locals

/-- The first slot of a scope: the slots of the scopes around it come before. -/
def blockStart
    (scope : MethodScope)
    (keepUnused : Bool)
    (id : ScopeId) :
    UInt16 :=
  ((scope.enclosing id).tail.map (scope.blockWidth keepUnused)).foldr (· + ·) 0

/-- The first slot after the locals of a scope. -/
def blockEnd
    (scope : MethodScope)
    (keepUnused : Bool)
    (id : ScopeId) :
    UInt16 :=
  scope.blockStart keepUnused id + scope.blockWidth keepUnused id

/-- The slot of a local among locals that take slots from a given one on. -/
def slotAmong
    (scope : MethodScope)
    (keepUnused : Bool)
    (id : LocalId) :
    (next : UInt16) → List LocalId → UInt16
  | next, [] => next
  | next, other :: rest =>
      if other == id then
        next
      else if scope.isMaterialized keepUnused other then
        slotAmong scope keepUnused id (next + (scope.localAt other).width) rest
      else
        slotAmong scope keepUnused id next rest

/-- The slot of a local, if it exists in the code. -/
def slotFor
    (scope : MethodScope)
    (keepUnused : Bool)
    (id : LocalId) :
    Option UInt16 :=
  let home := (scope.localAt id).scope
  if scope.isMaterialized keepUnused id then
    some (scope.slotAmong keepUnused id (scope.blockStart keepUnused home)
      (scope.block home).locals)
  else
    none

/-- The number of slots of the whole frame. -/
def frameWidth
    (scope : MethodScope)
    (keepUnused : Bool) :
    UInt16 :=
  ((List.range scope.blocks.size).map (scope.blockEnd keepUnused)).foldl max 0

/-- Assign a slot to every local that exists in the code and to no other. -/
def assignSlots
    (keepUnused : Bool)
    (scope : MethodScope) :
    MethodScope :=
  { scope with
    locals := scope.locals.mapIdx (fun id entry =>
      { entry with slot := scope.slotFor keepUnused id })
    frameSize := scope.frameWidth keepUnused }

end MethodScope

end LoopLowering
