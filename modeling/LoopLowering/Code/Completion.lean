import LoopLowering.Code.CodeStream

namespace LoopLowering

/-!
# Completing code

A stream becomes the code of a method once every branch target is placed. The
table of locals leaves out what the compiler introduced and ranges without
instructions.

## Stable ordering

A list is ordered by a key, and items with the same key keep their order.
-/

/-- Put an item before the first one that it does not come after. -/
def insertOrdered
    (comesAfter : α → α → Bool)
    (item : α) :
    List α → List α
  | [] => [item]
  | other :: rest =>
      if comesAfter item other then
        other :: insertOrdered comesAfter item rest
      else
        item :: other :: rest

/-- The items of a list in order. -/
def stableOrder
    (comesAfter : α → α → Bool)
    (items : List α) :
    List α :=
  items.foldr (insertOrdered comesAfter) []

/-- Inserting adds exactly the inserted item. -/
theorem mem_insertOrdered
    (comesAfter : α → α → Bool)
    (item other : α)
    (items : List α) :
    other ∈ insertOrdered comesAfter item items ↔ other = item ∨ other ∈ items := by
  induction items with
  | nil =>
      simp [insertOrdered]
  | cons head rest inductionHypothesis =>
      by_cases after : comesAfter item head
      · simp only [insertOrdered, after, if_true, List.mem_cons, inductionHypothesis]
        exact or_left_comm
      · simp [insertOrdered, after]

/-- Ordering keeps exactly the items of a list. -/
theorem mem_stableOrder
    (comesAfter : α → α → Bool)
    (item : α)
    (items : List α) :
    item ∈ stableOrder comesAfter items ↔ item ∈ items := by
  induction items with
  | nil =>
      simp [stableOrder]
  | cons head rest inductionHypothesis =>
      rw [stableOrder] at inductionHypothesis
      rw [stableOrder, List.foldr_cons, mem_insertOrdered, List.mem_cons, inductionHypothesis]

/-!
## Finished streams
-/

namespace CodeStream

/-- The range of a local as the table lists it, if the table lists it. -/
def tabledRange?
    (scope : MethodScope)
    (range : LiveRange) :
    Option LocalRange := do
  let entry := scope.localAt range.id
  let slot ← entry.slot
  let stop ← range.stop
  if !entry.isSynthetic && range.start < stop then
    some ⟨entry.name, slot, range.start, stop⟩
  else
    none

/-- Whether the range of one local is listed after that of another: by slot,
then by start. -/
def listedAfter
    (first second : LocalRange) :
    Bool :=
  second.slot < first.slot || (first.slot == second.slot && second.start < first.start)

/-- The offsets of branch targets, from the one with a given label on. -/
def placedLabels
    (name : String) :
    (label : Label) → List (Option Nat) → Except CodegenError (List Nat)
  | _, [] => .ok []
  | label, none :: _ => .error (.labelNotPlaced label name)
  | label, some position :: rest => do
      let positions ← placedLabels name (label + 1) rest
      return position :: positions

/-- Close every range and make a stream the code of a method. -/
def finish
    (scope : MethodScope)
    (name : String)
    (code : CodeStream) :
    Except CodegenError MethodCode := do
  let closed := code.closeWhere (fun _ => true)
  let labels ← placedLabels name 0 closed.labels.toList
  return {
    name := name
    instructions := closed.instructions
    labels := labels.toArray
    maxLocals := scope.frameSize
    locals := stableOrder listedAfter (closed.ranges.toList.filterMap (tabledRange? scope))
    positions :=
      stableOrder (fun first second => second.1 < first.1) closed.positions.toList
  }

end CodeStream

end LoopLowering
