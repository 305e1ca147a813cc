import LoopLowering.Source.Handles

namespace LoopLowering

/-!
# Nullness of locals

What is known at a program point about reference locals being null. Facts are
kept for the locals about which something is known, in ascending order.
-/

/-- What is known about a reference. -/
inductive NullStatus where
  | unknown
  | null
  | nonNull
  /-- Null on at least one path. -/
  | potentiallyNull
  deriving Repr, DecidableEq, Inhabited

namespace NullStatus

/-- What is known where two paths meet. -/
def join
    (first second : NullStatus) :
    NullStatus :=
  if first = second then
    first
  else
    match first, second with
    | .null, _ | .potentiallyNull, _ | _, .null | _, .potentiallyNull => .potentiallyNull
    | _, _ => .unknown

/-- What is known after a path that may have run. -/
def afterOptional
    (before optional : NullStatus) :
    NullStatus :=
  match before, optional with
  | .null, .null => .null
  | _, .null | _, .potentiallyNull => .potentiallyNull
  | .null, .nonNull => .potentiallyNull
  | before, _ => before

/-- Joining does not depend on the order of the paths. -/
theorem join_comm
    (first second : NullStatus) :
    first.join second = second.join first := by
  cases first <;> cases second <;> rfl

/-- Joining three paths does not depend on which two meet first. -/
theorem join_assoc
    (first second third : NullStatus) :
    (first.join second).join third = first.join (second.join third) := by
  cases first <;> cases second <;> cases third <;> rfl

end NullStatus

/-- The locals about which something is known, in ascending order. -/
abbrev NullFacts := List (LocalId × NullStatus)

namespace NullFacts

/-- What is known about a local. -/
def status
    (facts : NullFacts)
    (id : LocalId) :
    NullStatus :=
  (List.lookup id facts).getD .unknown

/-- Forget what is known about a local. -/
def forget
    (id : LocalId)
    (facts : NullFacts) :
    NullFacts :=
  facts.filter (fun fact => fact.1 != id)

/-- Put a fact before the facts about later locals, in place of an older one. -/
def record
    (id : LocalId)
    (status : NullStatus) :
    NullFacts → NullFacts
  | [] => [(id, status)]
  | (other, known) :: rest =>
      if id < other then (id, status) :: (other, known) :: rest
      else if id = other then (id, status) :: rest
      else (other, known) :: record id status rest

/-- Replace what is known about a local. -/
def set
    (id : LocalId)
    (status : NullStatus)
    (facts : NullFacts) :
    NullFacts :=
  if status = .unknown then facts.forget id else facts.record id status

/-- The locals about which something is known. -/
def locals
    (facts : NullFacts) :
    List LocalId :=
  facts.map Prod.fst

/-- Take over every fact of another path. -/
def override
    (facts newer : NullFacts) :
    NullFacts :=
  newer.foldl (fun known fact => known.record fact.1 fact.2) facts

/-- Combine what two paths know about each local. -/
def combine
    (rule : NullStatus → NullStatus → NullStatus)
    (ids : List LocalId)
    (first second start : NullFacts) :
    NullFacts :=
  ids.foldl (fun known id => known.set id (rule (first.status id) (second.status id))) start

/-- What is known where two paths meet. -/
def join
    (first second : NullFacts) :
    NullFacts :=
  combine .join (first.locals ++ second.locals) first second []

/-- What is known after a path that may have run. -/
def afterOptional
    (before optional : NullFacts) :
    NullFacts :=
  combine .afterOptional optional.locals before optional before

end NullFacts

end LoopLowering
