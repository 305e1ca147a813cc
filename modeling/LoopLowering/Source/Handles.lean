namespace LoopLowering

/-!
# Handles and names

The passes refer to locals, block scopes and recorded flow states by number.
Numbers are handed out in order of creation, so a handle is also a position in
the sequence that holds the thing it names.
-/

/-- The number of a local variable of one method. -/
abbrev LocalId := Nat

/-- The number of a block scope of one method; the body has number zero. -/
abbrev ScopeId := Nat

/-- The number of a recorded flow state of one method. -/
abbrev CheckpointId := Nat

/-- The number of a branch target of one method. -/
abbrev Label := Nat

/-! ## Tables keyed by name

Declarations are looked up by name, and a later declaration of a name hides an
earlier one. A table is the list of its declarations, newest first.
-/

/-- Declarations by name, the newest first. -/
abbrev NameTable (α : Type u) := List (String × α)

namespace NameTable

/-- Declare a name, hiding any earlier declaration of it. -/
def insert
    (name : String)
    (value : α)
    (table : NameTable α) :
    NameTable α :=
  (name, value) :: table

/-- The newest declaration of a name. -/
def find?
    (name : String)
    (table : NameTable α) :
    Option α :=
  List.lookup name table

/-- Whether a name is declared. -/
def contains
    (name : String)
    (table : NameTable α) :
    Bool :=
  (find? name table).isSome

/-- The table of declarations made in the order of a list. -/
def ofList
    (declarations : List (String × α)) :
    NameTable α :=
  declarations.reverse

/-- Looking up finds the declaration just made, and otherwise the older ones. -/
theorem find?_insert
    (wanted name : String)
    (value : α)
    (table : NameTable α) :
    find? wanted (insert name value table) =
      if wanted = name then some value else find? wanted table := by
  by_cases same : wanted = name
  · simp [find?, insert, same]
  · simp [find?, insert, List.lookup_cons, same, beq_eq_false_iff_ne.2 same]

end NameTable

end LoopLowering
