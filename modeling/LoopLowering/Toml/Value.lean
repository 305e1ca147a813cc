namespace LoopLowering

/-!
# TOML values

Options are written as a TOML text, a tree of tables. How a table came to be
decides whether a later line may add to it.
-/

/-- How a table came to be. -/
inductive TomlTableKind where
  /-- By a header of its own. -/
  | declared
  /-- By the header of a table inside it. -/
  | implied
  /-- By a key with a dot. -/
  | dotted
  /-- As a value in braces. -/
  | inline
  deriving Repr, DecidableEq

/-- A TOML value. -/
inductive Toml where
  | string (value : String)
  | bool (value : Bool)
  | integer (value : Int)
  /-- A number that is no integer, by its spelling. -/
  | float (spelling : String)
  /-- A date, a time of day, or both, by their spelling. -/
  | moment (spelling : String)
  | array (items : List Toml)
  | table (kind : TomlTableKind) (members : List (String × Toml))
  deriving Repr, Inhabited

/-- The members of a table, in the order they are written. -/
abbrev TomlMembers := List (String × Toml)

namespace TomlMembers

/-- Change the member of a name, or add one. -/
def update
    (name : String)
    (value : Toml) :
    TomlMembers → TomlMembers
  | [] => [(name, value)]
  | (other, old) :: rest =>
      if other = name then (name, value) :: rest else (other, old) :: update name value rest

/-- Give a key below dotted names a value, unless it has one. Dotted names
create tables and add to those that dotted names created. -/
def assign
    (key : String)
    (value : Toml) :
    (path : List String) → TomlMembers → Option TomlMembers
  | [], members => if (members.lookup key).isSome then none else some (members ++ [(key, value)])
  | name :: path, members =>
      match members.lookup name with
      | none =>
          (assign key value path []).map (fun inner =>
            members.update name (.table .dotted inner))
      | some (.table .dotted inner) =>
          (assign key value path inner).map (fun inner =>
            members.update name (.table .dotted inner))
      | some (.table .implied inner) =>
          if path.isEmpty then
            none
          else
            (assign key value path inner).map (fun inner =>
              members.update name (.table .implied inner))
      | some _ => none

/-- Change the members of the table that a header has declared. -/
def within
    (change : TomlMembers → Option TomlMembers) :
    (path : List String) → TomlMembers → Option TomlMembers
  | [], members => change members
  | name :: path, members =>
      match members.lookup name with
      | some (.table kind inner) =>
          (within change path inner).map (fun inner => members.update name (.table kind inner))
      | _ => none

/-- Declare a table by its header. A table can be declared once, also after a
header of a table inside it. -/
def declare :
    (path : List String) → TomlMembers → Option TomlMembers
  | [], _ => none
  | [name], members =>
      match members.lookup name with
      | none => some (members.update name (.table .declared []))
      | some (.table .implied inner) => some (members.update name (.table .declared inner))
      | some _ => none
  | name :: path, members =>
      match members.lookup name with
      | none => (declare path []).map (fun inner => members.update name (.table .implied inner))
      | some (.table .inline _) => none
      | some (.table kind inner) =>
          (declare path inner).map (fun inner => members.update name (.table kind inner))
      | some _ => none

end TomlMembers

end LoopLowering
