import ForeignBindings.Text.Basic

/-! Values under names, in increasing order of the names. -/

namespace ForeignBindings

/-- Values under names. -/
abbrev Catalog (α : Type) := List (Text × α)

namespace Catalog

variable {α : Type}

/-- The catalog with a value under a name, new or in place of another. -/
def insert (name : Text) (value : α) : Catalog α → Catalog α
  | [] => [(name, value)]
  | (other, old) :: rest =>
    if name < other then (name, value) :: (other, old) :: rest
    else if name = other then (name, value) :: rest
    else (other, old) :: insert name value rest

/-- The entries in increasing order of their names; the first under a name counts. -/
def sorted (entries : List (Text × α)) : Catalog α :=
  entries.foldr (fun (name, value) catalog => insert name value catalog) []

/-- The catalog without a name. -/
def erase (name : Text) (catalog : Catalog α) : Catalog α :=
  catalog.filter fun (other, _) => other != name

/-- The names in order. -/
def names (catalog : Catalog α) : List Text := catalog.map Prod.fst

end Catalog

end ForeignBindings
