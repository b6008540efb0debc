/-!
# Tables

A table holds values under names, in the order in which the names were first put.
-/

namespace ArmaGen

abbrev Table (α : Type) := List (String × α)

namespace Table

variable {α β : Type}

def put (name : String) (value : α) : Table α → Table α
  | [] => [(name, value)]
  | (other, old) :: rest =>
    if other == name then (other, value) :: rest else (other, old) :: put name value rest

def update (table : Table α) (other : Table α) : Table α :=
  other.foldl (fun table (name, value) => table.put name value) table

def get? (table : Table α) (name : String) : Option α :=
  table.lookup name

def mapValues (f : α → β) (table : Table α) : Table β :=
  table.map fun (name, value) => (name, f value)

end Table

end ArmaGen
