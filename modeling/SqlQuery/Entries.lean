/-!
# Entries in insertion order

An association list with at most one entry per key. `insert` replaces the value of a key that is
present and keeps its place; a new key goes to the end.
-/

namespace SqlQuery

/-- Values under keys, in the order in which the keys were first inserted. -/
abbrev Entries (α : Type) := List (String × α)

namespace Entries

variable {α : Type}

def get? (key : String) : Entries α → Option α
  | [] => none
  | (k, v) :: rest => if k = key then some v else get? key rest

/-- Puts a value under a key, in the key's place if it has one and at the end if not. -/
def insert (key : String) (value : α) : Entries α → Entries α
  | [] => [(key, value)]
  | (k, v) :: rest => if k = key then (k, value) :: rest else (k, v) :: insert key value rest

def insertAll (entries : List (String × α)) (start : Entries α) : Entries α :=
  entries.foldl (fun acc entry => insert entry.1 entry.2 acc) start

/-- The entries of a list; a repeated key keeps its first place and its last value. -/
def ofList (entries : List (String × α)) : Entries α := insertAll entries []

def keys (entries : Entries α) : List String := entries.map Prod.fst

end Entries

end SqlQuery
