import SqlQuery.Collection
import SqlQuery.Field

/-!
# Queries

What a query reads or changes, which rows it takes, and how they are ordered, grouped, joined and
paged. A query is the finished result of building one; what is still open while it is built is kept
apart from it.
-/

namespace SqlQuery

inductive Direction where
  | ascending | descending
  deriving DecidableEq, Repr

def Direction.marker : Direction → Int64
  | .ascending => -1
  | .descending => 1

def Direction.ofMarker (marker : Int) : Direction := if marker = -1 then .ascending else .descending

/-- What an insert adds: one row, or a batch with at least one. -/
inductive Rows where
  | one (row : Document)
  | batch (first : Document) (more : List Document)

namespace Rows

def toList : Rows → List Document
  | .one row => [row]
  | .batch first more => first :: more

def first : Rows → Document
  | .one row => row
  | .batch row _ => row

/-- The document of one row, or the list of a batch. -/
def value : Rows → Value
  | .one row => .object row
  | .batch first more => .array (.object first :: more.map Value.object)

end Rows

inductive Statement where
  /-- Without columns, all are selected. -/
  | select (columns : List Column)
  | insert (rows : Rows)
  | update (values : Option Document)
  | delete

/-- A join of another collection, or of a part of it that a query of its own selects. -/
structure Lookup (α : Type) where
  source : String
  label : Option String
  pipeline : Option α
  localField : String
  foreignField : String

/-- The name that the joined fields are qualified with. -/
def Lookup.outputName {α : Type} (l : Lookup α) : String := l.label.getD l.source

structure Query where
  collection : Option Collection := none
  statement : Option Statement := none
  /-- The filter of the rows. -/
  filter : Option Value := none
  /-- A filter that is kept when another one is set. -/
  prepared : Option Value := none
  order : Option (Entries Direction) := none
  group : Option (Entries Direction) := none
  expand : List (Lookup Query) := []
  /-- The expressions that filters and orders refer to by label. -/
  computed : Document := []
  distinct : Bool := false
  /-- The rows are constants, and no collection is read. -/
  fixed : Bool := false
  /-- The label of the number of rows, which is asked for in place of them. -/
  count : Option String := none
  skip : Option UInt64 := none
  limit : Option UInt64 := none

namespace Query

/-- The columns of a select; other statements have none. -/
def columns (q : Query) : List Column :=
  match q.statement with
  | some (.select columns) => columns
  | _ => []

end Query

end SqlQuery
