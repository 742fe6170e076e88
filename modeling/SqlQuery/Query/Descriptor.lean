import SqlQuery.Query.Basic

/-!
# Descriptors

The document that a query is written as. Its parts stand in a fixed order, and those that a query
lacks are left out.
-/

namespace SqlQuery

def Column.list (columns : List Column) : Value := .array (columns.map Column.selectEntry)

/-- A join as a document. Of its query only the filter and the columns are told. -/
def Lookup.value (l : Lookup Query) : Value :=
  let stages (q : Query) : Value :=
    .object [("$match", q.filter.getD .null), ("$project", Column.list q.columns)]
  .object
    ([("from", .string l.source), ("localField", .string l.localField),
      ("foreignField", .string l.foreignField)] ++
      (l.label.map fun label => ("as", Value.string label)).toList ++
      (l.pipeline.map fun q => ("pipeline", stages q)).toList)

/-- The directions of an order as markers. -/
def Direction.markers (order : Entries Direction) : Value :=
  .object (order.map fun entry => (entry.1, .int entry.2.marker))

/-- A number of rows, of which the ones that are too large are written as the largest integer. -/
def Value.ofCount (n : UInt64) : Value :=
  .int ((Decimal.fitInt64? n.toNat).getD Int64.maxValue)

namespace Query

/-- The collection: its name, or a reference under its label. -/
def collectionValue (c : Collection) : Value :=
  match c.label with
  | some label => .entry label (.ref c.name)
  | none => .string c.name

/-- A statement's key and value. The value stands under the name of the collection, if there is one. -/
def statementEntry (name? : Option String) (s : Statement) : String × Value :=
  let under (value : Value) : Value :=
    match name? with
    | some name => .entry name value
    | none => value
  match s with
  | .select columns => ("select", under (Column.list columns))
  | .insert rows => ("insert", under rows.value)
  | .update values => ("update", under (.object (values.getD [])))
  | .delete => ("delete", .string (name?.getD ""))

/-- A part that is present. -/
def part (key : String) (value? : Option Value) : Document := (value?.map fun value => (key, value)).toList

def descriptor (q : Query) : Document :=
  part "collection" (q.collection.map collectionValue) ++
    (q.statement.map (statementEntry (q.collection.map (·.name)))).toList ++
    part "match" q.filter ++
    part "prepared" q.prepared ++
    part "order" (q.order.map Direction.markers) ++
    part "group" (q.group.map Direction.markers) ++
    part "expand" (if q.expand.isEmpty then none else some (.array (q.expand.map Lookup.value))) ++
    part "addFields" (if q.computed.isEmpty then none else some (.object q.computed)) ++
    part "distinct" (if q.distinct then some (.bool true) else none) ++
    part "fixed" (if q.fixed then some (.bool true) else none) ++
    part "count" (q.count.map Value.string) ++
    part "skip" (q.skip.map Value.ofCount) ++
    part "limit" (q.limit.map Value.ofCount)

end Query

end SqlQuery
