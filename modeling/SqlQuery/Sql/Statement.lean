import SqlQuery.Query.Basic
import SqlQuery.Sql.Condition

/-!
# SQL statements

The SQL of a query. A select is its columns, its source with joins, and the clauses that follow; the
query of a join is a select in parentheses. In filters, orders and columns the labels of computed fields
stand for their expressions.
-/

namespace SqlQuery.Sql.Formatter

/-! ### Columns, orders and groups -/

/-- The part of a dotted name after its last dot, if it has a dot. -/
def lastSegment? (name : String) : Option String :=
  match (Text.splitOn '.' name.toList).reverse with
  | last :: _ :: _ => some (String.ofList last)
  | _ => none

/-- A bare field as a column. A computed field is written out under its name; a dotted name can be
given its last part as an alias. -/
def simpleColumn (f : Formatter) (computed : Document) (name : String) : Except FormatError String :=
  match Entries.get? name computed with
  | some value => do
    let sql ← f.expression value
    return sql ++ f.style.aliasClause name
  | none =>
    match lastSegment? name with
    | some last => .ok (f.style.name name ++ if f.style.forceAlias then f.style.aliasClause last else "")
    | none => .ok (f.style.name name)

def columnIn (f : Formatter) (computed : Document) : Column → Except FormatError String
  | .constant label value => do
    let sql ← f.constant value
    return sql ++ f.style.aliasClause label
  | .field ⟨.simple name, none⟩ => f.simpleColumn computed name
  | .field ⟨term, none⟩ => f.expressionIn (f.scopeOf computed) term.value
  | .field ⟨term, some label⟩ => do
    let sql ← f.expressionIn (f.scopeOf computed) term.value
    return sql ++ f.style.aliasClause label

def column (f : Formatter) (c : Column) : Except FormatError String := f.columnIn [] c

/-- The columns of a select, all of them if none is named. -/
def columnList (f : Formatter) (computed : Document) (columns : List Column) : Except FormatError String :=
  if columns.isEmpty then .ok "*"
  else do
    let texts ← columns.mapM (f.columnIn computed)
    return Text.joinWith ", " texts

def directionWord : Direction → String
  | .ascending => "ASC"
  | .descending => "DESC"

def orderKey (f : Formatter) (computed : Document) (entry : String × Direction) : Except FormatError String := do
  let sql ← f.scopeOf computed entry.1
  return sql ++ " " ++ directionWord entry.2

def orderIn (f : Formatter) (computed : Document) (order : Entries Direction) : Except FormatError String := do
  let texts ← order.mapM (f.orderKey computed)
  return Text.joinWith ", " texts

def groupIn (f : Formatter) (computed : Document) (group : Entries Direction) : Except FormatError String := do
  let texts ← group.mapM fun entry => f.scopeOf computed entry.1
  return Text.joinWith ", " texts

def order (f : Formatter) (order : Entries Direction) : Except FormatError String := f.orderIn [] order

def group (f : Formatter) (group : Entries Direction) : Except FormatError String := f.groupIn [] group

/-! ### Clauses -/

/-- The condition on the rows that a query takes: the filter that is kept and the current one, each in
parentheses. -/
def whereCondition (f : Formatter) (q : Query) : Except FormatError (Option Condition) := do
  let cs ← (q.prepared.toList ++ q.filter.toList).mapM (f.filterIn (f.scopeOf q.computed))
  return if cs.isEmpty then none else some (.chain .and (cs.map Condition.group))

/-- The clause of the rows that a query takes, empty if it takes all. -/
def whereClause (f : Formatter) (q : Query) : Except FormatError String := do
  match ← f.whereCondition q with
  | some c => return " WHERE " ++ c.text
  | none => return ""

/-- A clause of the keys that there are, none if there are none. -/
def keyClause (word : String) (keys : Option (Entries Direction))
    (text : Entries Direction → Except FormatError String) : Except FormatError String :=
  match keys with
  | none => .ok ""
  | some [] => .ok ""
  | some keys => do
    let sql ← text keys
    return word ++ sql

/-- The clauses after the joins: filter, group, order and paging. -/
def clauses (f : Formatter) (q : Query) : Except FormatError String := do
  let filter ← f.whereClause q
  let group ← keyClause " GROUP BY " q.group (f.groupIn q.computed)
  let order ← keyClause " ORDER BY " q.order (f.orderIn q.computed)
  return filter ++ group ++ order ++ f.dialect.paging q.skip q.limit

/-- A collection as a source, under its label if it has one. -/
def source (f : Formatter) (name : String) (label : Option String) : String :=
  match label with
  | some label => f.style.name name ++ f.style.aliasClause label
  | none => f.style.name name

/-- A field of a collection; one that is dotted already stays as it is. -/
def qualified (owner field : String) : String :=
  if '.' ∈ field.toList then field else owner ++ "." ++ field

/-- The condition of a join, between the main collection and the joined one. -/
def joinClause (f : Formatter) (source main joined localField foreignField : String) : String :=
  " INNER JOIN " ++ source ++ " ON " ++ f.style.name (qualified main localField) ++ "=" ++
    f.style.name (qualified joined foreignField)

/-! ### Selects -/

mutual

def select (f : Formatter) : Query → Except FormatError String
  | q@{ expand, .. } =>
    match q.collection with
    | none => .error .missingCollection
    | some c => do
      let columns ← f.columnList q.computed q.columns
      let joins ← joins f c.outputName expand
      let clauses ← f.clauses q
      return "SELECT " ++ (if q.distinct then "DISTINCT " else "") ++ columns ++ " FROM " ++
        f.source c.name c.label ++ joins ++ clauses

/-- The joins of a query with its main collection. -/
def joins (f : Formatter) (main : String) : List (Lookup Query) → Except FormatError String
  | [] => .ok ""
  | ⟨name, label, none, localField, foreignField⟩ :: rest => do
    let more ← joins f main rest
    return f.joinClause (f.source name label) main (label.getD name) localField foreignField ++ more
  | ⟨name, label, some pipeline, localField, foreignField⟩ :: rest => do
    let inner ← select f pipeline
    let more ← joins f main rest
    let joined := label.getD name
    return f.joinClause ("(" ++ inner ++ ")" ++ f.style.aliasClause joined) main joined localField foreignField ++
      more

end

/-- A select of constants, as the rows of a table with one row. -/
def fixedSelect (f : Formatter) (q : Query) : Except FormatError String :=
  match q.collection with
  | none => .error .missingCollection
  | some c =>
    if q.columns.isEmpty then .error .emptyProjection
    else do
      let columns ← f.columnList [] q.columns
      let joins ← f.joins c.outputName q.expand
      let clauses ← f.clauses q
      return "SELECT * FROM (SELECT " ++ columns ++ ")" ++ f.style.aliasClause c.outputName ++ joins ++ clauses

/-- The rows of a query, which are constants if it says so. -/
def rows (f : Formatter) (q : Query) : Except FormatError String :=
  if q.fixed then f.fixedSelect q else f.select q

/-- The number of rows of a query, under its label. -/
def count (f : Formatter) (q : Query) : Except FormatError String := do
  let inner ← f.rows q
  return "SELECT COUNT(*)" ++ f.style.aliasClause (q.count.getD "total") ++ " FROM (" ++ inner ++ ")" ++
    f.style.aliasClause "c0"

/-! ### Changes -/

/-- The values of a row in the order of the columns. A column that a row lacks is null. -/
def rowValues (f : Formatter) (columns : List String) (row : Document) : Except FormatError String := do
  let texts ← columns.mapM fun column => f.constant ((Entries.get? column row).getD .null)
  return "(" ++ Text.joinWith ", " texts ++ ")"

/-- The rows of an insert into a collection. The first row tells the columns. -/
def insertRows (f : Formatter) (name : String) (rows : Rows) : Except FormatError String := do
  let columns := Entries.keys rows.first
  let texts ← rows.toList.mapM (f.rowValues columns)
  return "INSERT INTO " ++ f.style.name name ++ "(" ++ Text.joinWith ", " (columns.map f.style.name) ++
    ") VALUES " ++ Text.joinWith ", " texts

def insert (f : Formatter) (q : Query) : Except FormatError String :=
  match q.collection, q.statement with
  | none, _ => .error .missingCollection
  | some c, some (.insert rows) => f.insertRows c.name rows
  | some _, _ => .error .missingOperation

/-- The new value of a column. -/
def assignment (f : Formatter) (entry : String × Value) : Except FormatError String := do
  let sql ← f.expression entry.2
  return f.style.name entry.1 ++ "=" ++ sql

/-- An update of the rows that a query takes. -/
def updateValues (f : Formatter) (name : String) (values : Document) (q : Query) : Except FormatError String :=
  if values.isEmpty then .error .emptyUpdate
  else do
    let texts ← values.mapM f.assignment
    let filter ← f.whereClause q
    return "UPDATE " ++ f.style.name name ++ " SET " ++ Text.joinWith ", " texts ++ filter

def update (f : Formatter) (q : Query) : Except FormatError String :=
  match q.collection, q.statement with
  | none, _ => .error .missingCollection
  | some c, some (.update values) => f.updateValues c.name (values.getD []) q
  | some _, _ => .error .missingOperation

/-- A deletion of the rows that a query takes. -/
def delete (f : Formatter) (q : Query) : Except FormatError String :=
  match q.collection with
  | none => .error .missingCollection
  | some c => do
    let filter ← f.whereClause q
    return "DELETE FROM " ++ f.style.name c.name ++ filter

/-! ### Statements -/

/-- The SQL of a query. -/
def format (f : Formatter) (q : Query) : Except FormatError String :=
  match q.collection, q.statement with
  | none, _ => .error .missingCollection
  | some _, none => .error .missingOperation
  | some _, some (.select _) => if q.count.isSome then f.count q else f.rows q
  | some _, some (.insert _) => f.insert q
  | some _, some (.update _) => f.update q
  | some _, some .delete => f.delete q

end SqlQuery.Sql.Formatter
