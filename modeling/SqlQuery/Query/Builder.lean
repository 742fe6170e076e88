import SqlQuery.Query.Merge
import SqlQuery.Query.Operand
import SqlQuery.Query.Source

/-!
# Building queries

A query is built step by step. Between the steps a builder holds, besides the query, what a later
step completes: the left side of a comparison, the operator that joins the comparison to the filter,
and a join that lacks its condition.
-/

namespace SqlQuery

/-- A join that lacks its condition. -/
structure OpenJoin where
  source : String
  label : Option String
  pipeline : Option Query

/-- The comparison that an operand is completed with. -/
inductive Comparison where
  | equal (value : Value)
  | notEqual (value : Value)
  | greaterThan (value : Value)
  | greaterOrEqual (value : Value)
  | lowerThan (value : Value)
  | lowerOrEqual (value : Value)
  | isIn (values : Value)
  | notIn (values : Value)
  | startsWith (text : String)
  | endsWith (text : String)
  | contains (value : Value)
  | notContains (value : Value)

namespace Comparison

def name : Comparison → String
  | .equal _ => "equal"
  | .notEqual _ => "not_equal"
  | .greaterThan _ => "greater_than"
  | .greaterOrEqual _ => "greater_or_equal"
  | .lowerThan _ => "lower_than"
  | .lowerOrEqual _ => "lower_or_equal"
  | .isIn _ => "in"
  | .notIn _ => "not_in"
  | .startsWith _ => "starts_with"
  | .endsWith _ => "ends_with"
  | .contains _ => "contains"
  | .notContains _ => "not_contains"

/-- The condition that a text matches a pattern, whatever the case of its letters. -/
def pattern (regex : String) : Value := .object [("$regex", .string regex), ("$options", .string "i")]

def search (value : Value) : Value := .entry "$text" (.entry "$search" value)

def membership (op : ComparisonOp) (values : Value) : Except BuildError Value :=
  match values with
  | .array items => .ok (.entry op.key (.array items))
  | other => .error (.valuesNotList other.kind)

/-- The condition on the left side. Equality with a scalar is that scalar. -/
def condition : Comparison → Except BuildError Value
  | .equal value => .ok (if value.isScalar then value else .entry ComparisonOp.eq.key value)
  | .notEqual value => .ok (.entry ComparisonOp.ne.key value)
  | .greaterThan value => .ok (.entry ComparisonOp.gt.key value)
  | .greaterOrEqual value => .ok (.entry ComparisonOp.gte.key value)
  | .lowerThan value => .ok (.entry ComparisonOp.lt.key value)
  | .lowerOrEqual value => .ok (.entry ComparisonOp.lte.key value)
  | .isIn values => membership .isIn values
  | .notIn values => membership .notIn values
  | .startsWith text => .ok (pattern ("^" ++ text))
  | .endsWith text => .ok (pattern (text ++ "$"))
  | .contains value => .ok (search value)
  | .notContains value => .ok (.entry LogicalOp.not.key (search value))

end Comparison

/-- A query and what is open about it. -/
structure Builder where
  query : Query := {}
  /-- The left side of the comparison in progress. -/
  left : Option Operand := none
  /-- How the next condition is joined to the filter. -/
  connective : Option LogicalOp := none
  join : Option OpenJoin := none

namespace Builder

/-! ### Statements and collections -/

/-- Sets the collection to read. Any statement but a select is dropped. -/
def fromCollection (b : Builder) (c : Collection) : Builder :=
  let statement := match b.query.statement with
    | some (.select columns) => some (.select columns)
    | _ => none
  { b with query := { b.query with collection := some c, statement } }

def select (b : Builder) (p : Projection) : Except Error Builder := do
  let columns ← p.columns
  return { b with query := { b.query with statement := some (.select columns) } }

def selectAll (b : Builder) : Builder :=
  { b with query := { b.query with statement := some (.select []) } }

/-- Starts a statement that changes rows: joins, orders, groups and computed fields are dropped. -/
def start (b : Builder) (s : Statement) : Builder :=
  { b with query :=
      { b.query with statement := some s, computed := [], expand := [], order := none, group := none } }

def insert (b : Builder) (row : Value) : Except BuildError Builder :=
  match row with
  | .object entries => .ok (b.start (.insert (.one entries)))
  | other => .error (.rowNotDocument other.kind)

def insertMany (b : Builder) (rows : List Document) : Except BuildError Builder :=
  match rows with
  | first :: more => .ok (b.start (.insert (.batch first more)))
  | [] => .error .noRows

def into (b : Builder) (c : Collection) : Except BuildError Builder :=
  match b.query.statement with
  | some (.insert _) => .ok { b with query := { b.query with collection := some c } }
  | _ => .error (.missing "into" .insertion)

def update (b : Builder) (c : Collection) : Builder :=
  let b := b.start (.update none)
  { b with query := { b.query with collection := some c } }

def setValues (b : Builder) (values : Value) : Except BuildError Builder :=
  match b.query.statement, values with
  | some (.update _), .object entries =>
    .ok { b with query := { b.query with statement := some (.update (some entries)) } }
  | some (.update _), other => .error (.valuesNotDocument other.kind)
  | _, _ => .error (.missing "set" .updating)

def delete (b : Builder) (c : Collection) : Builder :=
  let b := b.start .delete
  { b with query := { b.query with collection := some c } }

/-- Labels the open join, or else the left side of the comparison, or else the collection. -/
def relabel (b : Builder) (label : String) : Except BuildError Builder :=
  if label.isEmpty then .error .emptyLabel
  else
    match b.join, b.left, b.query.collection with
    | some join, _, _ => .ok { b with join := some { join with label := some label } }
    | none, some left, _ => .ok { b with left := some (left.relabel label) }
    | none, none, some c =>
      .ok { b with query := { b.query with collection := some { c with label := some label } } }
    | none, none, none => .error (.missing "as" .labelTarget)

/-! ### Flags and paging -/

/-- Sets whether equal rows are taken once. -/
def distinct (b : Builder) (flag : Bool) : Builder := { b with query := { b.query with distinct := flag } }

/-- Sets whether the rows are constants. -/
def fixed (b : Builder) (flag : Bool) : Builder := { b with query := { b.query with fixed := flag } }

/-- Asks for the number of rows under a label. -/
def countAs (b : Builder) (label : String) : Builder :=
  { b with query := { b.query with count := some label } }

/-- Sets the number of rows that are left out first. -/
def skip (b : Builder) (n : UInt64) : Builder := { b with query := { b.query with skip := some n } }

/-- Sets the greatest number of rows. -/
def take (b : Builder) (n : UInt64) : Builder := { b with query := { b.query with limit := some n } }

/-- Takes a page, counted from zero. The rows before it are at most the largest count. -/
def paginate (b : Builder) (page size : UInt64) : Builder :=
  (b.skip (UInt64.ofNatClamp (page.toNat * size.toNat))).take size

/-! ### Filters -/

/-- Starts a new filter with a left side. -/
def whereField (b : Builder) (s : Source) : Except Error Builder := do
  let f ← s.field?
  return { b with query := { b.query with filter := none }, connective := none, left := some (.ofField f) }

/-- Goes on with a left side that an operator joins to the filter. -/
def continueWith (b : Builder) (op : LogicalOp) (s : Source) : Except Error Builder := do
  let f ← s.field?
  return { b with connective := some op, left := some (.ofField f) }

def whereExpr (b : Builder) (e : Expr) : Except Error Builder := do
  let rendered ← e.render.mapError .render
  return { b with query := { b.query with filter := some rendered }, connective := none, left := none }

/-- Sets the filter to the condition that a closure states. -/
def whereClosure (b : Builder) (c : Closure) : Except Error Builder := do
  let e ← c.translateFilter.mapError .closure
  b.whereExpr e

/-- Joins a condition to the filter. -/
def addCondition (b : Builder) (op : LogicalOp) (condition : Value) : Builder :=
  { b with query := { b.query with filter := some (mergeFilter b.query.filter op condition) } }

/-- Adds the condition of a filter's text. -/
def filter (b : Builder) (text : String) : Except Error Builder := do
  let e ← (Filter.parse text).mapError .parse
  let rendered ← e.render.mapError .render
  return b.addCondition .and rendered

/-- Sets the filter as it is. -/
def setFilter (b : Builder) (filter : Value) : Builder :=
  { b with query := { b.query with filter := some filter } }

/-- Moves the filter to the one that is kept. -/
def prepare (b : Builder) (op : LogicalOp) : Builder :=
  match b.query.filter with
  | some filter =>
    { b with query :=
        { b.query with filter := none, prepared := some (mergeFilter b.query.prepared op filter) } }
  | none => b

/-! ### Comparisons -/

/-- The left side that a step needs. -/
def leftFor (b : Builder) (step : String) : Except BuildError Operand :=
  match b.left with
  | some left => .ok left
  | none => .error (.missing step .operand)

def transform (b : Builder) (t : Transform) : Except BuildError Builder := do
  let left ← b.leftFor t.method.name
  return { b with left := some (left.apply t) }

/-- Completes the comparison by a condition on its left side. -/
def complete (b : Builder) (left : Operand) (condition : Value) : Builder :=
  let (stated, computed) := left.condition condition b.query.computed
  let b := { b with query := { b.query with computed }, left := none }
  { b.addCondition (b.connective.getD .and) stated with connective := none }

def compare (b : Builder) (c : Comparison) : Except BuildError Builder := do
  let condition ← c.condition -- before the left side, so a bad argument is reported first
  let left ← b.leftFor c.name
  return b.complete left condition

/-- Completes the comparison by two bounds, of which the second is always joined by `and`. -/
def between (b : Builder) (low high : Value) : Except BuildError Builder := do
  let left ← b.leftFor "between"
  let b := b.complete left (.entry ComparisonOp.gte.key low)
  return { b with connective := some .and }.complete left (.entry ComparisonOp.lte.key high)

/-! ### Joins -/

def openJoin (b : Builder) (s : JoinSource) : Except BuildError Builder := do
  let (c, pipeline) ← s.target
  if c.name.isEmpty then .error .emptyJoinedName
  else return { b with join := some ⟨c.name, c.label, pipeline⟩ }

/-- Completes the open join by the fields that must be equal. -/
def joinOn (b : Builder) (localKey foreignKey : JoinKey) : Except Error Builder :=
  match b.join with
  | none => .error (.build (.missing "with" .join))
  | some join => do
    let localField ← localKey.fieldName
    let foreignField ← foreignKey.fieldName
    let lookup : Lookup Query := ⟨join.source, join.label, join.pipeline, localField, foreignField⟩
    return { b with join := none, query := { b.query with expand := b.query.expand ++ [lookup] } }

/-! ### Orders and groups -/

/-- The names that an order or a group refers to, in one direction, and the computed fields with
them. -/
def sortKeys (b : Builder) (p : Projection) (d : Direction) :
    Except Error (List (String × Direction) × Document) := do
  let columns ← p.columns
  if columns.isEmpty then .error (.build .noFields)
  else
    let (names, computed) ← (Column.keys columns b.query.computed).mapError .build
    return (names.map fun name => (name, d), computed)

def orderBy (b : Builder) (d : Direction) (p : Projection) : Except Error Builder := do
  let (keys, computed) ← b.sortKeys p d
  return { b with query := { b.query with order := some (Entries.ofList keys), computed } }

/-- The name of the step that extends an order. -/
def thenByName : Direction → String
  | .ascending => "then_by"
  | .descending => "then_by_descending"

/-- Extends the order. A name that it has already changes its direction and keeps its place. -/
def thenBy (b : Builder) (d : Direction) (p : Projection) : Except Error Builder :=
  match b.query.order with
  | none => .error (.build (.missing (thenByName d) .order))
  | some order => do
    let (keys, computed) ← b.sortKeys p d
    return { b with query := { b.query with order := some (Entries.insertAll keys order), computed } }

def groupBy (b : Builder) (p : Projection) : Except Error Builder := do
  let (keys, computed) ← b.sortKeys p .ascending
  return { b with query := { b.query with group := some (Entries.ofList keys), computed } }

end Builder

end SqlQuery
