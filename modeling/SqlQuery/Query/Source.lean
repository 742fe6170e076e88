import SqlQuery.Error
import SqlQuery.Query.Basic

/-!
# Where fields come from

Fields are given by name, as they are, or by a closure or an expression that is rendered first: a
reference is a field, and a document is one column per entry.
-/

namespace SqlQuery

/-- One way to give fields. -/
inductive Source where
  | name (name : String)
  | field (f : Field)
  | closure (c : Closure)
  | expr (e : Expr)

/-- The columns of a rendered expression. -/
def Column.ofRendered : Value → Except Error (List Column)
  | .ref path => .ok [.field (Field.ofName path)]
  | .object entries => (Column.ofDocument entries).mapError .field
  | value => .error (.build (.notAField value.kind))

def Column.ofExpr (e : Expr) : Except Error (List Column) := do
  let rendered ← e.render.mapError .render
  Column.ofRendered rendered

def Column.ofClosure (c : Closure) : Except Error (List Column) := do
  let e ← c.translate.mapError .closure
  Column.ofExpr e

/-- The field of a list of columns with nothing else in it. -/
def Field.only : List Column → Except BuildError Field
  | [.field f] => .ok f
  | [.constant label _] => .error (.constantField label)
  | columns => .error (.notOneField columns.length)

namespace Source

/-- All columns that a source gives. -/
def columns : Source → Except Error (List Column)
  | .name text => ((Field.ofName? text).map fun f => [.field f]).mapError .field
  | .field f => .ok [.field f]
  | .closure c => Column.ofClosure c
  | .expr e => Column.ofExpr e

/-- The one field that a source gives. -/
def field? (s : Source) : Except Error Field := do
  let columns ← s.columns
  (Field.only columns).mapError .build

end Source

inductive Projection where
  | one (source : Source)
  | constant (label : String) (value : Value)
  | list (items : List Projection)

namespace Projection

mutual

/-- The columns that a projection gives, in order. -/
def columns : Projection → Except Error (List Column)
  | .one source => source.columns
  | .constant label value => .ok [.constant label value]
  | .list items => allColumns items

def allColumns : List Projection → Except Error (List Column)
  | [] => .ok []
  | item :: items => do
    let first ← columns item
    let more ← allColumns items
    return first ++ more

end

end Projection

/-- One side of a join condition: the name of a field, or a closure that gives one. -/
inductive JoinKey where
  | name (name : String)
  | closure (c : Closure)

/-- The name of a field that is nothing else. -/
def Field.bareName (f : Field) : Except BuildError String :=
  match f.name? with
  | some name => .ok name
  | none => .error (.notBareField f.fragment)

/-- The name of the field that a join compares. -/
def JoinKey.fieldName : JoinKey → Except Error String
  | .name text => if text.isEmpty then .error (.build .emptyFieldName) else .ok text
  | .closure c => do
    let columns ← Column.ofClosure c
    let f ← (Field.only columns).mapError .build
    f.bareName.mapError .build

/-- What a join reads: a collection, or the rows that a query selects. -/
inductive JoinSource where
  | collection (c : Collection)
  | query (q : Query)

/-- The collection that a join reads, and the query that selects its rows. -/
def JoinSource.target : JoinSource → Except BuildError (Collection × Option Query)
  | .collection c => .ok (c, none)
  | .query q =>
    match q.collection with
    | some c => .ok (c, some q)
    | none => .error (.missing "join" .joinedCollection)

end SqlQuery
