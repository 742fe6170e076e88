import SqlQuery.Query.Step
import SqlQuery.Sql.Statement

/-!
# From text to SQL

A text is taken through all stages with the usual formatter.
-/

namespace SqlQuery

open Sql (Formatter)

inductive Outcome where
  | sql (text : String)
  | rejected
  /-- Rendering the same expression twice gave two values that differ. -/
  | inconsistent

/-- The SQL of a rendered filter, if rendering it again gives the same value. A value that holds a
NaN is never the same, not even as itself. -/
def checkRendered (first again : Value) : Outcome :=
  if again.same first then
    match Formatter.filter {} first with
    | .ok text => .sql text
    | .error _ => .rejected
  else .inconsistent

/-- The SQL condition of a filter's text. -/
def checkFilter (text : String) : Outcome :=
  match Filter.parse text with
  | .error _ => .rejected
  | .ok e =>
    match e.render with
    | .error _ => .rejected
    | .ok rendered => checkRendered rendered rendered

/-- The select of the rows of which a closure holds. -/
def closureQuery (collection source : String) : Except Error Query :=
  Query.build [.selectAll, .fromCollection { name := collection }, .whereClosure { source }]

/-- The SQL of that select, none if any stage fails. -/
def checkClosure (source : String) : Option String :=
  match closureQuery "Fuzz" source with
  | .ok q => (Formatter.format {} q).toOption
  | .error _ => none

end SqlQuery
