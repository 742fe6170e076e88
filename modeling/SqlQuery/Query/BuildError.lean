import SqlQuery.Value.Encoding

/-!
# Faults in building queries

A step of a build can be given an argument that it does not take, or come too early, before what it
completes has been started.
-/

namespace SqlQuery

/-- What a step requires to have been set before. -/
inductive Requirement where
  | insertion | updating | labelTarget | operand | join | joinedCollection | order
  deriving DecidableEq, Repr

def Requirement.describe : Requirement → String
  | .insertion => "an insert"
  | .updating => "an update"
  | .labelTarget => "a join, a field or a collection"
  | .operand => "a field set by where(), and() or or()"
  | .join => "a join"
  | .joinedCollection => "a collection on the joined query"
  | .order => "order_by() or order_by_descending()"

/-- Why a step of a build fails. -/
inductive BuildError where
  /-- A row that is no document. -/
  | rowNotDocument (kind : String)
  | noRows
  /-- The values of an update that are no document. -/
  | valuesNotDocument (kind : String)
  /-- The values of a membership that are no list. -/
  | valuesNotList (kind : String)
  | emptyLabel
  | emptyJoinedName
  | noFields
  | constantKey (label : String)
  | notAField (kind : String)
  | constantField (label : String)
  | notOneField (count : Nat)
  | emptyFieldName
  | notBareField (fragment : Value)
  | missing (step : String) (requirement : Requirement)

/-- The wording of an argument that is not taken. -/
def BuildError.invalid (argument reason : String) : String :=
  "Invalid argument '" ++ argument ++ "': " ++ reason

def BuildError.message : BuildError → String
  | .rowNotDocument kind => invalid "row" ("expected a document, got a " ++ kind)
  | .noRows => invalid "rows" "at least one row is required"
  | .valuesNotDocument kind => invalid "values" ("expected a document, got a " ++ kind)
  | .valuesNotList kind => invalid "values" ("expected an array, got a " ++ kind)
  | .emptyLabel => invalid "alias" "cannot be empty"
  | .emptyJoinedName => invalid "collection" "join collection cannot be empty"
  | .noFields => invalid "fields" "at least one field is required"
  | .constantKey label => invalid "fields" ("constant '" ++ label ++ "' cannot be sorted or grouped")
  | .notAField kind => invalid "fields" ("a " ++ kind ++ " cannot be used as a field")
  | .constantField label => invalid "field" ("constant '" ++ label ++ "' is not a field")
  | .notOneField count => invalid "field" ("expected exactly one field, got " ++ Decimal.natText count)
  | .emptyFieldName => invalid "field" "cannot be empty"
  | .notBareField fragment => invalid "field" (fragment.text ++ " is not a bare field")
  | .missing step requirement => step ++ "() requires " ++ requirement.describe

end SqlQuery
