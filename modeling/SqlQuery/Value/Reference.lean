import SqlQuery.Text.CharClass
import SqlQuery.Value.Basic

/-!
# References as text

The path `Person.name` is written `$Person.$name`. Reading is more liberal: the marks after the
first are optional. Text is a reference only if all segments are identifiers, so that data such as
`$5 off` stays text.
-/

namespace SqlQuery.Reference

open SqlQuery.Text

/-- A path with a dollar sign before each segment. -/
def text (path : String) : String :=
  joinWith "." ((splitOn '.' path.toList).map fun segment => "$" ++ String.ofList segment)

/-- A letter or underscore followed by letters, numbers and underscores. -/
def isIdentifier : List Char → Bool
  | [] => false
  | c :: cs => (isAlphabetic c || c = '_') && cs.all fun c => isAlphanumeric c || c = '_'

def unmark : List Char → List Char
  | '$' :: segment => segment
  | segment => segment

/-- The path that a text refers to. -/
def parse? (text : String) : Option String :=
  match text.toList with
  | '$' :: cs =>
    let segments := (splitOn '.' cs).map unmark
    if segments.all isIdentifier then some (joinWith "." (segments.map String.ofList)) else none
  | _ => none

end SqlQuery.Reference
