import SqlQuery.Sql.Dialect

/-!
# Operands of LIKE

A text is matched literally, with an open end on either side: the wildcards in it are escaped by an
exclamation mark, and an ESCAPE clause says so when there are any.
-/

namespace SqlQuery.Sql

/-- A text to match, and the sides on which more may follow. -/
structure LikePattern where
  openStart : Bool
  text : String
  openEnd : Bool

namespace LikePattern

def escapeChar : Char := '!'

/-- The characters that a pattern does not take literally. -/
def isSpecial (c : Char) : Bool := c = '%' || c = '_' || c = escapeChar

/-- A character of the text in the pattern. -/
def escape (c : Char) : List Char := if isSpecial c then [escapeChar, c] else [c]

def chars (p : LikePattern) : List Char :=
  (if p.openStart then ['%'] else []) ++ p.text.toList.flatMap escape ++ if p.openEnd then ['%'] else []

def operand (p : LikePattern) (d : Dialect) : String :=
  d.quote (String.ofList p.chars) ++ if p.text.toList.any isSpecial then " ESCAPE '!'" else ""

/-- What an expression matches: all of a text between `^` and `$`, its start after `^`, its end before
`$`, and else any part of it. -/
def ofRegex (pattern : String) : LikePattern :=
  match pattern.toList with
  | '^' :: cs =>
    if cs.getLast? = some '$' then ⟨false, String.ofList cs.dropLast, false⟩
    else ⟨false, String.ofList cs, true⟩
  | cs =>
    if cs.getLast? = some '$' then ⟨true, String.ofList cs.dropLast, false⟩
    else ⟨true, pattern, true⟩

end LikePattern

end SqlQuery.Sql
