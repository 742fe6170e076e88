import SqlQuery.Decimal.Layout
import SqlQuery.Method
import SqlQuery.Text.CharClass

/-!
# Dialects

The three dialects differ in quoted literals, date parts, positions, concatenation and paging. The
default one, `mysql`, escapes with a backslash; the others only double the quotes of a literal.
-/

namespace SqlQuery.Sql

inductive Dialect where
  | mysql | postgres | sqlite
  deriving DecidableEq, Repr

namespace Dialect

/-- A character inside a literal that is escaped by backslashes. -/
def backslashEscape (c : Char) : List Char :=
  if c = '\x00' then ['\\', '0']
  else if c = '\n' then ['\\', 'n']
  else if c = '\r' then ['\\', 'r']
  else if c = '\x08' then ['\\', 'b']
  else if c = '\t' then ['\\', 't']
  else if c = '\x1a' then ['\\', 'Z']
  else if c = '\\' ∨ c = '\x27' ∨ c = '"' then ['\\', c]
  else [c]

/-- A character inside a literal in which quotes are doubled. -/
def doubledQuote (c : Char) : List Char := if c = '\x27' then ['\x27', '\x27'] else [c]

def escape : Dialect → Char → List Char
  | .mysql => backslashEscape
  | .postgres => doubledQuote
  | .sqlite => doubledQuote

/-- A text as a quoted literal. -/
def quote (d : Dialect) (s : String) : String :=
  String.ofList ('\x27' :: (s.toList.flatMap d.escape ++ ['\x27']))

/-- The function of a date part, as one word. -/
def datePartWord : DatePart → String
  | .day => "DAY"
  | .weekday => "DAYOFWEEK"
  | .month => "MONTH"
  | .year => "YEAR"
  | .hour => "HOUR"
  | .minute => "MINUTE"
  | .second => "SECOND"
  | .date => "DATE"

def datePartLetter : DatePart → String
  | .day => "d"
  | .weekday => "w"
  | .month => "m"
  | .year => "Y"
  | .hour => "H"
  | .minute => "M"
  | .second => "S"
  | .date => "F"

/-- A part of a moment; days of the week count from one on Sunday in every dialect. -/
def datePart (d : Dialect) (part : DatePart) (inner : String) : String :=
  match d, part with
  | .mysql, part => datePartWord part ++ "(" ++ inner ++ ")"
  | .postgres, .date => "CAST(" ++ inner ++ " AS DATE)"
  | .postgres, .weekday => "(EXTRACT(DOW FROM " ++ inner ++ ")+1)"
  | .postgres, part => "EXTRACT(" ++ datePartWord part ++ " FROM " ++ inner ++ ")"
  | .sqlite, .date => "DATE(" ++ inner ++ ")"
  | .sqlite, .weekday => "(CAST(STRFTIME('%w', " ++ inner ++ ") AS INTEGER)+1)"
  | .sqlite, part => "CAST(STRFTIME('%" ++ datePartLetter part ++ "', " ++ inner ++ ") AS INTEGER)"

/-- The position of a text in another from a start on, counted from zero, -1 if it is absent. -/
def indexOf (d : Dialect) (inner search : String) (start : Option String) : String :=
  match d, start with
  | .mysql, none => "(LOCATE(" ++ search ++ ", " ++ inner ++ ")-1)"
  | .mysql, some start => "(LOCATE(" ++ search ++ ", " ++ inner ++ ", " ++ start ++ " + 1)-1)"
  | .postgres, none => "(POSITION(" ++ search ++ " IN " ++ inner ++ ")-1)"
  | .postgres, some start =>
    let position := "POSITION(" ++ search ++ " IN SUBSTRING(" ++ inner ++ " FROM " ++ start ++ " + 1))"
    "(CASE WHEN " ++ position ++ " > 0 THEN " ++ position ++ " + " ++ start ++ " - 1 ELSE -1 END)"
  | .sqlite, none => "(INSTR(" ++ inner ++ ", " ++ search ++ ")-1)"
  | .sqlite, some start =>
    let position := "INSTR(SUBSTR(" ++ inner ++ ", " ++ start ++ " + 1), " ++ search ++ ")"
    "(CASE WHEN " ++ position ++ " > 0 THEN " ++ position ++ " + " ++ start ++ " - 1 ELSE -1 END)"

def concat (d : Dialect) (parts : List String) : String :=
  match d with
  | .mysql | .postgres => "CONCAT(" ++ Text.joinWith ", " parts ++ ")"
  | .sqlite => "(" ++ Text.joinWith " || " parts ++ ")"

/-- A number of rows to skip, if any are. -/
def offsetClause (skip : Option UInt64) : String :=
  match skip with
  | some n => if 0 < n then " OFFSET " ++ Decimal.natText n.toNat else ""
  | none => ""

/-- The paging clause. In `sqlite` an offset needs a limit, for which -1 stands if there is none. -/
def paging (d : Dialect) (skip limit : Option UInt64) : String :=
  let offset := offsetClause skip
  match limit, d with
  | some n, _ => " LIMIT " ++ Decimal.natText n.toNat ++ offset
  | none, .sqlite => if offset = "" then "" else " LIMIT -1" ++ offset
  | none, _ => offset

end Dialect

end SqlQuery.Sql
