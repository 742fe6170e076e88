import SqlQuery.Pipeline

/-!
# The command line

Reads filters, one a line, and prints for each the time that parsing took, the rendered filter and its
SQL condition, or the stage that failed. Blank lines are passed over.
-/

namespace SqlQuery

open Sql (Formatter)

/-- The lines that are printed for a parsed filter. -/
def report : Except Filter.ParseError Expr → List String
  | .error cause => ["Error parsing input: " ++ cause.message]
  | .ok e =>
    match e.render with
    | .error cause => ["Error rendering filter: " ++ cause.message]
    | .ok rendered =>
      match Formatter.filter {} rendered with
      | .ok sql => [rendered.text, "    WHERE " ++ sql]
      | .error cause => [rendered.text, "    Error formatting filter: " ++ cause.message]

/-- A line of input without the characters that end it. -/
def chomp (line : String) : String :=
  match line.toList.reverse with
  | '\n' :: '\r' :: cs => String.ofList cs.reverse
  | '\n' :: cs => String.ofList cs.reverse
  | _ => line

/-- Parses a filter and prints its report. -/
def answer (line : String) : IO Unit := do
  let started ← IO.monoNanosNow
  let parsed ← IO.lazyPure fun _ => Filter.parse line
  let finished ← IO.monoNanosNow
  IO.print ("[in " ++ Decimal.natText ((finished - started) / 1000) ++ "μs] ")
  for text in report parsed do
    IO.println text

partial def answerAll (input : IO.FS.Stream) : IO Unit := do
  let line ← input.getLine
  unless line.isEmpty do
    let text := chomp line
    unless Text.isBlankText text do
      answer text
    answerAll input

end SqlQuery

/-- Answers the filters of the standard input. -/
def main : IO Unit := do
  SqlQuery.answerAll (← IO.getStdin)
