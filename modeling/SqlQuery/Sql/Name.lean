import SqlQuery.Decimal.Reader
import SqlQuery.Text.CharClass

/-!
# Names in SQL

A name style says how names and aliases are written. Its template is applied to every word of a name;
in it `$1` and `$0`, also in braces, stand for the word, `$$` for a dollar sign, and any other group
for nothing.
-/

namespace SqlQuery.Sql

open SqlQuery.Text

/-- How names and aliases are written. -/
structure NameStyle where
  /-- The template for each word of a name. -/
  nameFormat : String := "$1"
  /-- Whether a dotted column gets its last segment as alias. -/
  forceAlias : Bool := false
  useAliasKeyword : Bool := true
  aliasKeyword : String := "AS"

namespace NameStyle

/-- Characters of a group's name outside of braces. -/
def isGroupChar (c : Char) : Bool := c.isDigit || c.isAlpha || c = '_'

/-- What a group stands for: the word itself for groups zero and one, and else nothing. -/
def groupText (word name : List Char) : List Char :=
  let digits := match name with
    | '+' :: rest => rest
    | _ => name
  match Decimal.readNat? digits with
  | some n => if n ≤ 1 then word else []
  | none => []

/-- A template with a word in the place of its groups. -/
def expand (word : List Char) (template : List Char) : List Char :=
  match template with
  | [] => []
  | '$' :: '$' :: rest => '$' :: expand word rest
  | '$' :: '\x7b' :: rest =>
    match _h : rest.dropWhile (· ≠ '\x7d') with
    | _ :: later => groupText word (rest.takeWhile (· ≠ '\x7d')) ++ expand word later
    | [] => '$' :: expand word ('\x7b' :: rest) -- a brace that is never closed opens no group
  | '$' :: rest =>
    let name := rest.takeWhile isGroupChar
    if name = [] then '$' :: expand word rest
    else groupText word name ++ expand word (rest.dropWhile isGroupChar)
  | c :: rest => c :: expand word rest
termination_by template.length
decreasing_by
  all_goals simp only [List.length_cons]
  · omega
  · have := (List.dropWhile_suffix (l := rest) (· ≠ '\x7d')).length_le
    rw [_h] at this
    simp only [List.length_cons] at this
    omega
  · omega
  · omega
  · have := (List.dropWhile_suffix (l := rest) isGroupChar).length_le
    omega
  · omega

/-- A name with the template applied to each of its words. -/
def formatWords (template : List Char) (name : List Char) : List Char :=
  match name with
  | [] => []
  | c :: rest =>
    if isWord c then expand (c :: rest.takeWhile isWord) template ++ formatWords template (rest.dropWhile isWord)
    else c :: formatWords template rest
termination_by name.length
decreasing_by
  all_goals simp only [List.length_cons]
  · have := (List.dropWhile_suffix (l := rest) isWord).length_le
    omega
  · omega

def name (style : NameStyle) (name : String) : String :=
  String.ofList (formatWords style.nameFormat.toList name.toList)

/-- The alias that follows an expression, with a space before it. -/
def aliasClause (style : NameStyle) (label : String) : String :=
  if style.useAliasKeyword then " " ++ style.aliasKeyword ++ " " ++ style.name label
  else " " ++ style.name label

end NameStyle

end SqlQuery.Sql
