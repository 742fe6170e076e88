import SqlQuery.Decimal.Layout
import SqlQuery.Entries
import SqlQuery.Text.CharClass

/-!
# JSON

JSON documents with their keys in order, and their compact text. Integers and doubles are apart: a
double always has a fraction or an exponent.
-/

namespace SqlQuery

inductive Json where
  | null
  | bool (b : Bool)
  | int (n : Int)
  | float (x : Float)
  | string (s : String)
  | array (items : List Json)
  | object (entries : List (String × Json))
  deriving Inhabited

namespace Json

/-- A digit of base sixteen, in lower case. -/
def hexDigit (n : Nat) : Char := if n < 10 then Char.ofNat (48 + n) else Char.ofNat (87 + n)

/-- A character inside a quoted text. -/
def escape (c : Char) : List Char :=
  if c = '"' then ['\\', '"']
  else if c = '\\' then ['\\', '\\']
  else if c = '\x08' then ['\\', 'b']
  else if c = '\x0c' then ['\\', 'f']
  else if c = '\n' then ['\\', 'n']
  else if c = '\r' then ['\\', 'r']
  else if c = '\t' then ['\\', 't']
  else if c.toNat < 32 then ['\\', 'u', '0', '0', hexDigit (c.toNat / 16), hexDigit (c.toNat % 16)]
  else [c]

def quote (s : String) : String := String.ofList ('"' :: s.toList.flatMap escape ++ ['"'])

mutual

/-- The compact text of a document. A double that is not finite has no number and is `null`. -/
def text : Json → String
  | .null => "null"
  | .bool true => "true"
  | .bool false => "false"
  | .int n => Decimal.intText n
  | .float x => (Decimal.jsonText? x).getD "null"
  | .string s => quote s
  | .array items => "[" ++ Text.joinWith "," (texts items) ++ "]"
  | .object entries => "\x7b" ++ Text.joinWith "," (entryTexts entries) ++ "\x7d"

def texts : List Json → List String
  | [] => []
  | item :: items => text item :: texts items

def entryTexts : List (String × Json) → List String
  | [] => []
  | (key, value) :: entries => (quote key ++ ":" ++ text value) :: entryTexts entries

end

end Json

end SqlQuery
