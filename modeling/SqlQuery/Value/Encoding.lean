import SqlQuery.Decimal.Reader
import SqlQuery.Json.Basic
import SqlQuery.Value.Reference

/-!
# Values as JSON

`Value.encode` writes references as marked text and dates to the millisecond; `Value.decode` reads
marked text back as references. An integer that does not fit in 64 bits is read as a double.
-/

namespace SqlQuery.Value

mutual

/-- The JSON form of a value. -/
def encode : Value → Json
  | .null => .null
  | .bool b => .bool b
  | .int n => .int n.toInt
  | .float x => if x.isFinite then .float x else .null
  | .string s => .string s
  | .date t => .string (t.text "T")
  | .array items => .array (encodeItems items)
  | .object entries => .object (encodeEntries entries)
  | .ref path => .string (Reference.text path)

def encodeItems : List Value → List Json
  | [] => []
  | item :: items => encode item :: encodeItems items

def encodeEntries : List (String × Value) → List (String × Json)
  | [] => []
  | (key, value) :: entries => (key, encode value) :: encodeEntries entries

end

/-- The value of an integer: exact if it fits in 64 bits. -/
def ofInt (n : Int) : Value :=
  match Decimal.fitInt64? n with
  | some i => .int i
  | none => .float (if n < 0 then -Decimal.roundToFloat n.natAbs 0 else Decimal.roundToFloat n.natAbs 0)

/-- The value of a text: a reference if it reads as one. -/
def ofText (s : String) : Value :=
  match Reference.parse? s with
  | some path => .ref path
  | none => .string s

mutual

/-- The value of a JSON document. -/
def decode : Json → Value
  | .null => .null
  | .bool b => .bool b
  | .int n => ofInt n
  | .float x => .float x
  | .string s => ofText s
  | .array items => .array (decodeItems items)
  | .object entries => .object (decodeEntries entries)

def decodeItems : List Json → List Value
  | [] => []
  | item :: items => decode item :: decodeItems items

def decodeEntries : List (String × Json) → List (String × Value)
  | [] => []
  | (key, value) :: entries => (key, decode value) :: decodeEntries entries

end

/-- The compact JSON text of a value. -/
def text (v : Value) : String := v.encode.text

end SqlQuery.Value
