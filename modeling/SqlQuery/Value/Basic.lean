import SqlQuery.Calendar.Timestamp
import SqlQuery.Entries

/-!
# Values and documents

A `Value` is what filters, rows and descriptors are made of. A document is an object: values under
keys, in insertion order. A reference names a field by its dotted path. A key that starts with `$`
is an operator.

`Value.same` is the equality that values have in a query: documents are compared without regard to
the order of their keys, and a double is compared as a number, so that a NaN differs from itself.
-/

namespace SqlQuery

open Calendar (Timestamp)

inductive Value where
  | null
  | bool (b : Bool)
  | int (n : Int64)
  | float (x : Float)
  | string (s : String)
  | date (t : Timestamp)
  | array (items : List Value)
  | object (entries : List (String × Value))
  | ref (path : String)
  deriving Inhabited

/-- Values under keys in insertion order. -/
abbrev Document := Entries Value

/-- Operator keys start with a dollar sign. -/
def isOperatorKey (key : String) : Bool := key.toList.head? = some '$'

namespace Value

def entry (key : String) (value : Value) : Value := .object [(key, value)]

def isNull : Value → Bool
  | .null => true
  | _ => false

/-- Everything but lists and documents. -/
def isScalar : Value → Bool
  | .array _ => false
  | .object _ => false
  | _ => true

def string? : Value → Option String
  | .string s => some s
  | _ => none

def document? : Value → Option Document
  | .object doc => some doc
  | _ => none

/-- Key and value of a document that holds one entry. -/
def single? : Value → Option (String × Value)
  | .object [entry] => some entry
  | _ => none

/-- The word for a kind of value in messages. -/
def kind : Value → String
  | .null => "null"
  | .bool _ => "boolean"
  | .int _ => "integer"
  | .float _ => "float"
  | .string _ => "string"
  | .date _ => "date"
  | .array _ => "array"
  | .object _ => "document"
  | .ref _ => "reference"

mutual

/-- Whether two values count as equal. -/
def same : Value → Value → Bool
  | .null, .null => true
  | .bool a, .bool b => a == b
  | .int a, .int b => a == b
  | .float a, .float b => a == b
  | .string a, .string b => a == b
  | .date a, .date b => a == b
  | .array as, .array bs => sameItems as bs
  | .object as, .object bs => as.length == bs.length && sameEntries as bs
  | .ref a, .ref b => a == b
  | _, _ => false

def sameItems : List Value → List Value → Bool
  | [], [] => true
  | a :: as, b :: bs => same a b && sameItems as bs
  | _, _ => false

/-- Whether every entry has its like in a document. -/
def sameEntries : List (String × Value) → Document → Bool
  | [], _ => true
  | (key, a) :: as, doc =>
    (match Entries.get? key doc with
      | some b => same a b
      | none => false) && sameEntries as doc

end

end Value

end SqlQuery
