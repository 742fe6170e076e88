import SqlQuery.Expr.Render
import SqlQuery.Method
import SqlQuery.Value.Encoding

/-!
# Fields and columns

A field is a name or a method applied to arguments, possibly under a label. A method applied to a
field takes what the field stands for as its first argument and leaves the label alone, so a field is
always one entry of a document (`Field.fragment`). A column of a select is a field or a constant.
-/

namespace SqlQuery

/-- Why something is no field. -/
inductive FieldError where
  | emptyName
  | malformed (key : String) (value : Value)

def FieldError.message : FieldError → String
  | .emptyName => "Field name cannot be empty"
  | .malformed key value => "Malformed field fragment " ++ (Value.entry key value).text

/-- What a field stands for. -/
inductive Term where
  | simple (name : String)
  /-- A method applied to its arguments, of which the first is the value that it transforms. -/
  | computed (method : Method) (args : List Value)

/-- The form of a term as an argument: a reference, or the document of the method. -/
def Term.value : Term → Value
  | .simple name => .ref name
  | .computed method args => .entry method.key (Expr.argumentValue args)

/-- A term, possibly under a label. -/
structure Field where
  term : Term
  label : Option String := none

/-- A method with the arguments that it takes besides the value it is applied to. -/
structure Transform where
  method : Method
  extra : List Value := []

namespace Transform

/-- Rounds to a number of places, none if it is left out. -/
def round (places : Option Int64) : Transform := ⟨.round, [.int (places.getD 0)]⟩

/-- Takes a part from a start, counted from zero; without a length, up to the end. -/
def substr (start : Int64) (length : Option Int64) : Transform :=
  ⟨.substr, [.int start, .int (length.getD (-1))]⟩

/-- Finds the place of a text, from a start on if one is given. -/
def indexOf (search : Value) (start : Option Int64) : Transform :=
  ⟨.indexOfBytes, search :: start.toList.map Value.int⟩

def concat (values : List Value) : Transform := ⟨.concat, values⟩

/-- Names of the transforms of one value. -/
def unaryNames : List (String × Method) :=
  [("get_date", .dayOfMonth), ("get_day", .dayOfWeek), ("get_month", .month), ("get_year", .year),
   ("get_full_year", .year), ("get_hours", .hour), ("get_minutes", .minute), ("get_seconds", .second),
   ("to_date", .date), ("to_lower_case", .toLower), ("to_upper_case", .toUpper), ("trim", .trim),
   ("length", .length), ("floor", .floor), ("ceil", .ceil)]

/-- Names of the transforms that make one value of many rows. -/
def aggregateNames : List (String × Method) :=
  [("count", .count), ("min", .min), ("max", .max), ("sum", .sum), ("avg", .avg)]

/-- Names of the transforms with one more operand. -/
def arithmeticNames : List (String × Method) :=
  [("add", .add), ("subtract", .subtract), ("multiply", .multiply), ("divide", .divide), ("mod", .mod),
   ("bit", .bit)]

end Transform

namespace Field

def ofName (name : String) : Field := { term := .simple name }

/-- The field of a name that is not blank. -/
def ofName? (name : String) : Except FieldError Field :=
  if Text.isBlankText name then .error .emptyName else .ok (ofName name)

/-- The bare name of a field without label or method. -/
def name? (f : Field) : Option String :=
  match f with
  | ⟨.simple name, none⟩ => some name
  | _ => none

def unlabelled (f : Field) : Field := { f with label := none }

/-- The field under a label, in place of any that it had. -/
def relabel (f : Field) (label : String) : Field := { f with label := some label }

def apply (f : Field) (t : Transform) : Field := { f with term := .computed t.method (f.term.value :: t.extra) }

/-- The form of a field as an argument, without its label. -/
def value (f : Field) : Value := f.term.value

/-- The document with one entry that a field is. -/
def fragment (f : Field) : Value :=
  match f with
  | ⟨term, some label⟩ => .entry label term.value
  | ⟨.simple name, none⟩ => .entry name (.int 1)
  | ⟨term, none⟩ => term.value

/-- The entry of a field in a list of columns: the name of a field that is only that. -/
def selectEntry (f : Field) : Value :=
  match f.name? with
  | some name => .string name
  | none => f.fragment

end Field

inductive Column where
  | field (f : Field)
  | constant (label : String) (value : Value)

/-- The term of an operator key and its arguments. -/
def Term.ofOperator (key : String) (args : Value) : Except FieldError Term :=
  match Method.ofKey? key with
  | none => .error (.malformed key args)
  | some method =>
    match args with
    | .array items => .ok (.computed method items)
    | arg => .ok (.computed method [arg])

namespace Column

def selectEntry : Column → Value
  | .field f => f.selectEntry
  | .constant label value => .entry label value

/-- The column of an entry: an operator is a method, a value of one or a reference of the key's own
name is the field of that name, another reference or an operator document is a field under the key
as label, and a scalar is a constant. -/
def ofEntry (key : String) (value : Value) : Except FieldError Column :=
  if isOperatorKey key then (Term.ofOperator key value).map fun term => .field { term }
  else
    match value with
    | .int n => .ok (if n = 1 then .field (Field.ofName key) else .constant key (.int n))
    | .ref path => .ok (.field (if path = key then Field.ofName key else (Field.ofName path).relabel key))
    | .object [(op, args)] =>
      if isOperatorKey op then
        (Term.ofOperator op args).map fun term => .field { term, label := some key }
      else .error (.malformed key value)
    | .object _ => .error (.malformed key value)
    | .array _ => .error (.malformed key value)
    | scalar => .ok (.constant key scalar)

def ofDocument : Document → Except FieldError (List Column)
  | [] => .ok []
  | (key, value) :: rest => do
    let column ← ofEntry key value
    let columns ← ofDocument rest
    return column :: columns

end Column

/-- The field of an entry; a constant is none. -/
def Field.ofEntry (key : String) (value : Value) : Except FieldError Field :=
  match Column.ofEntry key value with
  | .ok (.field f) => .ok f
  | .ok (.constant label value) => .error (.malformed label value)
  | .error cause => .error cause

end SqlQuery
