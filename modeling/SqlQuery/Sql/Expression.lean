import SqlQuery.Sql.Like
import SqlQuery.Sql.Name
import SqlQuery.Value.Encoding

/-!
# Values as SQL expressions

Constants become literals, references become names, and a document with one operator key becomes the
operator applied to its arguments. A `Scope` says what a name stands for, so that the names of
computed fields can stand for their expressions.
-/

namespace SqlQuery.Sql

/-- Why a query or a part of it has no SQL. -/
inductive FormatError where
  | unknownOperator (key : String) (argument : Value)
  | malformed (fragment : Value)
  | emptyProjection
  | emptyUpdate
  | missingCollection
  | missingOperation
  | notAConstant (value : Value)

def FormatError.message : FormatError → String
  | .unknownOperator key argument =>
    "Unknown operator '" ++ key ++ "' in " ++ (Value.entry key argument).text
  | .malformed fragment => "Malformed fragment " ++ fragment.text
  | .emptyProjection => "Malformed fragment fixed select without fields"
  | .emptyUpdate => "Malformed fragment update without values"
  | .missingCollection => "The query has no collection"
  | .missingOperation => "The query has no operation"
  | .notAConstant value => value.text ++ " is not a constant"

/-- A dialect with a style for names. -/
structure Formatter where
  dialect : Dialect := .mysql
  style : NameStyle := {}

/-- The SQL of a name. -/
abbrev Scope := String → Except FormatError String

namespace Formatter

/-- The scope without computed fields: a name is itself. -/
def plainScope (f : Formatter) : Scope := fun name => .ok (f.style.name name)

/-! ### Constants -/

mutual

/-- A value as a literal; a list as its literals. References and documents are no constants. -/
def constant (f : Formatter) : Value → Except FormatError String
  | .null => .ok "NULL"
  | .bool true => .ok "true"
  | .bool false => .ok "false"
  | .int n => .ok (Decimal.intText n.toInt)
  | .float x => .ok (if x.isFinite then Decimal.floatText x else f.dialect.quote (Decimal.floatText x))
  | .string s => .ok (f.dialect.quote s)
  | .date t => .ok ("'" ++ t.text " " ++ "'")
  | .array items => do
    let texts ← constants f items
    return Text.joinWith ", " texts
  | .ref path => .error (.notAConstant (.ref path))
  | .object entries => .error (.notAConstant (.object entries))

/-- The literals of a list, up to the first that is none. -/
def constants (f : Formatter) : List Value → Except FormatError (List String)
  | [] => .ok []
  | item :: items => do
    let text ← constant f item
    let texts ← constants f items
    return text :: texts

end

/-! ### Operators -/

def arithmeticSymbols : List (String × String) :=
  [("$add", "+"), ("$subtract", "-"), ("$multiply", "*"), ("$divide", "/"), ("$mod", "%"), ("$bit", "&")]

def comparisonSymbols : List (String × String) :=
  [("$eq", "="), ("$ne", "<>"), ("$gt", ">"), ("$gte", ">="), ("$lt", "<"), ("$lte", "<=")]

/-- A comparison of a left side with an argument and its SQL. Whether something is null has words of
its own. -/
def comparison (key symbol left : String) (argument : Value) (right : String) : String :=
  if argument.isNull ∧ key = "$eq" then left ++ " IS NULL"
  else if argument.isNull ∧ key = "$ne" then left ++ " IS NOT NULL"
  else left ++ symbol ++ right

/-- The functions of one argument that are the same in all dialects. -/
def functionWord? : Method → Option String
  | .count => some "COUNT"
  | .min => some "MIN"
  | .max => some "MAX"
  | .sum => some "SUM"
  | .avg => some "AVG"
  | .length => some "LENGTH"
  | .trim => some "TRIM"
  | .toLower => some "LOWER"
  | .toUpper => some "UPPER"
  | .floor => some "FLOOR"
  | .ceil => some "CEILING"
  | _ => none

/-- A method of one argument applied to it. -/
def unaryCall? (f : Formatter) (method : Method) (inner : String) : Option String :=
  match method.datePart?, functionWord? method with
  | some part, _ => some (f.dialect.datePart part inner)
  | none, some word => some (word ++ "(" ++ inner ++ ")")
  | none, none => none

/-- The start of a substring, counted from one. The greatest integer has no successor. -/
def substringStart? (raw : List Value) (sql : List String) : Option String :=
  match raw, sql with
  | _ :: .int n :: _, _ => if n = Int64.maxValue then none else some (Decimal.intText (n.toInt + 1))
  | _, _ :: start :: _ => some ("(" ++ start ++ " + 1)")
  | _, _ => none

/-- A substring from a start on; a length of -1 means up to the end. -/
def substring? (first : String) (raw : List Value) (sql : List String) : Option String := do
  let start ← substringStart? raw sql
  match raw, sql with
  | _ :: _ :: .int n :: _, _ :: _ :: length :: _ =>
    return "SUBSTRING(" ++ first ++ ", " ++ start ++ (if n = -1 then "" else ", " ++ length) ++ ")"
  | _, _ :: _ :: length :: _ => return "SUBSTRING(" ++ first ++ ", " ++ start ++ ", " ++ length ++ ")"
  | _, _ => return "SUBSTRING(" ++ first ++ ", " ++ start ++ ")"

/-- The sides on which the text of a matching method is open. -/
def matchPattern? (method : Method) (text : String) : Option LikePattern :=
  match method with
  | .startsWith => some ⟨false, text, true⟩
  | .endsWith => some ⟨true, text, false⟩
  | .contains => some ⟨true, text, true⟩
  | _ => none

/-- A match of the first argument with the second, which has to be a text. -/
def matchCall? (f : Formatter) (method : Method) (first : String) (raw : List Value) : Option String :=
  match raw with
  | _ :: .string text :: _ =>
    (matchPattern? method text).map fun p => "(" ++ first ++ " LIKE " ++ p.operand f.dialect ++ ")"
  | _ => none

/-- A method applied to arguments, given as values and as SQL; none if they do not suit it. -/
def call? (f : Formatter) (method : Method) (raw : List Value) (sql : List String) : Option String :=
  match sql with
  | [] => none
  | first :: rest =>
    match f.unaryCall? method first, method, rest with
    | some text, _, _ => some text
    | none, .round, [] => some ("ROUND(" ++ first ++ ", 0)")
    | none, .round, places :: _ => some ("ROUND(" ++ first ++ ", " ++ places ++ ")")
    | none, .substr, _ => substring? first raw sql
    | none, .indexOfBytes, search :: more => some (f.dialect.indexOf first search more.head?)
    | none, .concat, _ => some (f.dialect.concat sql)
    | none, method, _ => f.matchCall? method first raw

/-- An operator applied to its arguments, given as one value, as a list and as SQL. -/
def operator (f : Formatter) (key : String) (args : Value) (raw : List Value) (sql : List String) :
    Except FormatError String :=
  match arithmeticSymbols.lookup key, comparisonSymbols.lookup key with
  | some symbol, _ =>
    match sql with
    | [left, right] => .ok ("(" ++ left ++ " " ++ symbol ++ " " ++ right ++ ")")
    | _ => .error (.malformed (.entry key args))
  | none, some symbol =>
    match sql, raw with
    | [left, right], [_, argument] => .ok (comparison key symbol left argument right)
    | _, _ => .error (.malformed (.entry key args))
  | none, none =>
    if key = "$in" ∨ key = "$nin" then
      match sql with
      | [left, right] => .ok (left ++ (if key = "$nin" then " NOT" else "") ++ " IN (" ++ right ++ ")")
      | _ => .error (.malformed (.entry key args))
    else
      match Method.ofKey? key with
      | none => .error (.unknownOperator key args)
      | some method =>
        match f.call? method raw sql with
        | some text => .ok text
        | none => .error (.malformed (.entry key args))

/-! ### Expressions -/

mutual

/-- A value as an SQL expression, in a scope. -/
def expressionIn (f : Formatter) (scope : Scope) : Value → Except FormatError String
  | .ref path => scope path
  | .array items => do
    let texts ← expressionsIn f scope items
    return Text.joinWith ", " texts
  | .object [(key, .array items)] =>
    if isOperatorKey key then do
      let sql ← expressionsIn f scope items
      f.operator key (.array items) items sql
    else .error (.malformed (.object [(key, .array items)]))
  | .object [(key, arg)] =>
    if isOperatorKey key then do
      let sql ← expressionIn f scope arg
      f.operator key arg [arg] [sql]
    else .error (.malformed (.object [(key, arg)]))
  | .object entries => .error (.malformed (.object entries))
  | value => f.constant value

/-- The SQL of a list's items, up to the first that has none. -/
def expressionsIn (f : Formatter) (scope : Scope) : List Value → Except FormatError (List String)
  | [] => .ok []
  | item :: items => do
    let text ← expressionIn f scope item
    let texts ← expressionsIn f scope items
    return text :: texts

end

def expression (f : Formatter) (value : Value) : Except FormatError String :=
  f.expressionIn f.plainScope value

/-- The scope of computed fields: their names stand for their expressions, which refer to no other
computed fields. -/
def scopeOf (f : Formatter) (computed : Document) : Scope := fun name =>
  match Entries.get? name computed with
  | some value => f.expression value
  | none => .ok (f.style.name name)

end Formatter

end SqlQuery.Sql
