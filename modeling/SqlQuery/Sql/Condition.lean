import SqlQuery.Sql.Expression

/-!
# Filters as SQL conditions

A filter compiles to a `Condition`: a tree of comparisons, of which each is one piece of SQL, under
NOT, AND and OR, with the parentheses that are written. Its text is that of its pieces in order, so
that the structure of the text can be read off the pieces.
-/

namespace SqlQuery.Sql

inductive Connective where
  | and | or
  deriving DecidableEq, Repr

/-- A condition as it is written. -/
inductive Condition where
  /-- A single comparison. -/
  | leaf (sql : String)
  /-- A condition in parentheses. -/
  | group (c : Condition)
  /-- A condition in parentheses after NOT. -/
  | negation (c : Condition)
  /-- Conditions with a connective between each two. -/
  | chain (op : Connective) (cs : List Condition)

inductive Piece where
  | leaf (sql : String)
  | parenOpen
  | parenClose
  | not
  | join (op : Connective)

def Piece.text : Piece → String
  | .leaf sql => sql
  | .parenOpen => "("
  | .parenClose => ")"
  | .not => "NOT "
  | .join .and => " AND "
  | .join .or => " OR "

namespace Condition

mutual

def pieces : Condition → List Piece
  | .leaf sql => [.leaf sql]
  | .group c => .parenOpen :: (c.pieces ++ [.parenClose])
  | .negation c => .not :: .parenOpen :: (c.pieces ++ [.parenClose])
  | .chain op cs => chainPieces op cs

def chainPieces (op : Connective) : List Condition → List Piece
  | [] => []
  | c :: cs =>
    match cs with
    | [] => c.pieces
    | _ :: _ => c.pieces ++ .join op :: chainPieces op cs

end

def text (c : Condition) : String := c.pieces.foldr (fun piece rest => piece.text ++ rest) ""

end Condition

namespace Formatter

/-- The conjunction of a document's conditions; several are in parentheses each. -/
def conjunction (filter : Value) : List Condition → Except FormatError Condition
  | [] => .error (.malformed filter)
  | [c] => .ok c
  | cs => .ok (.chain .and (cs.map Condition.group))

/-- The condition of a single operator on a field. Its argument may be a condition itself, on the field or on
what a method makes of it. -/
def fieldOperator (f : Formatter) (scope : Scope) (field key : String) (arg : Value)
    (condition : String → Except FormatError Condition) : Except FormatError Condition :=
  if key = "$not" then do
    let inner ← condition field
    return .negation inner
  else if key = "$in" ∨ key = "$nin" then do
    let list ← f.expressionIn scope arg
    return .leaf (field ++ (if key = "$nin" then " NOT" else "") ++ " IN (" ++ list ++ ")")
  else if key = "$regex" then
    match arg with
    | .string pattern => return .leaf (field ++ " LIKE " ++ (LikePattern.ofRegex pattern).operand f.dialect)
    | _ => .error (.malformed (.entry key arg))
  else if key = "$text" then
    match arg.document?.bind (Entries.get? "$search") with
    | some (.string text) => return .leaf (field ++ " LIKE " ++ LikePattern.operand ⟨true, text, true⟩ f.dialect)
    | _ => .error (.malformed (.entry key arg))
  else
    match comparisonSymbols.lookup key with
    | some symbol => do
      let right ← f.expressionIn scope arg
      return .leaf (comparison key symbol field arg right)
    | none =>
      -- What is left are methods, whose argument is a condition on what they make of the field.
      match (Method.ofKey? key).bind fun method => f.unaryCall? method field with
      | some wrapped => condition wrapped
      | none => .error (.unknownOperator key arg)

mutual

/-- The condition of a field, given by its SQL: a value is compared for equality, a list for
membership, and a document holds operators. -/
def fieldCondition (f : Formatter) (scope : Scope) (field : String) : Value → Except FormatError Condition
  | .null => .ok (.leaf (field ++ " IS NULL"))
  | .array items => do
    let list ← f.expressionIn scope (.array items)
    return .leaf (field ++ " IN (" ++ list ++ ")")
  | .object entries => do
    let cs ← fieldOperators f scope field entries
    if cs.isEmpty then .error (.malformed (.object entries))
    else return .chain .and cs -- without parentheses: nothing but `and` joins the conditions on one field
  | value => do
    let right ← f.expressionIn scope value
    return .leaf (field ++ "=" ++ right)

/-- The conditions of a field's operators. Options belong to the pattern beside them. -/
def fieldOperators (f : Formatter) (scope : Scope) (field : String) :
    List (String × Value) → Except FormatError (List Condition)
  | [] => .ok []
  | (key, arg) :: rest =>
    if key = "$options" then fieldOperators f scope field rest
    else do
      let c ← f.fieldOperator scope field key arg fun column => fieldCondition f scope column arg
      let cs ← fieldOperators f scope field rest
      return c :: cs

end

/-- The condition of a single entry: a logical operator on the filters that its value holds, an expression
or a field. -/
def filterEntry (f : Formatter) (scope : Scope) (key : String) (value : Value)
    (group : Unit → Except FormatError (List Condition)) : Except FormatError Condition :=
  -- Only the logical operators read the value as filters. Under other keys the group is never asked for.
  if key = "$and" then do
    let cs ← group ()
    return .chain .and (cs.map Condition.group)
  else if key = "$or" then do
    let cs ← group ()
    return .chain .or (cs.map Condition.group)
  else if key = "$not" then do
    let cs ← group ()
    return .negation (.chain .and (cs.map Condition.group))
  else if key = "$nor" then do
    let cs ← group ()
    return .negation (.chain .or (cs.map Condition.group))
  else if isOperatorKey key then do
    let sql ← f.expressionIn scope (.object [(key, value)])
    return .leaf sql
  else do
    let field ← scope key
    f.fieldCondition scope field value

mutual

/-- The condition of a filter. -/
def filterIn (f : Formatter) (scope : Scope) : Value → Except FormatError Condition
  | .object entries => do
    let cs ← filterEntries f scope entries
    conjunction (.object entries) cs
  | value => .error (.malformed value)

def filterEntries (f : Formatter) (scope : Scope) : List (String × Value) → Except FormatError (List Condition)
  | [] => .ok []
  | (key, value) :: rest => do
    let c ← f.filterEntry scope key value fun _ => filterGroup f scope key value
    let cs ← filterEntries f scope rest
    return c :: cs

/-- The conditions under a logical operator: those of a list that is not empty, or the one of a
document. -/
def filterGroup (f : Formatter) (scope : Scope) (key : String) : Value → Except FormatError (List Condition)
  | .array [] => .error (.malformed (.entry key (.array [])))
  | .array items => filterItems f scope items
  | .object entries => do
    let cs ← filterEntries f scope entries
    let c ← conjunction (.object entries) cs
    return [c]
  | value => .error (.malformed (.entry key value))

/-- The conditions of filters, up to the first that has none. -/
def filterItems (f : Formatter) (scope : Scope) : List Value → Except FormatError (List Condition)
  | [] => .ok []
  | item :: items => do
    let c ← filterIn f scope item
    let cs ← filterItems f scope items
    return c :: cs

end

/-- A filter as a condition in parentheses. -/
def filter (f : Formatter) (value : Value) : Except FormatError String := do
  let c ← f.filterIn f.plainScope value
  return (Condition.group c).text

end Formatter

end SqlQuery.Sql
