import SqlQuery.Decimal.Layout
import SqlQuery.Expr.Basic
import SqlQuery.Text.CharClass

/-!
# Expressions as documents

`Expr.render` gives the value that stands for an expression in a query: a member becomes a
reference, an operator a document with one operator key. A comparison of a member goes under the
member's name, any other under the comparison's key.
-/

namespace SqlQuery

/-- Why an expression has no document. -/
inductive RenderError where
  /-- No operator of the family has that name. -/
  | unknownOperator (family name : String)
  | invalidLeftOperand (kind : String)
  | emptyLogicalOperands (op : LogicalOp)
  | emptyArguments (name : String)
  | unsupportedSequenceMember (kind : String)
  | unsupportedObjectMember (key : String)

def LogicalOp.title : LogicalOp → String
  | .and => "And"
  | .or => "Or"
  | .not => "Not"
  | .nor => "Nor"

def RenderError.message : RenderError → String
  | .unknownOperator family name => "Unknown " ++ family ++ " operator '" ++ name ++ "'"
  | .invalidLeftOperand kind => "A comparison cannot have a " ++ kind ++ " as its left operand"
  | .emptyLogicalOperands op => "Logical operator " ++ op.title ++ " requires at least one operand"
  | .emptyArguments name => "Method call '" ++ name ++ "' requires at least one argument"
  | .unsupportedSequenceMember kind => "A sequence cannot contain a " ++ kind
  | .unsupportedObjectMember key => "Object member '" ++ key ++ "' cannot be rendered"

namespace Expr

def arithmetic? (op : String) (left right : Expr) : Except RenderError Expr :=
  match ArithmeticOp.ofName? op with
  | some op => .ok (.arithmetic op left right)
  | none => .error (.unknownOperator "arithmetic" op)

def comparison? (op : String) (left : Expr) (right : Option Expr) : Except RenderError Expr :=
  match ComparisonOp.ofName? op with
  | some op => .ok (.comparison op left right)
  | none => .error (.unknownOperator "comparison" op)

def logicalOp? (op : String) : Except RenderError LogicalOp :=
  match LogicalOp.ofName? op with
  | some op => .ok op
  | none => .error (.unknownOperator "logical" op)

def logical? (op : String) (args : List Expr) : Except RenderError Expr :=
  (logicalOp? op).map fun op => .logical op args

/-- An operator's arguments: one stands alone, several are a list. -/
def argumentValue : List Value → Value
  | [arg] => arg
  | args => .array args

/-- What follows the last dot of a name. -/
def shortName (name : String) : String :=
  String.ofList (name.toList.reverse.takeWhile (· ≠ '.')).reverse

/-- The comparison of a rendered right side with a left side of which `rendered` is the document. -/
def renderComparison (op : ComparisonOp) (left : Expr) (rendered : Except RenderError Value) (right : Value) :
    Except RenderError Value :=
  match left with
  | .member path => .ok (.entry path (.entry op.key right))
  | .arithmetic .. | .call .. => rendered.map fun left => .entry op.key (.array [left, right])
  | other => .error (.invalidLeftOperand other.kind)

/-- The key of a sequence's item: a member's path, or a call's short name with its place. -/
def sequenceKey (index : Nat) : Expr → Except RenderError String
  | .member path => .ok path
  | .call name _ => .ok (shortName name ++ Decimal.natText index)
  | e => .error (.unsupportedSequenceMember e.kind)

/-- The value of a sequence's item: one for a member, the document of a call. -/
def sequenceValue : Expr → Except RenderError Value → Except RenderError Value
  | .member _, _ => .ok (.int 1)
  | _, rendered => rendered

mutual

/-- The document of an expression. -/
def render : Expr → Except RenderError Value
  | .member path => .ok (.ref path)
  | .literal value => .ok value
  | .arithmetic op left right => do
    let left ← left.render
    let right ← right.render
    return .entry op.key (.array [left, right])
  | .comparison op left none => renderComparison op left left.render .null
  | .comparison op left (some right) => do
    let value ← right.render
    renderComparison op left left.render value
  | .logical op args =>
    if args.isEmpty then .error (.emptyLogicalOperands op)
    else do
      let args ← renderAll args
      return .entry op.key (.array args)
  | .call name args => do
    let values ← renderAll args
    if values.isEmpty then .error (.emptyArguments name)
    else return .entry ("$" ++ name) (argumentValue values)
  | .sequence items => do
    let entries ← renderItems 0 items
    return .object (Entries.ofList entries)
  | .object members => do
    let entries ← renderMembers members
    return .object (Entries.ofList entries)

/-- The documents of expressions in order, up to the first that has none. -/
def renderAll : List Expr → Except RenderError (List Value)
  | [] => .ok []
  | e :: es => do
    let value ← e.render
    let values ← renderAll es
    return value :: values

/-- The entries of a sequence, whose items are counted from `index`. -/
def renderItems (index : Nat) : List Expr → Except RenderError (List (String × Value))
  | [] => .ok []
  | e :: items => do
    let key ← sequenceKey index e
    let value ← sequenceValue e e.render
    let rest ← renderItems (index + 1) items
    return (key, value) :: rest

def renderMembers : List (String × Expr) → Except RenderError (List (String × Value))
  | [] => .ok []
  | (key, .sequence _) :: _ => .error (.unsupportedObjectMember key)
  | (key, e) :: members => do
    let value ← e.render
    let rest ← renderMembers members
    return (key, value) :: rest

end

end Expr

end SqlQuery
