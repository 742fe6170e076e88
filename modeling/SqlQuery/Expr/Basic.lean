import SqlQuery.Value.Basic

/-!
# Expressions

The tree that filters and closures are read into: members (fields by dotted path), literals,
arithmetic, comparisons, logical operators, method calls, and the sequences and objects that
closures project to.
-/

namespace SqlQuery

inductive ArithmeticOp where
  | add | subtract | multiply | divide | mod | bit
  deriving DecidableEq, Repr

inductive ComparisonOp where
  | eq | ne | lt | lte | gt | gte | isIn | notIn
  deriving DecidableEq, Repr

/-- Logical operators on any number of operands. -/
inductive LogicalOp where
  | and | or | not | nor
  deriving DecidableEq, Repr

def ArithmeticOp.name : ArithmeticOp → String
  | .add => "add"
  | .subtract => "subtract"
  | .multiply => "multiply"
  | .divide => "divide"
  | .mod => "mod"
  | .bit => "bit"

def ComparisonOp.name : ComparisonOp → String
  | .eq => "eq"
  | .ne => "ne"
  | .lt => "lt"
  | .lte => "lte"
  | .gt => "gt"
  | .gte => "gte"
  | .isIn => "in"
  | .notIn => "nin"

def LogicalOp.name : LogicalOp → String
  | .and => "and"
  | .or => "or"
  | .not => "not"
  | .nor => "nor"

def ArithmeticOp.key (op : ArithmeticOp) : String := "$" ++ op.name

def ComparisonOp.key (op : ComparisonOp) : String := "$" ++ op.name

def LogicalOp.key (op : LogicalOp) : String := "$" ++ op.name

/-- An operator's name without the mark of its key. -/
def unmarkedName (name : String) : String :=
  match name.toList with
  | '$' :: cs => String.ofList cs
  | _ => name

/-- The operator of a name, with or without the mark of a key. -/
def ArithmeticOp.ofName? (name : String) : Option ArithmeticOp :=
  [.add, .subtract, .multiply, .divide, .mod, .bit].find? fun (op : ArithmeticOp) =>
    op.name = unmarkedName name

def ComparisonOp.ofName? (name : String) : Option ComparisonOp :=
  [.eq, .ne, .lt, .lte, .gt, .gte, .isIn, .notIn].find? fun (op : ComparisonOp) =>
    op.name = unmarkedName name

def LogicalOp.ofName? (name : String) : Option LogicalOp :=
  [.and, .or, .not, .nor].find? fun (op : LogicalOp) => op.name = unmarkedName name

inductive Expr where
  | member (path : String)
  | literal (value : Value)
  | arithmetic (op : ArithmeticOp) (left right : Expr)
  /-- A comparison without a right side compares with `null`. -/
  | comparison (op : ComparisonOp) (left : Expr) (right : Option Expr)
  | logical (op : LogicalOp) (args : List Expr)
  | call (name : String) (args : List Expr)
  | sequence (items : List Expr)
  | object (members : List (String × Expr))
  deriving Inhabited

namespace Expr

/-- The tallest tree that filters and closures are read into, and the deepest that they nest. -/
def maxHeight : Nat := 256

def kind : Expr → String
  | .member _ => "member"
  | .literal _ => "literal"
  | .arithmetic .. => "arithmetic expression"
  | .comparison .. => "comparison"
  | .logical .. => "logical expression"
  | .call .. => "method call"
  | .sequence _ => "sequence"
  | .object _ => "object"

/-- The negative of an expression: a number changes its sign, anything else is subtracted from zero.
The least integer has no positive counterpart and is subtracted too. -/
def negated : Expr → Expr
  | .literal (.int n) =>
    if n = Int64.minValue then .arithmetic .subtract (.literal (.int 0)) (.literal (.int n))
    else .literal (.int (-n))
  | .literal (.float x) => .literal (.float (-x))
  | e => .arithmetic .subtract (.literal (.int 0)) e

/-- Joins two operands with a logical operator. A left operand of the same operator takes the right
one into its list. -/
def combine (op : LogicalOp) (left right : Expr) : Expr :=
  match left with
  | .logical lop args => if lop = op then .logical op (args ++ [right]) else .logical op [left, right]
  | _ => .logical op [left, right]

/-- Whether `combine` adds to the left operand's list. -/
def absorbs (op : LogicalOp) : Expr → Bool
  | .logical lop _ => lop = op
  | _ => false

mutual

/-- A member or literal has height one, every other node one more than its tallest operand. -/
def height : Expr → Nat
  | .member _ => 1
  | .literal _ => 1
  | .arithmetic _ left right => max left.height right.height + 1
  | .comparison _ left none => left.height + 1
  | .comparison _ left (some right) => max left.height right.height + 1
  | .logical _ args => heights args + 1
  | .call _ args => heights args + 1
  | .sequence items => heights items + 1
  | .object members => memberHeights members + 1

/-- The greatest height in a list, zero if it is empty. -/
def heights : List Expr → Nat
  | [] => 0
  | e :: es => max e.height (heights es)

/-- The greatest height of an object's members, zero if there are none. -/
def memberHeights : List (String × Expr) → Nat
  | [] => 0
  | (_, e) :: es => max e.height (memberHeights es)

end

end Expr

end SqlQuery
