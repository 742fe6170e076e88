import SqlQuery.Expr.Basic

/-!
# Merging filters
-/

namespace SqlQuery

/-- Joins a filter with another condition by a logical operator. A filter that is a list of that operator
takes the condition into its list; any other becomes the first of two operands. -/
def mergeFilter (existing : Option Value) (op : LogicalOp) (condition : Value) : Value :=
  match existing with
  | none => condition
  | some (.object [(key, .array items)]) =>
    if key = op.key then .entry op.key (.array (items ++ [condition]))
    else .entry op.key (.array [.entry key (.array items), condition])
  | some filter => .entry op.key (.array [filter, condition])

end SqlQuery
