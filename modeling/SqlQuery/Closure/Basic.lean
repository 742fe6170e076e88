import SqlQuery.Closure.Grammar

/-!
# Closures

The text of a function of one parameter. It is never run: its body is read as an expression, of which
members and collections are the free names.
-/

namespace SqlQuery

/-- The text of a closure and the collections that its body names. -/
structure Closure where
  source : String
  collections : Entries Collection := []

namespace Closure

mutual

/-- A condition that holds where an expression does: members and calls are compared with `true`. -/
def predicate : Expr → Expr
  | .member path => .comparison .eq (.member path) (some (.literal (.bool true)))
  | .call name args => .comparison .eq (.call name args) (some (.literal (.bool true)))
  | .logical op args => .logical op (predicates args)
  | e => e

def predicates : List Expr → List Expr
  | [] => []
  | e :: es => predicate e :: predicates es

end

/-- The expression that a closure projects to. -/
def translate (c : Closure) : Except ClosureError Expr := parse c.collections c.source

/-- A sequence of one expression is that expression. -/
def unwrapSingle : Expr → Expr
  | .sequence [e] => e
  | e => e

/-- The condition that a closure states. -/
def translateFilter (c : Closure) : Except ClosureError Expr := do
  let e ← c.translate
  return predicate (unwrapSingle e)

end Closure

end SqlQuery
