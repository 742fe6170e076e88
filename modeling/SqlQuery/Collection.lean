/-!
# Collections
-/

namespace SqlQuery

/-- A named collection, possibly under another name. -/
structure Collection where
  name : String
  label : Option String := none
  deriving DecidableEq, Repr

/-- The name that fields are qualified with. -/
def Collection.outputName (c : Collection) : String := c.label.getD c.name

end SqlQuery
