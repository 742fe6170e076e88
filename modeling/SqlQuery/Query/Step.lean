import SqlQuery.Query.Builder

/-!
# Steps of a build

Each step of a build as a value, so that a build is a list of steps: `Builder.run` takes them one
after the other, up to the first that fails.
-/

namespace SqlQuery

inductive Step where
  | fromCollection (c : Collection)
  | select (p : Projection)
  | selectAll
  | insert (row : Value)
  | insertMany (rows : List Document)
  | into (c : Collection)
  | update (c : Collection)
  | setValues (values : Value)
  | delete (c : Collection)
  | relabel (label : String)
  | distinct (flag : Bool)
  | fixed (flag : Bool)
  | countAs (label : String)
  | skip (n : UInt64)
  | take (n : UInt64)
  | paginate (page size : UInt64)
  | whereField (s : Source)
  | continueWith (op : LogicalOp) (s : Source)
  | whereClosure (c : Closure)
  | whereExpr (e : Expr)
  | filter (text : String)
  | setFilter (filter : Value)
  | prepare (op : LogicalOp)
  | transform (t : Transform)
  | compare (c : Comparison)
  | between (low high : Value)
  | openJoin (s : JoinSource)
  | joinOn (localKey foreignKey : JoinKey)
  | orderBy (d : Direction) (p : Projection)
  | thenBy (d : Direction) (p : Projection)
  | groupBy (p : Projection)

/-- Asks for the number of rows under its usual label. -/
def Step.count : Step := .countAs "total"

namespace Builder

def step (b : Builder) : Step → Except Error Builder
  | .fromCollection c => .ok (b.fromCollection c)
  | .select p => b.select p
  | .selectAll => .ok b.selectAll
  | .insert row => (b.insert row).mapError .build
  | .insertMany rows => (b.insertMany rows).mapError .build
  | .into c => (b.into c).mapError .build
  | .update c => .ok (b.update c)
  | .setValues values => (b.setValues values).mapError .build
  | .delete c => .ok (b.delete c)
  | .relabel label => (b.relabel label).mapError .build
  | .distinct flag => .ok (b.distinct flag)
  | .fixed flag => .ok (b.fixed flag)
  | .countAs label => .ok (b.countAs label)
  | .skip n => .ok (b.skip n)
  | .take n => .ok (b.take n)
  | .paginate page size => .ok (b.paginate page size)
  | .whereField s => b.whereField s
  | .continueWith op s => b.continueWith op s
  | .whereClosure c => b.whereClosure c
  | .whereExpr e => b.whereExpr e
  | .filter text => b.filter text
  | .setFilter filter => .ok (b.setFilter filter)
  | .prepare op => .ok (b.prepare op)
  | .transform t => (b.transform t).mapError .build
  | .compare c => (b.compare c).mapError .build
  | .between low high => (b.between low high).mapError .build
  | .openJoin s => (b.openJoin s).mapError .build
  | .joinOn localKey foreignKey => b.joinOn localKey foreignKey
  | .orderBy d p => b.orderBy d p
  | .thenBy d p => b.thenBy d p
  | .groupBy p => b.groupBy p

def run (b : Builder) : List Step → Except Error Builder
  | [] => .ok b
  | s :: steps => do
    let b ← b.step s
    run b steps

end Builder

/-- The query that steps build. -/
def Query.build (steps : List Step) : Except Error Query := (Builder.run {} steps).map (·.query)

end SqlQuery
