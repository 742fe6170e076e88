import SqlQuery.Query.Basic
import SqlQuery.Query.BuildError

/-!
# Operands of comparisons

The left side of a comparison that is being built. A bare field keeps the transforms without arguments
as a chain, and they nest under its name. Any other operand is a computed field: it gets a label
and is kept with the query's computed fields, where comparisons, orders and groups refer to it.
-/

namespace SqlQuery

/-- The left side of a comparison. -/
inductive Operand where
  /-- A field by name, with the methods applied to it one after the other. -/
  | bare (name : String) (methods : List Method)
  | field (f : Field)

namespace Operand

def ofField (f : Field) : Operand :=
  match f.name? with
  | some name => .bare name []
  | none => .field f

def toField : Operand → Field
  | .bare name methods => methods.foldl (fun f m => f.apply ⟨m, []⟩) (Field.ofName name)
  | .field f => f

def relabel (o : Operand) (label : String) : Operand := .field (o.toField.relabel label)

def apply (o : Operand) (t : Transform) : Operand :=
  match o, t.extra with
  | .bare name methods, [] => .bare name (methods ++ [t.method])
  | o, _ => .field (o.toField.apply t)

end Operand

/-- The label of a value among the computed fields, if it is one of them. -/
def labelOf? (value : Value) (computed : Document) : Option String :=
  (computed.find? fun entry => entry.2.same value).map (·.1)

/-- The label of a method's result among the computed fields. One that is there already is used again; a new
one is named for the method and for how many there are. -/
def hoist (method : Method) (args : List Value) (computed : Document) : String × Document :=
  let value := (Term.computed method args).value
  match labelOf? value computed with
  | some label => (label, computed)
  | none =>
    let label := method.name ++ Decimal.natText (computed.length + 1)
    (label, Entries.insert label value computed)

/-- The name by which conditions, orders and groups refer to a field, and the computed fields with
it. -/
def Field.key (f : Field) (computed : Document) : String × Document :=
  match f with
  | ⟨term, some label⟩ => (label, Entries.insert label term.value computed)
  | ⟨.simple name, none⟩ => (name, computed)
  | ⟨.computed method args, none⟩ => hoist method args computed

/-- The document that states a condition on an operand, and the computed fields that it refers to. -/
def Operand.condition (o : Operand) (condition : Value) (computed : Document) : Value × Document :=
  match o with
  | .bare name methods =>
    (.entry name (methods.foldr (fun m inner => .entry m.key inner) condition), computed)
  | .field f =>
    let (key, computed) := f.key computed
    (.entry key condition, computed)

/-- The name by which an order or a group refers to a column. A constant has none. -/
def Column.key (c : Column) (computed : Document) : Except BuildError (String × Document) :=
  match c with
  | .field f => .ok (f.key computed)
  | .constant label _ => .error (.constantKey label)

/-- The names of a list of columns, and the computed fields that they refer to. -/
def Column.keys : List Column → Document → Except BuildError (List String × Document)
  | [], computed => .ok ([], computed)
  | c :: cs, computed => do
    let (name, computed) ← c.key computed
    let (names, computed) ← keys cs computed
    return (name :: names, computed)

end SqlQuery
