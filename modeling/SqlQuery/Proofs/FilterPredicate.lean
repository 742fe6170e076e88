import SqlQuery.Method
import SqlQuery.Value.Basic

/-!
# What a filter says

`Predicate.ofFilter` reads a filter as a tree of atoms under "all", "any" and "not": a document says all
that its entries say, and a field's document all that its operators say. Its truth (`Predicate.eval`)
depends on the truth of its atoms alone, whatever text they are compiled to.
-/

namespace SqlQuery

theorem ne_of_isOperatorKey {key name : String} (hk : isOperatorKey key = false) (hn : isOperatorKey name = true) :
    key ≠ name := by
  rintro rfl
  rw [hk] at hn
  cases hn

/-- A condition that no logical operator divides. -/
inductive Atom where
  /-- An operator key in the place of a field. -/
  | expression (key : String) (arg : Value)
  /-- A field, to which methods are applied from the first on, compared by an operator key. -/
  | comparison (field : String) (methods : List Method) (key : String) (arg : Value)

inductive Predicate where
  | atom (a : Atom)
  | not (p : Predicate)
  | all (ps : List Predicate)
  | any (ps : List Predicate)

namespace Predicate

mutual

def eval (truth : Atom → Bool) : Predicate → Bool
  | .atom a => truth a
  | .not p => !p.eval truth
  | .all ps => evalAll truth ps
  | .any ps => evalAny truth ps

def evalAll (truth : Atom → Bool) : List Predicate → Bool
  | [] => true
  | p :: ps => p.eval truth && evalAll truth ps

def evalAny (truth : Atom → Bool) : List Predicate → Bool
  | [] => false
  | p :: ps => p.eval truth || evalAny truth ps

end

mutual

/-- The atoms of a predicate from left to right. -/
def atoms : Predicate → List Atom
  | .atom a => [a]
  | .not p => p.atoms
  | .all ps => atomsOf ps
  | .any ps => atomsOf ps

def atomsOf : List Predicate → List Atom
  | [] => []
  | p :: ps => p.atoms ++ atomsOf ps

end

/-- The method of an operator key that is applied to a field before it is compared. -/
def transform? (key : String) : Option Method := (Method.ofKey? key).filter Method.isUnary

/-- What an operator says, given what its argument says of the field after methods. -/
def ofOperator (field : String) (methods : List Method) (key : String) (arg : Value)
    (inner : List Method → Predicate) : Predicate :=
  if key = "$not" then .not (inner methods)
  else
    match transform? key with
    | some method => inner (methods ++ [method])
    | none => .atom (.comparison field methods key arg)

mutual

/-- What a field's value says: a list asks for membership, any other value for equality, and a document
holds operators. -/
def ofField (field : String) (methods : List Method) : Value → Predicate
  | .object entries => .all (ofOperators field methods entries)
  | .array items => .atom (.comparison field methods "$in" (.array items))
  | value => .atom (.comparison field methods "$eq" value)

/-- What a field's operators say. Options belong to the pattern beside them. -/
def ofOperators (field : String) (methods : List Method) : List (String × Value) → List Predicate
  | [] => []
  | (key, arg) :: rest =>
    if key = "$options" then ofOperators field methods rest
    else ofOperator field methods key arg (fun methods => ofField field methods arg) ::
      ofOperators field methods rest

end

/-- What an entry says, given what the filters in its value say. -/
def ofEntry (key : String) (value : Value) (group : List Predicate) : Predicate :=
  if key = "$and" then .all group
  else if key = "$or" then .any group
  else if key = "$not" then .not (.all group)
  else if key = "$nor" then .not (.any group)
  else if isOperatorKey key then .atom (.expression key value)
  else ofField key [] value

mutual

/-- What a filter says. -/
def ofFilter : Value → Predicate
  | .object entries => .all (ofEntries entries)
  | _ => .all []

def ofEntries : List (String × Value) → List Predicate
  | [] => []
  | (key, value) :: rest => ofEntry key value (ofGroup value) :: ofEntries rest

/-- The filters under a logical operator, which are a list or a single one. -/
def ofGroup : Value → List Predicate
  | .array items => ofItems items
  | .object entries => [.all (ofEntries entries)]
  | _ => []

def ofItems : List Value → List Predicate
  | [] => []
  | item :: items => ofFilter item :: ofItems items

end

end Predicate

end SqlQuery
