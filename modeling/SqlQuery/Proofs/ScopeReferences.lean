import Mathlib
import SqlQuery.Proofs.ExpressionStructure
import SqlQuery.Proofs.ValueEquality
import SqlQuery.Sql.Condition

/-!
# Scopes and references

`Value.references` are the paths of all references in a value, at any depth. The SQL of a value looks up nothing else in
a scope: scopes that agree on them give the same expression and the same condition of a field.
-/

namespace SqlQuery

namespace Value

mutual

/-- The paths that a value refers to. -/
def references : Value → List String
  | .ref path => [path]
  | .array items => itemReferences items
  | .object entries => entryReferences entries
  | _ => []

/-- The paths that items of a list refer to. -/
def itemReferences : List Value → List String
  | [] => []
  | item :: items => references item ++ itemReferences items

/-- The paths that values under keys refer to. -/
def entryReferences : List (String × Value) → List String
  | [] => []
  | (_, value) :: entries => references value ++ entryReferences entries

end

variable {path : String}

theorem mem_references_array {items : List Value} :
    path ∈ (Value.array items).references ↔ ∃ v ∈ items, path ∈ v.references := by
  rw [references]
  induction items with
  | nil => simp [itemReferences]
  | cons item items ih => simp [itemReferences, ih]

theorem mem_references_object {entries : Document} :
    path ∈ (Value.object entries).references ↔ ∃ e ∈ entries, path ∈ e.2.references := by
  rw [references]
  induction entries with
  | nil => simp [entryReferences]
  | cons e entries ih => simp [entryReferences, ih]

@[simp] theorem references_entry (key : String) (v : Value) : (Value.entry key v).references = v.references := by
  simp [Value.entry, references, entryReferences]

end Value

namespace Sql

variable {f : Formatter} {scope scope' : Scope}

theorem expressionsIn_congr {items : List Value}
    (h : ∀ v ∈ items, f.expressionIn scope v = f.expressionIn scope' v) :
    f.expressionsIn scope items = f.expressionsIn scope' items := by
  induction items with
  | nil => rfl
  | cons item items ih =>
    obtain ⟨hitem, hitems⟩ := List.forall_mem_cons.1 h
    rw [Formatter.expressionsIn, Formatter.expressionsIn, hitem, ih hitems]

/-- The expression of a value, and those of what an operator on it is applied to. -/
theorem expressionIn_operands_congr (v : Value) (h : ∀ path ∈ v.references, scope path = scope' path) :
    f.expressionIn scope v = f.expressionIn scope' v ∧
      f.expressionsIn scope (operands v) = f.expressionsIn scope' (operands v) := by
  induction v using Value.induct with
  | scalar v hs =>
    have hv : f.expressionIn scope v = f.expressionIn scope' v := by
      cases v with
      | array | object => cases hs
      | ref path => exact h path (List.mem_singleton_self path)
      | _ => rfl
    have hoperands : operands v = [v] := by
      cases v with
      | array => cases hs
      | _ => rfl
    rw [hoperands]
    exact ⟨hv, expressionsIn_congr (by simpa using hv)⟩
  | array items ih =>
    have hitems : f.expressionsIn scope items = f.expressionsIn scope' items := by
      refine expressionsIn_congr ?_
      intro v hv
      exact (ih v hv fun path hpath => h path (Value.mem_references_array.2 ⟨v, hv, hpath⟩)).1
    refine ⟨?_, hitems⟩
    rw [Formatter.expressionIn, Formatter.expressionIn, hitems]
  | object entries ih =>
    have hv : f.expressionIn scope (.object entries) = f.expressionIn scope' (.object entries) := by
      rcases entries with _ | ⟨⟨key, arg⟩, _ | ⟨y, entries⟩⟩
      · rfl
      · have harg := ih (key, arg) List.mem_cons_self fun path hpath =>
          h path (Value.mem_references_object.2 ⟨_, List.mem_cons_self, hpath⟩)
        rw [expressionIn_entry, expressionIn_entry, harg.2]
      · rw [expressionIn_several, expressionIn_several]
    exact ⟨hv, expressionsIn_congr (by simpa [operands] using hv)⟩

theorem expressionIn_congr {v : Value} (h : ∀ path ∈ v.references, scope path = scope' path) :
    f.expressionIn scope v = f.expressionIn scope' v :=
  (expressionIn_operands_congr v h).1

theorem fieldOperator_congr {arg : Value} {condition condition' : String → Except FormatError Condition}
    (harg : f.expressionIn scope arg = f.expressionIn scope' arg)
    (hcondition : ∀ column, condition column = condition' column) (column key : String) :
    f.fieldOperator scope column key arg condition = f.fieldOperator scope' column key arg condition' := by
  obtain rfl : condition = condition' := funext hcondition
  unfold Formatter.fieldOperator
  rw [harg]

theorem fieldCondition_congr {v : Value} (h : ∀ path ∈ v.references, scope path = scope' path) (column : String) :
    f.fieldCondition scope column v = f.fieldCondition scope' column v := by
  induction v using Value.induct generalizing column with
  | scalar v hs =>
    have hv : f.expressionIn scope v = f.expressionIn scope' v := expressionIn_congr h
    cases v with
    | array | object => cases hs
    | null => rfl
    | _ => simp only [Formatter.fieldCondition, hv]
  | array items ih =>
    rw [Formatter.fieldCondition, Formatter.fieldCondition, expressionIn_congr h]
  | object entries ih =>
    have hentries : f.fieldOperators scope column entries = f.fieldOperators scope' column entries := by
      induction entries with
      | nil => rfl
      | cons e entries ihrest =>
        obtain ⟨key, arg⟩ := e
        have harg : ∀ path ∈ arg.references, scope path = scope' path := fun path hpath =>
          h path (Value.mem_references_object.2 ⟨_, List.mem_cons_self, hpath⟩)
        have hrest : f.fieldOperators scope column entries = f.fieldOperators scope' column entries := by
          refine ihrest (fun e he => ih e (List.mem_cons_of_mem _ he)) ?_
          intro path hpath
          obtain ⟨e, he, hmem⟩ := Value.mem_references_object.1 hpath
          exact h path (Value.mem_references_object.2 ⟨e, List.mem_cons_of_mem _ he, hmem⟩)
        rw [Formatter.fieldOperators, Formatter.fieldOperators, hrest,
          fieldOperator_congr (expressionIn_congr harg) (ih (key, arg) List.mem_cons_self harg)]
    rw [Formatter.fieldCondition, Formatter.fieldCondition, hentries]

end Sql

end SqlQuery
