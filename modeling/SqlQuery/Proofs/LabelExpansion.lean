import Mathlib
import SqlQuery.Outcome
import SqlQuery.Proofs.ComputedLabels
import SqlQuery.Proofs.ScopeReferences
import SqlQuery.Sql.Statement

/-!
# Labels that are expanded once

The clauses of a query write the expression of a computed field in the place of its label, and a label inside the
expression as a column. `Formatter.expandIn` leaves open what a name is as a column. Where the computed fields are
`Unlinked`, so that none of them refers to a label, no label is ever asked for as a column. Nothing keeps a field from
referring to a label that is there already or that is given later (`label_stands_as_column`), but in a run of which no
computed field refers to a label of the run, they are (`labels_expand_once`).
-/

namespace SqlQuery

open Sql (Formatter Scope Condition)

/-! ### Labels as columns -/

/-- No computed field refers to the label of one. -/
def Unlinked (computed : Document) : Prop :=
  ∀ e ∈ computed, ∀ path ∈ e.2.references, path ∉ Entries.keys computed

namespace Sql

/-- The scope of computed fields where names are written as given columns. -/
def Formatter.expandIn (f : Formatter) (columns : Scope) (computed : Document) : Scope := fun name =>
  match Entries.get? name computed with
  | some value => f.expressionIn columns value
  | none => columns name

/-- The clauses after the joins, in a scope. -/
def Formatter.clausesIn (f : Formatter) (scope : Scope) (q : Query) : Except FormatError String := do
  let conditions ← (q.prepared.toList ++ q.filter.toList).mapM (f.filterIn scope)
  let group ← keyClause " GROUP BY " q.group fun keys => do
    let texts ← keys.mapM fun entry => scope entry.1
    return Text.joinWith ", " texts
  let order ← keyClause " ORDER BY " q.order fun keys => do
    let texts ← keys.mapM fun entry => do
      let sql ← scope entry.1
      return sql ++ " " ++ directionWord entry.2
    return Text.joinWith ", " texts
  let filter := if conditions.isEmpty then "" else " WHERE " ++ (Condition.chain .and (conditions.map .group)).text
  return filter ++ group ++ order ++ f.dialect.paging q.skip q.limit

variable {f : Formatter} {computed : Document}

theorem clausesIn_scopeOf (f : Formatter) (q : Query) : f.clausesIn (f.scopeOf q.computed) q = f.clauses q := by
  rw [Formatter.clausesIn, Formatter.clauses, Formatter.whereClause, Formatter.whereCondition]
  cases (q.prepared.toList ++ q.filter.toList).mapM (f.filterIn (f.scopeOf q.computed)) with
  | error e => rfl
  | ok conditions => cases conditions <;> rfl

/-- Without links it does not matter what the labels are as columns. -/
theorem expandIn_eq_scopeOf (h : Unlinked computed) {columns : Scope}
    (hcolumns : ∀ name, name ∉ Entries.keys computed → columns name = f.plainScope name) :
    f.expandIn columns computed = f.scopeOf computed := by
  funext name
  rw [Formatter.expandIn, Formatter.scopeOf]
  cases hget : Entries.get? name computed with
  | some value =>
    refine expressionIn_congr ?_
    intro path hpath
    exact hcolumns path (h (name, value) (Entries.mem_of_get? hget) path hpath)
  | none =>
    exact hcolumns name (Entries.get?_eq_none_iff.1 hget)

end Sql

/-! ### Where computed fields come from -/

/-- The labels that fields get, one after the other. A bare name gets none. -/
def Field.labels : List Field → Document → List String
  | [], _ => []
  | f :: fields, computed =>
    (if f.name?.isSome then [] else [(f.key computed).1]) ++ labels fields (f.key computed).2

/-- The labels that a run of steps gives. -/
def Builder.labelledBy (b : Builder) : List Step → List String
  | [] => []
  | s :: steps =>
    Field.labels (b.keyed s) b.query.computed ++
      match b.step s with
      | .ok after => after.labelledBy steps
      | .error _ => []

/-- Computed fields under some of the labels, with the expressions of some of the fields. -/
def Stems (fields : List Field) (labels : List String) (computed : Document) : Prop :=
  ∀ e ∈ computed, e.1 ∈ labels ∧ ∃ f ∈ fields, f.name? = none ∧ e.2 = f.value

namespace Stems

variable {fields : List Field} {labels : List String} {computed : Document}

theorem nil : Stems fields labels [] := List.forall_mem_nil _

theorem key (h : Stems fields labels computed) {f : Field} (hf : f ∈ fields)
    (hlabel : f.name? = none → (f.key computed).1 ∈ labels) : Stems fields labels (f.key computed).2 := by
  intro e he
  cases hname : f.name? with
  | some name =>
    rw [Field.key_of_name? hname] at he
    exact h e he
  | none =>
    rcases f.key_cases computed with heq | ⟨label, -, heq⟩ | ⟨m, heq⟩
    · rw [heq] at he
      exact h e he
    · rw [heq] at he hlabel
      rcases Entries.mem_of_mem_insert he with rfl | he
      · exact ⟨hlabel hname, f, hf, hname, rfl⟩
      · exact h e he
    · rw [heq] at he hlabel
      rcases Entries.mem_of_mem_insert he with rfl | he
      · exact ⟨hlabel hname, f, hf, hname, rfl⟩
      · exact h e he

theorem fileAll (h : Stems fields labels computed) {more : List Field} (hmore : more ⊆ fields)
    (hlabels : Field.labels more computed ⊆ labels) : Stems fields labels (Field.fileAll more computed) := by
  induction more generalizing computed with
  | nil => exact h
  | cons f more ih =>
    obtain ⟨hf, hmore⟩ := List.cons_subset.1 hmore
    rw [Field.labels, List.append_subset] at hlabels
    refine ih (h.key hf ?_) hmore hlabels.2
    intro hname
    exact hlabels.1 (by simp [hname])

variable {b after : Builder} {s : Step} {steps : List Step}

theorem step (h : Stems fields labels b.query.computed) (hf : b.keyed s ⊆ fields)
    (hlabels : Field.labels (b.keyed s) b.query.computed ⊆ labels) (hs : b.step s = .ok after) :
    Stems fields labels after.query.computed := by
  rw [Builder.step_computed hs]
  split
  · exact nil
  · exact h.fileAll hf hlabels

theorem run (h : Stems fields labels b.query.computed) (hf : b.keyedBy steps ⊆ fields)
    (hlabels : b.labelledBy steps ⊆ labels) (hrun : b.run steps = .ok after) :
    Stems fields labels after.query.computed := by
  induction steps generalizing b with
  | nil =>
    cases hrun
    exact h
  | cons s steps ih =>
    obtain ⟨next, hs, hrun⟩ := bind_eq_ok.1 hrun
    rw [Builder.keyedBy_cons hs, List.append_subset] at hf
    rw [Builder.labelledBy, hs, List.append_subset] at hlabels
    exact ih (h.step hf.1 hlabels.1 hs) hf.2 hlabels.2 hrun

theorem unlinked (h : Stems fields labels computed)
    (hfree : ∀ f ∈ fields, f.name? = none → ∀ path ∈ f.value.references, path ∉ labels) : Unlinked computed := by
  intro e he path hpath hkey
  obtain ⟨-, f, hf, hname, hvalue⟩ := h e he
  obtain ⟨e', he', rfl⟩ := List.mem_map.1 hkey
  exact hfree f hf hname _ (hvalue ▸ hpath) (h e' he').1

end Stems

/-- If no computed field of a run refers to a label of the run, then no computed field of its query refers to a label of
one, and the clauses are the same whatever the labels are as columns. -/
theorem labels_expand_once {steps : List Step} {b : Builder} (hrun : Builder.run {} steps = .ok b)
    (hfree : ∀ g ∈ Builder.keyedBy {} steps, g.name? = none →
      ∀ path ∈ g.value.references, path ∉ Builder.labelledBy {} steps) :
    Unlinked b.query.computed ∧
    ∀ (f : Formatter) (columns : Scope),
      (∀ name, name ∉ Entries.keys b.query.computed → columns name = f.plainScope name) →
      f.clauses b.query = f.clausesIn (f.expandIn columns b.query.computed) b.query := by
  have hstems : Stems (Builder.keyedBy {} steps) (Builder.labelledBy {} steps) b.query.computed :=
    Stems.nil.run (List.Subset.refl _) (List.Subset.refl _) hrun
  have hunlinked := hstems.unlinked hfree
  refine ⟨hunlinked, ?_⟩
  intro f columns hcolumns
  rw [Sql.expandIn_eq_scopeOf hunlinked hcolumns, Sql.clausesIn_scopeOf]

/-- An order by a label is no computed field, and the label need not be a column for it. -/
theorem labels_expand_once_ordered :
    ∃ b : Builder,
      Builder.run {} [.whereField (.name "price"), .transform ⟨.multiply, [.int 2]⟩, .relabel "doubled",
        .compare (.greaterThan (.int 10)), .orderBy .descending (.one (.name "doubled"))] = .ok b ∧
      Unlinked b.query.computed ∧
      (({} : Formatter).clausesIn (({} : Formatter).expandIn
        (fun name => if name = "doubled" then .error (.malformed (.ref name)) else ({} : Formatter).plainScope name)
        b.query.computed) b.query).toOption = some " WHERE ((price * 2)>10) ORDER BY (price * 2) DESC" := by
  have hrun : Builder.run {} [.whereField (.name "price"), .transform ⟨.multiply, [.int 2]⟩, .relabel "doubled",
      .compare (.greaterThan (.int 10)), .orderBy .descending (.one (.name "doubled"))] = .ok { query :=
        { filter := some (.entry "doubled" (.entry "$gt" (.int 10)))
          order := some [("doubled", .descending)]
          computed := [("doubled", .entry "$multiply" (.array [.ref "price", .int 2]))] } } := rfl
  have hfree : ∀ g ∈ [⟨.computed .multiply [.ref "price", .int 2], some "doubled"⟩, Field.ofName "doubled"],
      g.name? = none → ∀ path ∈ g.value.references, path ∉ ["doubled"] := by
    intro g hg hname
    rcases List.mem_cons.1 hg with rfl | hg
    · decide
    · cases List.mem_singleton.1 hg
      cases hname
  obtain ⟨hunlinked, hclauses⟩ := labels_expand_once hrun hfree
  refine ⟨_, hrun, hunlinked, ?_⟩
  rw [← hclauses]
  · decide +kernel
  · intro name hname
    exact if_neg fun h => hname (List.mem_singleton.2 h)

/-- A field refers to a label that was chosen before, and the label is written as a column. -/
theorem label_stands_as_column :
    ∃ q : Query,
      Query.build [.fromCollection ⟨"T", none⟩, .selectAll,
        .whereField (.field ⟨.computed .multiply [.ref "price", .int 2], some "doubled"⟩),
        .compare (.greaterThan (.int 10)), .continueWith .and (.field ⟨.computed .add [.ref "doubled", .int 1], none⟩),
        .compare (.lowerThan (.int 30))] = .ok q ∧
      q.computed = [("doubled", .entry "$multiply" (.array [.ref "price", .int 2])),
        ("add2", .entry "$add" (.array [.ref "doubled", .int 1]))] ∧
      ¬ Unlinked q.computed ∧
      (({} : Formatter).format q).toOption = some "SELECT * FROM T WHERE (((price * 2)>10) AND ((doubled + 1)<30))" := by
  refine ⟨_, rfl, rfl, ?_, by decide +kernel⟩
  intro h
  exact h ("add2", .entry "$add" (.array [.ref "doubled", .int 1])) (List.mem_cons_of_mem _ List.mem_cons_self) "doubled"
    List.mem_cons_self List.mem_cons_self

end SqlQuery
