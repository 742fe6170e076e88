import SqlQuery.Proofs.CompiledFilters
import SqlQuery.Proofs.DescriptorComplete
import SqlQuery.Proofs.FilterMerging

/-!
# Conditions in statements

A condition on a field that is joined to a filter stays among the filter's conditions (`States`), until a step puts
another filter in its place. The clause of the rows has it in parentheses, and every statement but an insert has that
clause.
-/

namespace SqlQuery

open SqlQuery.Sql (Formatter Condition Occurs Scope)

/-- A filter is a condition on a field, or has it in the list of a logical operator. -/
inductive States (name : String) (condition : Value) : Value → Prop where
  | entry : States name condition (.entry name condition)
  | item (op : LogicalOp) {items : List Value} {item : Value} (hm : item ∈ items) (h : States name condition item) :
    States name condition (.entry op.key (.array items))

/-- The rows of a query have to meet a condition on a field. -/
def Query.States (q : Query) (name : String) (condition : Value) : Prop :=
  ∃ filter ∈ q.prepared.toList ++ q.filter.toList, SqlQuery.States name condition filter

/-- The steps that put another filter in the place of the one there was. -/
def Step.replacesFilter : Step → Bool
  | .whereField _ | .whereClosure _ | .whereExpr _ | .setFilter _ => true
  | _ => false

variable {name : String} {condition existing other : Value} {op : LogicalOp} {q : Query} {b after : Builder}

/-! ### Merging -/

namespace States

/-- A list of conditions has the condition in one of its items. -/
theorem exists_item (hn : isOperatorKey name = false) {items : List Value}
    (h : States name condition (.entry op.key (.array items))) : ∃ item ∈ items, States name condition item := by
  generalize hfilter : Value.entry op.key (.array items) = filter at h
  cases h with
  | entry =>
    -- a field is called by no logical operator
    have hop : isOperatorKey op.key = true := by cases op <;> decide
    cases hfilter
    rw [hop] at hn
    cases hn
  | @item _ items' item hm h =>
    obtain rfl : items = items' := Value.array.inj (Prod.mk.inj (List.cons.inj (Value.object.inj hfilter)).1).2
    exact ⟨item, hm, h⟩

theorem merge_left (hn : isOperatorKey name = false) (h : States name condition existing) :
    States name condition (mergeFilter (some existing) op other) := by
  rcases mergeFilter_cases op existing other with ⟨items, rfl, hmerge⟩ | hmerge
  · -- the list takes the other condition in, and keeps its items
    obtain ⟨item, hm, hitem⟩ := h.exists_item hn
    rw [hmerge]
    exact .item op (List.mem_append_left _ hm) hitem
  · rw [hmerge]
    exact .item op List.mem_cons_self h

theorem merge_right (existing : Option Value) (h : States name condition other) :
    States name condition (mergeFilter existing op other) := by
  cases existing with
  | none => exact h
  | some existing =>
    rcases mergeFilter_cases op existing other with ⟨items, -, hmerge⟩ | hmerge
    · rw [hmerge]
      exact .item op (List.mem_append_right _ (List.mem_singleton_self _)) h
    · rw [hmerge]
      exact .item op (List.mem_cons_of_mem _ (List.mem_singleton_self _)) h

end States

/-! ### Steps -/

namespace Query.States

theorem addCondition (hn : isOperatorKey name = false) (h : b.query.States name condition) :
    (b.addCondition op other).query.States name condition := by
  obtain ⟨filter, hmem, hstates⟩ := h
  rcases List.mem_append.1 hmem with hmem | hmem
  · exact ⟨filter, List.mem_append_left _ hmem, hstates⟩
  · refine ⟨mergeFilter b.query.filter op other, List.mem_append_right _ (List.mem_singleton_self _), ?_⟩
    rw [Option.mem_toList.1 hmem]
    exact hstates.merge_left hn

theorem complete (hn : isOperatorKey name = false) (h : b.query.States name condition) (left : Operand) (v : Value) :
    (b.complete left v).query.States name condition := by
  let joined : Builder := { b with
    query := { b.query with computed := (left.condition v b.query.computed).2 }, left := none }
  have hjoined : joined.query.States name condition := h
  exact hjoined.addCondition hn

/-- A condition is kept by the steps that do not replace the filter. -/
theorem step {s : Step} (hn : isOperatorKey name = false) (hs : s.replacesFilter = false)
    (h : b.query.States name condition) (hstep : b.step s = .ok after) : after.query.States name condition := by
  cases Builder.step_eq_ok.1 hstep with
  | whereField | whereClosure | whereExpr | setFilter => cases hs
  | filter => exact h.addCondition hn
  | @prepare op filter hf =>
    -- both filters become the one that is kept
    obtain ⟨stated, hmem, hstates⟩ := h
    refine ⟨mergeFilter b.query.prepared op filter, List.mem_append_left _ (List.mem_singleton_self _), ?_⟩
    rcases List.mem_append.1 hmem with hmem | hmem
    · rw [Option.mem_toList.1 hmem]
      exact hstates.merge_left hn
    · obtain rfl := Option.some.inj (hf.symm.trans (Option.mem_toList.1 hmem))
      exact hstates.merge_right _
  | compare => exact h.complete hn _ _
  | @between low high left =>
    let lower : Builder := { b.complete left (.entry ComparisonOp.gte.key low) with connective := some .and }
    have hlower : lower.query.States name condition := h.complete hn _ _
    exact hlower.complete hn _ _
  | _ => exact h

theorem run {steps : List Step} (hn : isOperatorKey name = false) (hs : ∀ s ∈ steps, s.replacesFilter = false)
    (h : b.query.States name condition) (hrun : b.run steps = .ok after) : after.query.States name condition :=
  Builder.run_keeps_of_forall (P := fun b => b.query.States name condition) (Q := fun s => s.replacesFilter = false)
    (fun hq hp => step hn hq hp) hrun hs h

end Query.States

theorem states_complete_bare (b : Builder) (name : String) (condition : Value) :
    (b.complete (.bare name []) condition).query.States name condition :=
  ⟨_, List.mem_append_right _ (List.mem_singleton_self _), .merge_right _ .entry⟩

/-! ### Statements -/

namespace Sql

variable {f : Formatter} {scope : Scope} {clause sql : String}

/-- The condition is in parentheses in the condition of the filter. -/
theorem occurs_of_states {filter : Value} (h : States name condition filter) {c : Condition}
    (hc : f.filterIn scope filter = .ok c) :
    ∃ d, f.filterIn scope (.entry name condition) = .ok d ∧
      Occurs (Condition.group d).text (Condition.group c).text := by
  induction h generalizing c with
  | entry => exact ⟨c, hc, .refl _⟩
  | item op hm _ ih =>
    obtain ⟨cs, hcs, hoccurs⟩ := filterIn_logical hc
    obtain ⟨i, hi⟩ := List.mem_iff_getElem?.1 hm
    obtain ⟨inner, hinner, hfilter⟩ := exists_getElem? (forall₂_filterItems hcs) hi
    obtain ⟨d, hd, hgroup⟩ := ih hfilter
    exact ⟨d, hd, (hgroup.trans (hoccurs inner (List.mem_of_getElem? hinner))).trans (occurs_group c)⟩

theorem occurs_whereClause (h : q.States name condition) (hc : f.whereClause q = .ok clause) :
    ∃ d, f.filterIn (f.scopeOf q.computed) (.entry name condition) = .ok d ∧
      Occurs (Condition.group d).text clause := by
  obtain ⟨filter, hmem, hstates⟩ := h
  obtain ⟨c?, hcondition, hc⟩ := bind_eq_ok.1 hc
  obtain ⟨cs, hcs, hcondition⟩ := bind_eq_ok.1 hcondition
  cases hcondition
  obtain ⟨i, hi⟩ := List.mem_iff_getElem?.1 hmem
  obtain ⟨c, hmem, hfilter⟩ := exists_getElem? (forall₂_mapM hcs) hi
  obtain ⟨d, hd, hoccurs⟩ := occurs_of_states hstates hfilter
  have hne : cs.isEmpty = false := by
    cases cs with
    | nil => cases hmem
    | cons => rfl
  rw [hne] at hc
  cases hc
  refine ⟨d, hd, hoccurs.trans (Occurs.append_left ?_ _)⟩
  rw [Condition.text_chain]
  exact occurs_joinWith _ (List.mem_map_of_mem (List.mem_map_of_mem (List.mem_of_getElem? hmem)))

/-- The clause of the rows that a query takes is in the statement. -/
def HasWhereClause (f : Formatter) (q : Query) (sql : String) : Prop :=
  ∃ clause, f.whereClause q = .ok clause ∧ Occurs clause sql

theorem hasWhereClause_clauses (h : f.clauses q = .ok sql) : HasWhereClause f q sql := by
  obtain ⟨clause, hclause, h⟩ := bind_eq_ok.1 h
  obtain ⟨group, -, h⟩ := bind_eq_ok.1 h
  obtain ⟨order, -, h⟩ := bind_eq_ok.1 h
  cases h
  exact ⟨clause, hclause, (((Occurs.refl _).append_right _).append_right _).append_right _⟩

theorem HasWhereClause.mono {sql' : String} (h : HasWhereClause f q sql) (ho : Occurs sql sql') :
    HasWhereClause f q sql' := by
  obtain ⟨clause, hclause, hoccurs⟩ := h
  exact ⟨clause, hclause, hoccurs.trans ho⟩

theorem hasWhereClause_rows {c : Collection} (hc : q.collection = some c) (h : f.rows q = .ok sql) :
    HasWhereClause f q sql := by
  unfold Formatter.rows at h
  split at h
  · unfold Formatter.fixedSelect at h
    rw [hc] at h
    dsimp only at h
    split at h
    · cases h
    · obtain ⟨columns, -, h⟩ := bind_eq_ok.1 h
      obtain ⟨joins, -, h⟩ := bind_eq_ok.1 h
      obtain ⟨clauses, hclauses, h⟩ := bind_eq_ok.1 h
      cases h
      exact (hasWhereClause_clauses hclauses).mono ((Occurs.refl _).append_left _)
  · rw [select_eq hc] at h
    obtain ⟨columns, -, h⟩ := bind_eq_ok.1 h
    obtain ⟨joins, -, h⟩ := bind_eq_ok.1 h
    obtain ⟨clauses, hclauses, h⟩ := bind_eq_ok.1 h
    cases h
    exact (hasWhereClause_clauses hclauses).mono ((Occurs.refl _).append_left _)

theorem hasWhereClause_updateValues {target : String} {values : Document}
    (h : f.updateValues target values q = .ok sql) : HasWhereClause f q sql := by
  unfold Formatter.updateValues at h
  split at h
  · cases h
  · obtain ⟨texts, -, h⟩ := bind_eq_ok.1 h
    obtain ⟨clause, hclause, h⟩ := bind_eq_ok.1 h
    cases h
    exact ⟨clause, hclause, (Occurs.refl _).append_left _⟩

/-- All statements but inserts are about the rows that a query takes. -/
theorem hasWhereClause_format (hs : ∀ rows, q.statement ≠ some (.insert rows)) (h : f.format q = .ok sql) :
    HasWhereClause f q sql := by
  unfold Formatter.format at h
  split at h
  · cases h
  · cases h
  · next hc _ =>
    split at h
    · obtain ⟨inner, hinner, h⟩ := bind_eq_ok.1 h
      cases h
      refine (hasWhereClause_rows hc hinner).mono ?_
      exact (((Occurs.refl _).append_left _).append_right _).append_right _
    · exact hasWhereClause_rows hc h
  · next hrows => exact absurd hrows (hs _)
  · unfold Formatter.update at h
    split at h
    · cases h
    · exact hasWhereClause_updateValues h
    · cases h
  · unfold Formatter.delete at h
    split at h
    · cases h
    · obtain ⟨clause, hclause, h⟩ := bind_eq_ok.1 h
      cases h
      exact ⟨clause, hclause, (Occurs.refl _).append_left _⟩

/-- A condition that a query states is in parentheses in its statement. -/
theorem occurs_format (h : q.States name condition) (hs : ∀ rows, q.statement ≠ some (.insert rows))
    (hsql : f.format q = .ok sql) :
    ∃ d, f.filterIn (f.scopeOf q.computed) (.entry name condition) = .ok d ∧ Occurs (Condition.group d).text sql := by
  obtain ⟨clause, hclause, hoccurs⟩ := hasWhereClause_format hs hsql
  obtain ⟨d, hd, hgroup⟩ := occurs_whereClause h hclause
  exact ⟨d, hd, hgroup.trans hoccurs⟩

end Sql

end SqlQuery
