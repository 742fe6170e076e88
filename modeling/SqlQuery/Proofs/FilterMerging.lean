import Mathlib
import SqlQuery.Proofs.FilterMeaning
import SqlQuery.Query.Builder

/-!
# Merged filters

A filter that is merged with a condition says what both say under the operator, and its atoms are those of the filter
and then those of the condition (`same_mergeFilter`). This does not depend on the filter's shape: a list of the operator
that takes the condition in is as good as a new list of two. A query that keeps its filter takes the same rows as
before, or those of either filter (`merged_filter_means_both`).
-/

namespace SqlQuery

open Sql (Connective Condition Formatter Scope Says rowPredicate)

/-- The logical operator of a connective. -/
def Sql.Connective.logical : Connective → LogicalOp
  | .and => .and
  | .or => .or

namespace Predicate

/-- The same atoms in the same order, and the same truth. -/
structure Same (p q : Predicate) : Prop where
  atoms : p.atoms = q.atoms
  eval : ∀ truth, p.eval truth = q.eval truth

namespace Same

variable {p q r : Predicate}

theorem refl (p : Predicate) : Same p p := ⟨rfl, fun _ => rfl⟩

theorem symm (h : Same p q) : Same q p := ⟨h.atoms.symm, fun truth => (h.eval truth).symm⟩

theorem trans (h : Same p q) (h' : Same q r) : Same p r :=
  ⟨h.atoms.trans h'.atoms, fun truth => (h.eval truth).trans (h'.eval truth)⟩

end Same

variable {truth : Atom → Bool}

theorem atomsOf_append (ps qs : List Predicate) : atomsOf (ps ++ qs) = atomsOf ps ++ atomsOf qs := by
  induction ps with
  | nil => rfl
  | cons p ps ih => rw [List.cons_append, atomsOf, atomsOf, ih, List.append_assoc]

theorem atoms_joined (op : Connective) (ps : List Predicate) : (op.joined ps).atoms = atomsOf ps := by
  cases op <;> rw [Connective.joined, atoms]

theorem evalAll_append (ps qs : List Predicate) :
    evalAll truth (ps ++ qs) = (evalAll truth ps && evalAll truth qs) := by
  induction ps with
  | nil => rfl
  | cons p ps ih => rw [List.cons_append, evalAll, evalAll, ih, Bool.and_assoc]

theorem evalAny_append (ps qs : List Predicate) :
    evalAny truth (ps ++ qs) = (evalAny truth ps || evalAny truth qs) := by
  induction ps with
  | nil => rfl
  | cons p ps ih => rw [List.cons_append, evalAny, evalAny, ih, Bool.or_assoc]

theorem eval_joined_append (op : Connective) (ps qs : List Predicate) :
    (op.joined (ps ++ qs)).eval truth = op.apply ((op.joined ps).eval truth) ((op.joined qs).eval truth) := by
  cases op with
  | and => simp only [Connective.joined, eval, evalAll_append, Connective.apply]
  | or => simp only [Connective.joined, eval, evalAny_append, Connective.apply]

theorem eval_joined_single (op : Connective) (p : Predicate) : (op.joined [p]).eval truth = p.eval truth := by
  cases op <;> simp [Connective.joined, eval, evalAll, evalAny]

theorem Same.single (p : Predicate) : (Predicate.all [p]).Same p := by
  refine ⟨?_, fun truth => eval_joined_single .and p⟩
  rw [Predicate.atoms, atomsOf, atomsOf, List.append_nil]

theorem ofItems_append (xs ys : List Value) : ofItems (xs ++ ys) = ofItems xs ++ ofItems ys := by
  induction xs with
  | nil => rfl
  | cons x xs ih => rw [List.cons_append, ofItems, ofItems, ih, List.cons_append]

theorem ofFilter_list (op : Connective) (items : List Value) :
    ofFilter (.entry op.logical.key (.array items)) = .all [op.joined (ofItems items)] := by
  rw [Value.entry, ofFilter, ofEntries, ofEntries, ofGroup, ofEntry]
  cases op <;> rfl

theorem eval_ofFilter_list (op : Connective) (items : List Value) :
    (ofFilter (.entry op.logical.key (.array items))).eval truth = (op.joined (ofItems items)).eval truth := by
  rw [ofFilter_list]
  exact eval_joined_single .and _

theorem atoms_ofFilter_list (op : Connective) (items : List Value) :
    (ofFilter (.entry op.logical.key (.array items))).atoms = atomsOf (ofItems items) := by
  rw [ofFilter_list, atoms, atomsOf, atomsOf, List.append_nil, atoms_joined]

end Predicate

open Predicate (ofFilter ofItems)

/-! ### Merging -/

/-- A filter takes a condition into its list, or it becomes the first item of a list of two. -/
theorem mergeFilter_cases (op : LogicalOp) (existing condition : Value) :
    (∃ items, existing = .entry op.key (.array items) ∧
      mergeFilter (some existing) op condition = .entry op.key (.array (items ++ [condition]))) ∨
    mergeFilter (some existing) op condition = .entry op.key (.array [existing, condition]) := by
  unfold mergeFilter
  split
  · next h => cases h
  · next key items h =>
    obtain rfl := Option.some.inj h
    by_cases hk : key = op.key
    · subst hk
      exact .inl ⟨items, rfl, if_pos rfl⟩
    · exact .inr (if_neg hk)
  · next h =>
    obtain rfl := Option.some.inj h
    exact .inr rfl

/-- A list of a connective that takes one more condition in. -/
theorem same_ofFilter_concat (op : Connective) (items : List Value) (condition : Value) :
    (ofFilter (.entry op.logical.key (.array (items ++ [condition])))).Same
      (op.joined [op.joined (ofItems items), ofFilter condition]) := by
  constructor
  · rw [Predicate.atoms_ofFilter_list, Predicate.ofItems_append, Predicate.atomsOf_append, Predicate.atoms_joined]
    simp only [ofItems, Predicate.atomsOf, Predicate.atoms_joined]
  · intro truth
    rw [Predicate.eval_ofFilter_list, Predicate.ofItems_append, Predicate.eval_joined_append,
      Connective.eval_joined_cons]
    rfl

/-- The operand at the left of a connective, written as one that says the same. -/
theorem Predicate.Same.joined_left {p q : Predicate} (h : p.Same q) (op : Connective) (r : Predicate) :
    (op.joined [p, r]).Same (op.joined [q, r]) := by
  constructor
  · rw [Connective.atoms_joined_cons, h.atoms, ← Connective.atoms_joined_cons]
  · intro truth
    rw [Connective.eval_joined_cons, h.eval, ← Connective.eval_joined_cons]

theorem same_ofFilter_list (op : Connective) (items : List Value) :
    (op.joined (ofItems items)).Same (ofFilter (.entry op.logical.key (.array items))) := by
  constructor
  · rw [Predicate.atoms_ofFilter_list, Predicate.atoms_joined]
  · intro truth
    rw [Predicate.eval_ofFilter_list]

theorem same_mergeFilter (op : Connective) (existing condition : Value) :
    (ofFilter (mergeFilter (some existing) op.logical condition)).Same
      (op.joined [ofFilter existing, ofFilter condition]) := by
  rcases mergeFilter_cases op.logical existing condition with ⟨items, rfl, h⟩ | h
  · rw [h]
    exact (same_ofFilter_concat op items condition).trans ((same_ofFilter_list op items).joined_left op _)
  · rw [h]
    exact (same_ofFilter_list op [existing, condition]).symm

namespace Sql

theorem exists_mapM_iff {α β ε : Type} {g : α → Except ε β} {xs : List α} :
    (∃ ys, xs.mapM g = .ok ys) ↔ ∀ x ∈ xs, ∃ y, g x = .ok y := by
  induction xs with
  | nil => exact iff_of_true ⟨[], rfl⟩ (List.forall_mem_nil _)
  | cons x xs ih =>
    rw [List.forall_mem_cons, ← ih, List.mapM_cons]
    constructor
    · rintro ⟨ys, h⟩
      obtain ⟨y, hy, h⟩ := bind_eq_ok.1 h
      obtain ⟨more, hmore, -⟩ := bind_eq_ok.1 h
      exact ⟨⟨y, hy⟩, more, hmore⟩
    · rintro ⟨⟨y, hy⟩, more, hmore⟩
      exact ⟨y :: more, bind_eq_ok.2 ⟨y, hy, bind_eq_ok.2 ⟨more, hmore, rfl⟩⟩⟩

theorem exists_return_iff {α β ε : Type} {x : Except ε α} {g : α → β} :
    (∃ b, (do return g (← x)) = Except.ok b) ↔ ∃ a, x = .ok a := by
  constructor
  · rintro ⟨b, h⟩
    obtain ⟨a, ha, -⟩ := bind_eq_ok.1 h
    exact ⟨a, ha⟩
  · rintro ⟨a, ha⟩
    exact ⟨g a, bind_eq_ok.2 ⟨a, ha, rfl⟩⟩

section Compiling

variable {f : Formatter} {scope : Scope}

/-- The filter has SQL. -/
def Accepts (f : Formatter) (scope : Scope) (filter : Value) : Prop := ∃ c, f.filterIn scope filter = .ok c

theorem accepts_iff_filter {filter : Value} : Accepts f f.plainScope filter ↔ ∃ sql, f.filter filter = .ok sql := by
  rw [Formatter.filter, exists_return_iff]
  rfl

theorem filterItems_eq_mapM (items : List Value) : f.filterItems scope items = items.mapM (f.filterIn scope) := by
  induction items with
  | nil => rw [Formatter.filterItems, List.mapM_nil]; rfl
  | cons item items ih =>
    rw [Formatter.filterItems, List.mapM_cons, ih]

/-- A list under a logical operator is made of the conditions of its items. -/
theorem filterIn_list (op : LogicalOp) (items : List Value) :
    ∃ join : List Condition → Condition, f.filterIn scope (.entry op.key (.array items)) = do
      let cs ← f.filterGroup scope op.key (.array items)
      return join cs := by
  have hentry : ∃ join : List Condition → Condition,
      f.filterEntry scope op.key (.array items) (fun _ => f.filterGroup scope op.key (.array items)) = do
        let cs ← f.filterGroup scope op.key (.array items)
        return join cs := by
    cases op <;> exact ⟨_, rfl⟩
  obtain ⟨join, hentry⟩ := hentry
  refine ⟨join, ?_⟩
  rw [Value.entry, Formatter.filterIn, Formatter.filterEntries, Formatter.filterEntries, hentry]
  cases f.filterGroup scope op.key (.array items) <;> rfl

/-- A list under a logical operator has SQL if its items have, and if there are any. -/
theorem accepts_list_iff {op : LogicalOp} {items : List Value} :
    Accepts f scope (.entry op.key (.array items)) ↔ items ≠ [] ∧ ∀ item ∈ items, Accepts f scope item := by
  obtain ⟨join, hlist⟩ := filterIn_list op items
  unfold Accepts
  rw [hlist]
  rcases items with _ | ⟨item, items⟩
  · refine iff_of_false ?_ (fun h => h.1 rfl)
    rintro ⟨c, h⟩
    rw [Formatter.filterGroup] at h
    cases h
  · have hgroup : f.filterGroup scope op.key (.array (item :: items)) = f.filterItems scope (item :: items) := by
      rw [Formatter.filterGroup.eq_def]
    rw [hgroup, filterItems_eq_mapM, exists_return_iff, exists_mapM_iff, and_iff_right (List.cons_ne_nil _ _)]

/-- Merging with a filter that has SQL asks for no more than the condition's SQL. -/
theorem accepts_mergeFilter {op : LogicalOp} {existing condition : Value} (he : Accepts f scope existing) :
    Accepts f scope (mergeFilter (some existing) op condition) ↔ Accepts f scope condition := by
  rcases mergeFilter_cases op existing condition with ⟨items, rfl, h⟩ | h
  · obtain ⟨-, hitems⟩ := accepts_list_iff.1 he
    rw [h, accepts_list_iff, List.forall_mem_append, List.forall_mem_singleton]
    exact ⟨fun h => h.2.2, fun hc => ⟨by simp, hitems, hc⟩⟩
  · rw [h, accepts_list_iff, List.forall_mem_cons, List.forall_mem_singleton]
    exact ⟨fun h => h.2.2, fun hc => ⟨by simp, he, hc⟩⟩

end Compiling

/-- What a text says depends on the atoms and on the truth alone. -/
theorem Says.congr {f : Formatter} {scope : Scope} {sql : String} {p q : Predicate} (h : Says f scope sql p)
    (hs : p.Same q) : Says f scope sql q := by
  obtain ⟨ps, φ, htext, hleaves, hreading, heval⟩ := h
  refine ⟨ps, φ, htext, ?_, hreading, ?_⟩
  · rw [← hs.atoms]
    exact hleaves
  · intro truth
    rw [heval, hs.eval]

theorem exists_whereClause_iff {f : Formatter} {q : Query} :
    (∃ sql, f.whereClause q = .ok sql) ↔
      ∀ v ∈ q.prepared.toList ++ q.filter.toList, Accepts f (f.scopeOf q.computed) v := by
  refine Iff.trans ?_ exists_mapM_iff
  constructor
  · rintro ⟨sql, h⟩
    obtain ⟨c?, hc, -⟩ := bind_eq_ok.1 h
    obtain ⟨cs, hcs, -⟩ := bind_eq_ok.1 hc
    exact ⟨cs, hcs⟩
  · rintro ⟨cs, hcs⟩
    have hc : f.whereCondition q = .ok (if cs.isEmpty then none else some (.chain .and (cs.map Condition.group))) :=
      bind_eq_ok.2 ⟨cs, hcs, rfl⟩
    unfold Formatter.whereClause
    rw [hc]
    cases cs <;> exact ⟨_, rfl⟩

end Sql

/-! ### Kept filters -/

section Kept

open Sql (Accepts accepts_mergeFilter exists_whereClause_iff)

variable {b : Builder} {kept current : Value}

theorem prepare_of_none (h : b.query.filter = none) (op : LogicalOp) : b.prepare op = b := by
  rw [Builder.prepare, h]

theorem query_prepare_of_some (h : b.query.filter = some current) (op : LogicalOp) :
    (b.prepare op).query =
      { b.query with filter := none, prepared := some (mergeFilter b.query.prepared op current) } := by
  rw [Builder.prepare, h]

theorem prepare_prepare (b : Builder) (op op' : LogicalOp) : (b.prepare op).prepare op' = b.prepare op := by
  refine prepare_of_none ?_ op'
  cases h : b.query.filter with
  | none => rw [prepare_of_none h, h]
  | some current => rw [query_prepare_of_some h]

theorem computed_prepare (b : Builder) (op : LogicalOp) : (b.prepare op).query.computed = b.query.computed := by
  cases h : b.query.filter with
  | none => rw [prepare_of_none h]
  | some current => rw [query_prepare_of_some h]

/-- Two filters that are kept as one. -/
theorem same_rowPredicate_prepare (hk : b.query.prepared = some kept) (hc : b.query.filter = some current)
    (op : Connective) :
    (rowPredicate (b.prepare op.logical).query).Same (op.joined [ofFilter kept, ofFilter current]) := by
  rw [query_prepare_of_some hc, hk]
  exact (Predicate.Same.single _).trans (same_mergeFilter op kept current)

theorem same_rowPredicate_prepare_and (b : Builder) :
    (rowPredicate (b.prepare .and).query).Same (rowPredicate b.query) := by
  cases hc : b.query.filter with
  | none => rw [prepare_of_none hc]; exact .refl _
  | some current =>
    cases hk : b.query.prepared with
    | none =>
      rw [query_prepare_of_some hc, hk, rowPredicate, rowPredicate, hc, hk]
      exact .refl _
    | some kept =>
      have hq : rowPredicate b.query = .all [ofFilter kept, ofFilter current] := by
        rw [rowPredicate, hc, hk]
        rfl
      rw [hq]
      exact same_rowPredicate_prepare hk hc .and

theorem exists_whereClause_prepare {f : Formatter} {sql : String} (op : Connective)
    (h : f.whereClause b.query = .ok sql) : ∃ clause, f.whereClause (b.prepare op.logical).query = .ok clause := by
  have haccepts := exists_whereClause_iff.1 ⟨sql, h⟩
  rw [exists_whereClause_iff, computed_prepare]
  cases hc : b.query.filter with
  | none => rwa [prepare_of_none hc]
  | some current =>
    rw [query_prepare_of_some hc]
    cases hk : b.query.prepared with
    | none =>
      rw [hc, hk] at haccepts
      exact haccepts
    | some kept =>
      rw [hc, hk] at haccepts
      have hkept : Accepts f (f.scopeOf b.query.computed) kept := haccepts kept (by simp)
      have hcurrent : Accepts f (f.scopeOf b.query.computed) current := haccepts current (by simp)
      intro v hv
      obtain rfl : v = mergeFilter (some kept) op.logical current := by simpa using hv
      exact (accepts_mergeFilter hkept).2 hcurrent

/-- The clause of a query that has kept its filter. -/
theorem says_whereClause_prepare {f : Formatter} {sql : String} {p : Predicate} (op : Connective)
    (h : f.whereClause b.query = .ok sql) (hp : (rowPredicate (b.prepare op.logical).query).Same p) :
    ((b.prepare op.logical).query.prepared = none ∧ f.whereClause (b.prepare op.logical).query = .ok "") ∨
      ∃ body, f.whereClause (b.prepare op.logical).query = .ok (" WHERE " ++ body) ∧
        Says f (f.scopeOf b.query.computed) body p := by
  obtain ⟨clause, hclause⟩ := exists_whereClause_prepare op h
  rcases Sql.says_whereClause hclause with ⟨hk, -, rfl⟩ | ⟨body, rfl, hbody⟩
  · exact .inl ⟨hk, hclause⟩
  · rw [computed_prepare] at hbody
    exact .inr ⟨body, hclause, hbody.congr hp⟩

theorem eq_none_of_prepare {op : LogicalOp} (h : (b.prepare op).query.prepared = none) :
    b.query.prepared = none ∧ b.query.filter = none := by
  cases hc : b.query.filter with
  | none =>
    rw [prepare_of_none hc] at h
    exact ⟨h, rfl⟩
  | some current =>
    rw [query_prepare_of_some hc] at h
    cases h

end Kept

/-- A merged filter says what its two parts say under the operator, and has SQL if the new part has. A query that keeps
its filter asks the same of its rows, or either of two filters, and its clause says so; to keep it once more changes
nothing. -/
theorem merged_filter_means_both :
    (∀ (op : Connective) (existing condition : Value),
      (ofFilter (mergeFilter (some existing) op.logical condition)).Same
        (op.joined [ofFilter existing, ofFilter condition]) ∧
      ∀ (f : Formatter) (sql : String), f.filter existing = .ok sql →
        ((∃ merged, f.filter (mergeFilter (some existing) op.logical condition) = .ok merged) ↔
          ∃ sql, f.filter condition = .ok sql)) ∧
    ∀ b : Builder,
      ((rowPredicate (b.prepare .and).query).Same (rowPredicate b.query) ∧
        ∀ (f : Formatter) (sql : String), f.whereClause b.query = .ok sql →
          (b.query.prepared = none ∧ b.query.filter = none ∧ f.whereClause (b.prepare .and).query = .ok "") ∨
            ∃ body, f.whereClause (b.prepare .and).query = .ok (" WHERE " ++ body) ∧
              Says f (f.scopeOf b.query.computed) body (rowPredicate b.query)) ∧
      (∀ kept current, b.query.prepared = some kept → b.query.filter = some current →
        (rowPredicate (b.prepare .or).query).Same (.any [ofFilter kept, ofFilter current]) ∧
        ∀ (f : Formatter) (sql : String), f.whereClause b.query = .ok sql →
          ∃ body, f.whereClause (b.prepare .or).query = .ok (" WHERE " ++ body) ∧
            Says f (f.scopeOf b.query.computed) body (.any [ofFilter kept, ofFilter current])) ∧
      ∀ op op', (b.prepare op).prepare op' = b.prepare op := by
  refine ⟨?_, ?_⟩
  · intro op existing condition
    refine ⟨same_mergeFilter op existing condition, ?_⟩
    intro f sql h
    rw [← Sql.accepts_iff_filter, ← Sql.accepts_iff_filter]
    exact Sql.accepts_mergeFilter (Sql.accepts_iff_filter.2 ⟨sql, h⟩)
  · intro b
    have hand := same_rowPredicate_prepare_and b
    refine ⟨⟨hand, ?_⟩, ?_, prepare_prepare b⟩
    · intro f sql h
      rcases says_whereClause_prepare .and h hand with ⟨hnone, hclause⟩ | hbody
      · obtain ⟨hk, hc⟩ := eq_none_of_prepare hnone
        exact .inl ⟨hk, hc, hclause⟩
      · exact .inr hbody
    · intro kept current hk hc
      have hor := same_rowPredicate_prepare hk hc .or
      refine ⟨hor, ?_⟩
      intro f sql h
      rcases says_whereClause_prepare .or h hor with ⟨hnone, -⟩ | hbody
      · rw [(eq_none_of_prepare hnone).2] at hc
        cases hc
      · exact hbody

set_option maxRecDepth 1024 in
/-- A kept list of alternatives takes one more in, and it is the first of two operands of the other connective. -/
theorem merged_filter_means_both_alternatives :
    (∃ merged, Formatter.filter {} (mergeFilter
        (some (.entry "$or" (.array [.entry "a" (.int 1), .entry "b" (.int 2)]))) .and (.entry "c" .null)) =
          .ok merged) ∧
      ∃ body, Formatter.whereClause {} (Builder.prepare { query :=
          { prepared := some (.entry "$or" (.array [.entry "a" (.int 1), .entry "b" (.int 2)])),
            filter := some (.entry "c" .null) } } .or).query = .ok (" WHERE " ++ body) ∧
        Says {} (Formatter.scopeOf {} []) body
          (.any [ofFilter (.entry "$or" (.array [.entry "a" (.int 1), .entry "b" (.int 2)])),
            ofFilter (.entry "c" .null)]) := by
  have halternatives : Formatter.filter {} (.entry "$or" (.array [.entry "a" (.int 1), .entry "b" (.int 2)])) =
      .ok "((a=1) OR (b=2))" := by cbv
  have hnull : Formatter.filter {} (.entry "c" .null) = .ok "(c IS NULL)" := by cbv
  have hclause : Formatter.whereClause {}
      { prepared := some (.entry "$or" (.array [.entry "a" (.int 1), .entry "b" (.int 2)])),
        filter := some (.entry "c" .null) } = .ok " WHERE ((a=1) OR (b=2)) AND (c IS NULL)" := by cbv
  exact ⟨((merged_filter_means_both.1 .and _ (.entry "c" .null)).2 {} _ halternatives).2 ⟨_, hnull⟩,
    ((merged_filter_means_both.2 { query := _ }).2.1 _ _ rfl rfl).2 {} _ hclause⟩

end SqlQuery
