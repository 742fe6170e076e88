import Mathlib
import SqlQuery.Proofs.ComputedLabels
import SqlQuery.Proofs.FilterMerging

/-!
# Ranges

A range is completed by two comparisons of one operand. The operator that the operand came with joins the lower bound
to the filter, and the upper bound is joined to all of that by `and`. After `and` the filter asks for the range besides
what it asked for; after `or` the upper bound binds the rows of the old filter too (`range_of_operand`,
`range_taken_apart`).
-/

namespace SqlQuery

open Sql (Connective Formatter Says rowPredicate)
open Predicate (ofFilter ofField ofOperator ofOperators transform?)

/-! ### Comparisons of an operand -/

namespace Predicate

theorem ofKey?_key (m : Method) : Method.ofKey? m.key = some m := by
  cases m <;> rfl

/-- Conditions on a field have other operators than the keys of methods. -/
theorem key_not_mem (m : Method) : m.key ∉ ["$options", "$not", "$in", "$nin", "$regex", "$text"] := by
  cases m <;> decide

theorem transform?_key {m : Method} (hm : m.isUnary = true) : transform? m.key = some m := by
  rw [transform?, ofKey?_key, Option.filter_some, if_pos hm]

theorem transform?_comparison (op : ComparisonOp) :
    transform? op.key = none ∧ op.key ≠ "$not" ∧ op.key ≠ "$options" := by
  cases op <;> decide

/-- A comparison below methods is a comparison of what the methods make of the field. -/
theorem same_ofField_nested {methods : List Method} (hm : ∀ m ∈ methods, m.isUnary = true) (name : String)
    (before : List Method) (op : ComparisonOp) (value : Value) :
    (ofField name before (methods.foldr (fun m inner => .entry m.key inner) (.entry op.key value))).Same
      (.atom (.comparison name (before ++ methods) op.key value)) := by
  induction methods generalizing before with
  | nil =>
    obtain ⟨htransform, hnot, hoptions⟩ := transform?_comparison op
    rw [List.foldr_nil, Value.entry, ofField, ofOperators, if_neg hoptions, ofOperators, ofOperator, if_neg hnot,
      htransform, List.append_nil]
    exact .single _
  | cons m methods ih =>
    obtain ⟨hfirst, hrest⟩ := List.forall_mem_cons.1 hm
    have hkey := key_not_mem m
    simp only [List.mem_cons, not_or] at hkey
    obtain ⟨hoptions, hnot, -⟩ := hkey
    rw [List.foldr_cons, Value.entry, ofField, ofOperators, if_neg hoptions, ofOperators, ofOperator, if_neg hnot,
      transform?_key hfirst]
    refine (Same.single _).trans ?_
    have hinner := ih hrest (before ++ [m])
    rwa [List.append_assoc, List.singleton_append] at hinner

theorem ofFilter_field {name : String} (hk : isOperatorKey name = false) (value : Value) :
    ofFilter (.entry name value) = .all [ofField name [] value] := by
  rw [Value.entry, ofFilter, ofEntries, ofEntries, ofEntry, if_neg (ne_of_isOperatorKey hk (by decide)),
    if_neg (ne_of_isOperatorKey hk (by decide)), if_neg (ne_of_isOperatorKey hk (by decide)),
    if_neg (ne_of_isOperatorKey hk (by decide)), if_neg (by simp [hk])]

end Predicate

namespace Operand

/-- The methods below the name of an operand. -/
def methods : Operand → List Method
  | .bare _ methods => methods
  | .field _ => []

/-- The document of a condition on the operand under a name. -/
def under (x : Operand) (name : String) (condition : Value) : Value :=
  .entry name (x.methods.foldr (fun m inner => .entry m.key inner) condition)

/-- The name or label that a condition on the operand goes under. -/
def label (x : Operand) (computed : Document) : String :=
  match x with
  | .bare name _ => name
  | .field f => (f.key computed).1

/-- A name stands for the operand: it is the operand's own, or a label of its expression. -/
def IsNamed (x : Operand) (computed : Document) (name : String) : Prop :=
  match x with
  | .bare own _ => name = own
  | .field f => f.name? = some name ∨
    ∃ value, Entries.get? name computed = some value ∧ (value = f.value ∨ value.same f.value = true)

/-- A predicate compares the operand with a value: it is what a filter says that has the comparison under a name of the
operand, and if the name is no operator's, that is a single atom. -/
def Compares (x : Operand) (computed : Document) (op : ComparisonOp) (value : Value) (p : Predicate) : Prop :=
  ∃ name, x.IsNamed computed name ∧ p = ofFilter (x.under name (.entry op.key value)) ∧
    (isOperatorKey name = false → (∀ m ∈ x.methods, m.isUnary = true) →
      p.Same (.atom (.comparison name x.methods op.key value)))

variable {x : Operand} {computed : Document} {name : String}

theorem condition_eq (x : Operand) (condition : Value) (computed : Document) :
    x.condition condition computed = (x.under (x.label computed) condition, Field.fileAll x.keyed computed) := by
  cases x <;> rfl

theorem IsNamed.compares (h : x.IsNamed computed name) (op : ComparisonOp) (value : Value) :
    x.Compares computed op value (ofFilter (x.under name (.entry op.key value))) := by
  refine ⟨name, h, rfl, ?_⟩
  intro hk hm
  rw [under, Predicate.ofFilter_field hk]
  exact (Predicate.Same.single _).trans (Predicate.same_ofField_nested hm name [] op value)

/-- The name that a condition goes under stands for the operand afterwards. -/
theorem isNamed_label (hn : (Entries.keys computed).Nodup) :
    x.IsNamed (Field.fileAll x.keyed computed) (x.label computed) := by
  cases x with
  | bare own methods => rfl
  | field f =>
    cases hf : f.name? with
    | none => exact .inr (Field.get?_key_self hf hn)
    | some own =>
      have hlabel : (f.key computed).1 = own := congrArg Prod.fst (Field.key_of_name? hf computed)
      exact .inl (hf.trans (congrArg some hlabel.symm))

/-- A name that stands for the operand goes on to do so when a condition on it is stated. -/
theorem IsNamed.filed (h : x.IsNamed computed name) (hn : (Entries.keys computed).Nodup) :
    x.IsNamed (Field.fileAll x.keyed computed) name := by
  by_cases hlabel : name = x.label computed
  · rw [hlabel]
    exact isNamed_label hn
  · cases x with
    | bare own methods => exact h
    | field f =>
      refine h.imp_right ?_
      rintro ⟨value, hget, hvalue⟩
      exact ⟨value, (Field.get?_key_of_ne hlabel).trans hget, hvalue⟩

end Operand

/-! ### Two bounds -/

/-- A conjunct may be taken into the second operand, but for an alternative that holds without it. -/
theorem Sql.Connective.apply_and_eq_iff (op : Connective) (p q r : Bool) :
    (op.apply p q && r) = op.apply p (q && r) ↔ (op = .or → p = true → r = true) := by
  cases op <;> cases p <;> cases q <;> cases r <;> decide

theorem Predicate.Same.all_concat {p q : Predicate} (h : p.Same q) (ps : List Predicate) :
    (Predicate.all (ps ++ [p])).Same (.all (ps ++ [q])) := by
  constructor
  · simp only [Predicate.atoms, Predicate.atomsOf_append, Predicate.atomsOf, h.atoms]
  · intro truth
    simp only [Predicate.eval, Predicate.evalAll_append, Predicate.evalAll, h.eval]

/-- A filter that two conditions are merged with, the second one by `and`. -/
theorem same_mergeFilter_twice (op : Connective) (existing lower upper : Value) :
    (ofFilter (mergeFilter (some (mergeFilter (some existing) op.logical lower)) .and upper)).Same
      (.all [op.joined [ofFilter existing, ofFilter lower], ofFilter upper]) :=
  (same_mergeFilter .and _ upper).trans ((same_mergeFilter op existing lower).joined_left .and _)

theorem eval_bounds (op : Connective) (existing lower upper : Predicate) (truth : Atom → Bool) :
    (Predicate.all [op.joined [existing, lower], upper]).eval truth =
      (op.apply (existing.eval truth) (lower.eval truth) && upper.eval truth) := by
  have hinner : (op.joined [existing, lower]).eval truth = op.apply (existing.eval truth) (lower.eval truth) := by
    rw [Connective.eval_joined_cons, Predicate.eval_joined_single]
  rw [Predicate.eval, Predicate.evalAll, Predicate.evalAll, Predicate.evalAll, hinner, Bool.and_true]

/-- A range of the left side: its two bounds go under names of it, the second among the computed fields that the first
has left. -/
theorem Builder.step_between {b : Builder} {x : Operand} (hl : b.left = some x) (low high : Value) :
    ∃ after, b.step (.between low high) = .ok after ∧ after.query.prepared = b.query.prepared ∧
      after.query.computed = Field.fileAll x.keyed (Field.fileAll x.keyed b.query.computed) ∧
      after.query.filter = some (mergeFilter (some (mergeFilter b.query.filter (b.connective.getD .and)
        (x.under (x.label b.query.computed) (.entry ComparisonOp.gte.key low)))) .and
        (x.under (x.label (Field.fileAll x.keyed b.query.computed)) (.entry ComparisonOp.lte.key high))) := by
  refine ⟨_, (Takes.between low high hl).step, rfl, ?_, ?_⟩
  · show (x.condition _ (x.condition _ b.query.computed).2).2 = _
    rw [Operand.condition_eq, Operand.condition_eq]
  · show some (mergeFilter (some (mergeFilter b.query.filter (b.connective.getD .and)
      (x.condition _ b.query.computed).1)) .and (x.condition _ (x.condition _ b.query.computed).2).1) = _
    rw [Operand.condition_eq, Operand.condition_eq]

/-- A range of an operand that comes with an operator: the lower bound is joined to the filter by the operator, and the
upper bound to both by `and`. That is the range joined by the operator, unless the operator is `or` and the old filter
holds where the upper bound does not. The clause of the rows asks for it after the filter that is kept. -/
theorem range_of_operand {before : List Step} {b : Builder} (hb : Builder.run {} before = .ok b) {existing : Value}
    (hf : b.query.filter = some existing) (op : Connective) {source : Source} {field : Field}
    (hs : source.field? = .ok field) (transforms : List Transform) (low high : Value) :
    ∃ (after : Builder) (filter : Value) (lower upper : Predicate),
      b.run (.continueWith op.logical source :: (transforms.map .transform ++ [.between low high])) = .ok after ∧
      after.query.filter = some filter ∧
      (transforms.foldl Operand.apply (.ofField field)).Compares after.query.computed .gte low lower ∧
      (transforms.foldl Operand.apply (.ofField field)).Compares after.query.computed .lte high upper ∧
      (ofFilter filter).Same (.all [op.joined [ofFilter existing, lower], upper]) ∧
      (∀ truth, (ofFilter filter).eval truth =
          op.apply ((ofFilter existing).eval truth) (lower.eval truth && upper.eval truth) ↔
        (op = .or → (ofFilter existing).eval truth = true → upper.eval truth = true)) ∧
      ∀ (f : Formatter) (sql : String), f.whereClause after.query = .ok sql →
        ∃ body, sql = " WHERE " ++ body ∧ Says f (f.scopeOf after.query.computed) body
          (.all (b.query.prepared.toList.map ofFilter ++
            [.all [op.joined [ofFilter existing, lower], upper]])) := by
  generalize hx : transforms.foldl Operand.apply (.ofField field) = x
  have hintroduced : b.step (.continueWith op.logical source) =
      .ok { b with connective := some op.logical, left := some (.ofField field) } :=
    (Builder.Takes.continueWith op.logical hs).step
  have htransformed := Builder.run_transforms (b := { b with
    connective := some op.logical, left := some (.ofField field) }) rfl transforms
  rw [hx] at htransformed
  obtain ⟨after, hbounded, hprepared, hcomputed, hfilter⟩ := Builder.step_between (b := { b with
    connective := some op.logical, left := some x }) rfl low high
  replace hfilter : after.query.filter = some (mergeFilter (some (mergeFilter b.query.filter op.logical _)) .and _) :=
    hfilter
  rw [hf] at hfilter
  have hsame := same_mergeFilter_twice op existing
    (x.under (x.label b.query.computed) (.entry ComparisonOp.gte.key low))
    (x.under (x.label (Field.fileAll x.keyed b.query.computed)) (.entry ComparisonOp.lte.key high))
  have hnodup := Builder.nodup_keys_of_run hb
  have hnodup' := Field.nodup_keys_fileAll hnodup x.keyed
  refine ⟨after, _, _, _, ?_, hfilter, ?_, ?_, hsame, ?_, ?_⟩
  · have hcompleted := (Builder.run_append htransformed [.between low high]).trans (bind_eq_ok.2 ⟨_, hbounded, rfl⟩)
    exact bind_eq_ok.2 ⟨_, hintroduced, hcompleted⟩
  · rw [hcomputed]
    exact ((Operand.isNamed_label hnodup).filed hnodup').compares .gte low
  · rw [hcomputed]
    exact (Operand.isNamed_label hnodup').compares .lte high
  · intro truth
    rw [hsame.eval, eval_bounds]
    exact op.apply_and_eq_iff _ _ _
  · intro f sql hsql
    rcases Sql.says_whereClause hsql with ⟨-, hnone, -⟩ | ⟨body, rfl, hbody⟩
    · rw [hfilter] at hnone
      cases hnone
    · refine ⟨body, rfl, hbody.congr ?_⟩
      rw [rowPredicate, hfilter, hprepared, List.map_append]
      exact hsame.all_concat _

/-- After `and`, a range of a computed operand is asked for as a whole. -/
theorem range_of_operand_sum :
    ∃ (b after : Builder) (filter : Value) (lower upper : Predicate),
      Builder.run {} [.whereField (.name "b"), .compare (.equal (.int 1))] = .ok b ∧
      b.run [.continueWith .and (.name "a"), .transform ⟨.add, [.int 1]⟩, .between (.int 1) (.int 5)] = .ok after ∧
      after.query.filter = some filter ∧
      (Operand.field ⟨.computed .add [.ref "a", .int 1], none⟩).Compares after.query.computed .gte (.int 1) lower ∧
      (Operand.field ⟨.computed .add [.ref "a", .int 1], none⟩).Compares after.query.computed .lte (.int 5) upper ∧
      ∀ truth, (ofFilter filter).eval truth =
        ((ofFilter (.entry "b" (.int 1))).eval truth && (lower.eval truth && upper.eval truth)) := by
  have hb : Builder.run {} [.whereField (.name "b"), .compare (.equal (.int 1))] =
      .ok { query := { filter := some (.entry "b" (.int 1)) } } := rfl
  have hs : (Source.name "a").field? = .ok (Field.ofName "a") := rfl
  obtain ⟨after, filter, lower, upper, hrun, hfilter, hlower, hupper, -, hexact, -⟩ :=
    range_of_operand hb rfl .and hs [⟨.add, [.int 1]⟩] (.int 1) (.int 5)
  exact ⟨_, after, filter, lower, upper, hb, hrun, hfilter, hlower, hupper, fun truth => (hexact truth).2 (by simp)⟩

/-- The truth of atoms for a row that meets all but the upper bounds. -/
def aboveBounds : Atom → Bool
  | .expression .. => true
  | .comparison _ _ key _ => key != ComparisonOp.lte.key

/-- After `or`, a row that the old filter takes is lost if it is above the range. -/
theorem range_taken_apart :
    ∃ after : Builder,
      Builder.run {} [.whereField (.name "b"), .compare (.equal (.int 1)), .continueWith .or (.name "a"),
        .between (.int 1) (.int 5)] = .ok after ∧
      after.query.filter = some (.entry "$and" (.array
        [.entry "$or" (.array [.entry "b" (.int 1), .entry "a" (.entry "$gte" (.int 1))]),
         .entry "a" (.entry "$lte" (.int 5))])) ∧
      (after.query.filter.map fun filter => (ofFilter filter).eval aboveBounds) = some false ∧
      (Predicate.any [.atom (.comparison "b" [] "$eq" (.int 1)), .all [.atom (.comparison "a" [] "$gte" (.int 1)),
        .atom (.comparison "a" [] "$lte" (.int 5))]]).eval aboveBounds = true :=
  ⟨_, rfl, rfl, rfl, rfl⟩

end SqlQuery
