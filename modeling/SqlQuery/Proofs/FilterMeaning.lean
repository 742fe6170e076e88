import Mathlib
import SqlQuery.Outcome
import SqlQuery.Proofs.ConditionReading
import SqlQuery.Proofs.FilterPredicate
import SqlQuery.Sql.Statement

/-!
# Compiled filters keep their meaning

`Expresses` ties pieces of SQL to a predicate: the leaves are the atoms of the predicate in order, each as
it is written alone, and the formula that the pieces are read as is true whenever the predicate is.
-/

namespace SqlQuery.Sql

namespace Formatter

/-- The SQL of a column after methods have been applied to it. -/
def applied (f : Formatter) (methods : List Method) (column : String) : String :=
  methods.foldl (fun sql method => (f.unaryCall? method sql).getD sql) column

/-- The SQL of an atom that stands alone. -/
def atom (f : Formatter) (scope : Scope) : Atom → Except FormatError String
  | .expression key arg => f.expressionIn scope (.entry key arg)
  | .comparison field methods key arg => do
    let column ← scope field
    let c ← f.fieldCondition scope (f.applied methods column) (.entry key arg)
    return c.text

/-- An atom is true if its SQL is. -/
def holds (f : Formatter) (scope : Scope) (truth : String → Bool) (a : Atom) : Bool :=
  (f.atom scope a).toOption.any truth

end Formatter

namespace Connective

/-- The predicate that a connective makes of others. -/
def joined : Connective → List Predicate → Predicate
  | .and => .all
  | .or => .any

@[simp] theorem atoms_joined_cons (op : Connective) (p : Predicate) (ps : List Predicate) :
    (op.joined (p :: ps)).atoms = p.atoms ++ (op.joined ps).atoms := by
  cases op <;> simp [joined, Predicate.atoms, Predicate.atomsOf]

theorem eval_joined_cons (op : Connective) (holds : Atom → Bool) (p : Predicate) (ps : List Predicate) :
    (op.joined (p :: ps)).eval holds = op.apply (p.eval holds) ((op.joined ps).eval holds) := by
  cases op <;> simp [joined, apply, Predicate.eval, Predicate.evalAll, Predicate.evalAny]

end Connective

structure Expresses (f : Formatter) (scope : Scope) (level : Level) (ps : List Piece) (p : Predicate) : Prop where
  leaves : p.atoms.map (f.atom scope) = (Piece.leaves ps).map .ok
  reading : ∃ φ, Reading level ps φ ∧ ∀ truth, φ.eval truth = p.eval (f.holds scope truth)

namespace Expresses

variable {f : Formatter} {scope : Scope} {level : Level} {ps qs : List Piece} {p : Predicate}
  {rest : List Predicate}

theorem atom {a : Atom} {sql : String} (h : f.atom scope a = .ok sql) :
    Expresses f scope .conjunction [.leaf sql] (.atom a) where
  leaves := by simp [Predicate.atoms, h]
  reading := ⟨.atom sql, .conjunct (.leaf sql), fun truth => by
    simp [Formula.eval, Predicate.eval, Formatter.holds, h, Except.toOption]⟩

theorem disjunction (h : Expresses f scope .conjunction ps p) : Expresses f scope .disjunction ps p where
  leaves := h.leaves
  reading := h.reading.imp fun _ hφ => ⟨.disjunct hφ.1, hφ.2⟩

theorem group (h : Expresses f scope .disjunction ps p) :
    Expresses f scope .conjunction (.parenOpen :: (ps ++ [.parenClose])) p where
  leaves := by simpa using h.leaves
  reading := h.reading.imp fun _ hφ => ⟨.conjunct (.parens hφ.1), hφ.2⟩

theorem negation (h : Expresses f scope .disjunction ps p) :
    Expresses f scope .conjunction (.not :: .parenOpen :: (ps ++ [.parenClose])) (.not p) where
  leaves := by simpa [Predicate.atoms] using h.leaves
  reading := by
    obtain ⟨φ, hφ, heval⟩ := h.reading
    exact ⟨.not φ, .conjunct (.not (.parens hφ)), fun truth => by rw [Formula.eval, heval, Predicate.eval]⟩

theorem all_single (h : Expresses f scope level ps p) : Expresses f scope level ps (.all [p]) where
  leaves := by simpa [Predicate.atoms, Predicate.atomsOf] using h.leaves
  reading := by simpa [Predicate.eval, Predicate.evalAll] using h.reading

theorem any_single (h : Expresses f scope level ps p) : Expresses f scope level ps (.any [p]) where
  leaves := by simpa [Predicate.atoms, Predicate.atomsOf] using h.leaves
  reading := by simpa [Predicate.eval, Predicate.evalAny] using h.reading

theorem single (op : Connective) (h : Expresses f scope .conjunction ps p) :
    Expresses f scope op.level ps (op.joined [p]) := by
  cases op with
  | and => exact h.all_single
  | or => exact h.disjunction.any_single

theorem cons (op : Connective) (hp : Expresses f scope .conjunction ps p)
    (hq : Expresses f scope op.level qs (op.joined rest)) :
    Expresses f scope op.level (ps ++ .join op :: qs) (op.joined (p :: rest)) where
  leaves := by simp [hp.leaves, hq.leaves]
  reading := by
    obtain ⟨φ, hφ, hφeval⟩ := hp.reading
    obtain ⟨ψ, hψ, hψeval⟩ := hq.reading
    obtain ⟨χ, hχ, hχeval⟩ := hφ.exists_join op hψ
    refine ⟨χ, hχ, fun truth => ?_⟩
    rw [hχeval, hφeval, hψeval, op.eval_joined_cons]

/-- Each condition expresses the predicate at its place. -/
def Each (f : Formatter) (scope : Scope) (level : Level) (cs : List Condition) (ps : List Predicate) : Prop :=
  List.Forall₂ (fun c p => Expresses f scope level c.pieces p) cs ps

/-- Conditions with a connective between them. -/
theorem chain (op : Connective) {cs : List Condition} {ps : List Predicate} (hne : cs ≠ [])
    (h : Each f scope .conjunction cs ps) :
    Expresses f scope op.level (Condition.chain op cs).pieces (op.joined ps) := by
  rw [Condition.pieces]
  induction h with
  | nil => exact absurd rfl hne
  | @cons c p cs ps hc hcs ih =>
    cases hcs with
    | nil => exact hc.single op
    | cons => exact hc.cons op (ih (by simp))

theorem Each.groups {cs : List Condition} {ps : List Predicate} (h : Each f scope .disjunction cs ps) :
    Each f scope .conjunction (cs.map Condition.group) ps := by
  refine List.forall₂_map_left_iff.2 (h.imp fun c p hc => ?_)
  rw [Condition.pieces]
  exact hc.group

end Expresses

/-! ### Fields -/

section Fields

open Predicate (transform?)

variable {f : Formatter} {scope : Scope} {field column key : String} {methods : List Method} {arg : Value}
  {condition : String → Except FormatError Condition}

theorem isSome_unaryCall? (f : Formatter) (m : Method) (sql : String) :
    (f.unaryCall? m sql).isSome = m.isUnary := by
  cases m <;> rfl

/-- The methods that are applied to a field are those of one argument. -/
theorem bind_unaryCall? (f : Formatter) (key sql : String) :
    ((Method.ofKey? key).bind fun m => f.unaryCall? m sql) =
      (transform? key).map fun m => (f.unaryCall? m sql).getD sql := by
  unfold transform?
  cases Method.ofKey? key with
  | none => rfl
  | some m =>
    have hu := isSome_unaryCall? f m sql
    cases hc : f.unaryCall? m sql <;> simp_all [Option.filter]

theorem applied_concat (f : Formatter) (methods : List Method) (m : Method) (column : String) :
    f.applied (methods ++ [m]) column =
      (f.unaryCall? m (f.applied methods column)).getD (f.applied methods column) := by
  simp [Formatter.applied]

theorem transform?_of_lookup {symbol : String} (h : Formatter.comparisonSymbols.lookup key = some symbol) :
    transform? key = none := by
  have hkeys : ∀ entry ∈ Formatter.comparisonSymbols, transform? entry.1 = none := by decide
  obtain ⟨l₁, l₂, hl, -⟩ := List.lookup_eq_some_iff.1 h
  exact hkeys (key, symbol) (by simp [hl])

/-- What an operator compiles to: a negation, the condition of the field after a method, or a leaf. -/
theorem fieldOperator_cases {c : Condition} (h : f.fieldOperator scope column key arg condition = .ok c) :
    (key = "$not" ∧ ∃ inner, condition column = .ok inner ∧ c = .negation inner) ∨
    (key ≠ "$not" ∧ ∃ m, transform? key = some m ∧ condition ((f.unaryCall? m column).getD column) = .ok c) ∨
    (key ≠ "$not" ∧ transform? key = none ∧ ∃ sql, c = .leaf sql) := by
  unfold Formatter.fieldOperator at h
  split at h
  · next hk =>
    obtain ⟨inner, hinner, h⟩ := bind_eq_ok.1 h
    exact .inl ⟨hk, inner, hinner, (pure_eq_ok.1 h).symm⟩
  · next hk =>
    refine .inr ?_
    split at h
    · next hin =>
      obtain ⟨list, -, h⟩ := bind_eq_ok.1 h
      refine .inr ⟨hk, ?_, _, (pure_eq_ok.1 h).symm⟩
      rcases hin with rfl | rfl <;> decide
    · split at h
      · next hregex =>
        subst hregex
        split at h
        · exact .inr ⟨hk, by decide, _, (pure_eq_ok.1 h).symm⟩
        · simp at h
      · split at h
        · next htext =>
          subst htext
          split at h
          · exact .inr ⟨hk, by decide, _, (pure_eq_ok.1 h).symm⟩
          · simp at h
        · split at h
          · next hlookup =>
            obtain ⟨right, -, h⟩ := bind_eq_ok.1 h
            exact .inr ⟨hk, transform?_of_lookup hlookup, _, (pure_eq_ok.1 h).symm⟩
          · rw [bind_unaryCall?] at h
            cases ht : transform? key with
            | none => simp [ht] at h
            | some m => exact .inl ⟨hk, m, rfl, by simpa [ht] using h⟩

/-- An operator that compiles to a leaf is an atom with that text. -/
theorem atom_of_fieldOperator {sql : String} (hs : scope field = .ok column) (hk : key ≠ "$options")
    (h : f.fieldOperator scope (f.applied methods column) key arg (f.fieldCondition scope · arg) =
      .ok (.leaf sql)) :
    f.atom scope (.comparison field methods key arg) = .ok sql := by
  simp [Formatter.atom, hs, Value.entry, Formatter.fieldCondition, Formatter.fieldOperators, hk, h, bind,
    Except.bind, pure, Except.pure, Condition.text, Condition.pieces, Condition.chainPieces, Piece.text]

/-- An operator that is neither a negation nor a method. -/
theorem expresses_fieldOperator {c : Condition} (hs : scope field = .ok column) (hk : key ≠ "$options")
    (hnot : key ≠ "$not") (hm : transform? key = none)
    (h : f.fieldOperator scope (f.applied methods column) key arg (f.fieldCondition scope · arg) = .ok c) :
    Expresses f scope .conjunction c.pieces (.atom (.comparison field methods key arg)) := by
  rcases fieldOperator_cases h with ⟨rfl, -⟩ | ⟨-, m, hm', -⟩ | ⟨-, -, sql, rfl⟩
  · exact absurd rfl hnot
  · rw [hm] at hm'
    cases hm'
  · exact .atom (atom_of_fieldOperator hs hk h)

/-- A value that is neither a list nor a document is compared for equality. -/
theorem fieldCondition_of_isScalar {value : Value} (h : value.isScalar = true) :
    f.fieldCondition scope column value = f.fieldOperator scope column "$eq" value condition := by
  cases value with
  | array | object => cases h
  | null => rfl
  | _ =>
    simp [Formatter.fieldCondition, Formatter.fieldOperator, Formatter.comparisonSymbols,
      Formatter.comparison, Value.isNull]

theorem fieldCondition_array {items : List Value} :
    f.fieldCondition scope column (.array items) =
      f.fieldOperator scope column "$in" (.array items) condition := by
  simp [Formatter.fieldCondition, Formatter.fieldOperator]

theorem expresses_scalar {value : Value} {c : Condition} (methods : List Method) (hs : scope field = .ok column)
    (hv : value.isScalar = true) (h : f.fieldCondition scope (f.applied methods column) value = .ok c) :
    Expresses f scope .conjunction c.pieces (.ofField field methods value) := by
  rw [fieldCondition_of_isScalar hv] at h
  have hfield : Predicate.ofField field methods value = .atom (.comparison field methods "$eq" value) := by
    cases value with
    | array | object => cases hv
    | _ => rfl
  rw [hfield]
  exact expresses_fieldOperator hs (by decide) (by decide) (by decide) h

mutual

theorem expresses_fieldCondition (methods : List Method) (hs : scope field = .ok column) :
    (value : Value) → {c : Condition} → f.fieldCondition scope (f.applied methods column) value = .ok c →
      Expresses f scope .conjunction c.pieces (.ofField field methods value)
  | .object entries, c, h => by
    rw [Formatter.fieldCondition] at h
    obtain ⟨cs, hcs, h⟩ := bind_eq_ok.1 h
    split at h
    · simp at h
    · next hne =>
      rw [← pure_eq_ok.1 h]
      exact .chain .and (by simpa using hne) (expresses_fieldOperators methods hs entries hcs)
  | .array items, c, h => by
    rw [fieldCondition_array] at h
    exact expresses_fieldOperator hs (by decide) (by decide) (by decide) h
  | .null, _, h | .bool _, _, h | .int _, _, h | .float _, _, h | .string _, _, h | .date _, _, h | .ref _, _, h =>
    expresses_scalar methods hs rfl h

theorem expresses_fieldOperators (methods : List Method) (hs : scope field = .ok column) :
    (entries : List (String × Value)) → {cs : List Condition} →
      f.fieldOperators scope (f.applied methods column) entries = .ok cs →
      Expresses.Each f scope .conjunction cs (Predicate.ofOperators field methods entries)
  | [], cs, h => by
    rw [Formatter.fieldOperators] at h
    obtain rfl : [] = cs := by simpa using h
    exact .nil
  | (key, arg) :: rest, cs, h => by
    rw [Formatter.fieldOperators] at h
    rw [Predicate.ofOperators]
    split at h
    · next hk =>
      rw [if_pos hk]
      exact expresses_fieldOperators methods hs rest h
    · next hk =>
      obtain ⟨c, hc, h⟩ := bind_eq_ok.1 h
      obtain ⟨more, hmore, h⟩ := bind_eq_ok.1 h
      rw [← pure_eq_ok.1 h, if_neg hk]
      refine .cons ?_ (expresses_fieldOperators methods hs rest hmore)
      rw [Predicate.ofOperator]
      rcases fieldOperator_cases hc with ⟨hnot, inner, hinner, rfl⟩ | ⟨hnot, m, hm, hinner⟩ | ⟨hnot, hm, sql, rfl⟩
      · rw [if_pos hnot]
        exact (expresses_fieldCondition methods hs arg hinner).disjunction.negation
      · rw [if_neg hnot, hm]
        exact expresses_fieldCondition (methods ++ [m]) hs arg (by rwa [applied_concat])
      · rw [if_neg hnot, hm]
        exact .atom (atom_of_fieldOperator hs hk hc)

end

end Fields

/-! ### Filters -/

section Filters

variable {f : Formatter} {scope : Scope}

theorem expresses_conjunction {filter : Value} {cs : List Condition} {c : Condition} {ps : List Predicate}
    (hcs : Expresses.Each f scope .disjunction cs ps) (h : Formatter.conjunction filter cs = .ok c) :
    Expresses f scope .disjunction c.pieces (.all ps) := by
  unfold Formatter.conjunction at h
  split at h
  · simp at h
  · obtain rfl : _ = c := by simpa using h
    cases hcs with
    | cons hc hnil =>
      cases hnil
      exact hc.all_single
  · next hne _ =>
    obtain rfl : _ = c := by simpa using h
    exact (Expresses.chain .and (by simpa using hne) hcs.groups).disjunction

/-- An entry, given what the filters under a logical operator express. -/
theorem expresses_filterEntry {key : String} {value : Value} {c : Condition}
    {group : Unit → Except FormatError (List Condition)} {ps : List Predicate}
    (hgroup : ∀ {cs : List Condition}, group () = .ok cs → cs ≠ [] ∧ Expresses.Each f scope .disjunction cs ps)
    (h : f.filterEntry scope key value group = .ok c) :
    Expresses f scope .disjunction c.pieces (.ofEntry key value ps) := by
  have hchain : ∀ (op : Connective) {cs : List Condition}, group () = .ok cs →
      Expresses f scope op.level (Condition.chain op (cs.map Condition.group)).pieces (op.joined ps) := by
    intro op cs hcs
    obtain ⟨hne, heach⟩ := hgroup hcs
    exact .chain op (by simpa using hne) heach.groups
  unfold Formatter.filterEntry at h
  unfold Predicate.ofEntry
  split at h
  · next hk =>
    obtain ⟨cs, hcs, h⟩ := bind_eq_ok.1 h
    rw [← pure_eq_ok.1 h, if_pos hk]
    exact (hchain .and hcs).disjunction
  · next hand =>
    rw [if_neg hand]
    split at h
    · next hk =>
      obtain ⟨cs, hcs, h⟩ := bind_eq_ok.1 h
      rw [← pure_eq_ok.1 h, if_pos hk]
      exact hchain .or hcs
    · next hor =>
      rw [if_neg hor]
      split at h
      · next hk =>
        obtain ⟨cs, hcs, h⟩ := bind_eq_ok.1 h
        rw [← pure_eq_ok.1 h, if_pos hk, Condition.pieces]
        exact (hchain .and hcs).disjunction.negation.disjunction
      · next hnot =>
        rw [if_neg hnot]
        split at h
        · next hk =>
          obtain ⟨cs, hcs, h⟩ := bind_eq_ok.1 h
          rw [← pure_eq_ok.1 h, if_pos hk, Condition.pieces]
          exact (hchain .or hcs).negation.disjunction
        · next hnor =>
          rw [if_neg hnor]
          split at h
          · next hk =>
            obtain ⟨sql, hsql, h⟩ := bind_eq_ok.1 h
            rw [← pure_eq_ok.1 h, if_pos hk, Condition.pieces]
            exact (Expresses.atom (a := .expression key value) hsql).disjunction
          · next hk =>
            obtain ⟨column, hcolumn, h⟩ := bind_eq_ok.1 h
            rw [if_neg hk]
            exact (expresses_fieldCondition [] hcolumn value h).disjunction

mutual

theorem expresses_filterIn : (value : Value) → {c : Condition} → f.filterIn scope value = .ok c →
    Expresses f scope .disjunction c.pieces (.ofFilter value)
  | .object entries, c, h => by
    rw [Formatter.filterIn] at h
    obtain ⟨cs, hcs, h⟩ := bind_eq_ok.1 h
    exact expresses_conjunction (expresses_filterEntries entries hcs) h
  | .null, _, h | .bool _, _, h | .int _, _, h | .float _, _, h | .string _, _, h | .date _, _, h | .ref _, _, h
  | .array _, _, h => by
    rw [Formatter.filterIn.eq_def] at h
    cases h

theorem expresses_filterEntries : (entries : List (String × Value)) → {cs : List Condition} →
    f.filterEntries scope entries = .ok cs → Expresses.Each f scope .disjunction cs (Predicate.ofEntries entries)
  | [], cs, h => by
    rw [Formatter.filterEntries] at h
    obtain rfl : [] = cs := by simpa using h
    exact .nil
  | (key, value) :: rest, cs, h => by
    rw [Formatter.filterEntries] at h
    obtain ⟨c, hc, h⟩ := bind_eq_ok.1 h
    obtain ⟨more, hmore, h⟩ := bind_eq_ok.1 h
    rw [← pure_eq_ok.1 h]
    exact .cons (expresses_filterEntry (fun h => expresses_filterGroup key value h) hc)
      (expresses_filterEntries rest hmore)

theorem expresses_filterGroup (key : String) : (value : Value) → {cs : List Condition} →
    f.filterGroup scope key value = .ok cs →
    cs ≠ [] ∧ Expresses.Each f scope .disjunction cs (Predicate.ofGroup value)
  | .array (item :: items), cs, h => by
    rw [Formatter.filterGroup.eq_def] at h
    have heach := expresses_filterItems (item :: items) h
    refine ⟨?_, heach⟩
    rintro rfl
    cases heach
  | .object entries, cs, h => by
    rw [Formatter.filterGroup] at h
    obtain ⟨conditions, hconditions, h⟩ := bind_eq_ok.1 h
    obtain ⟨c, hc, h⟩ := bind_eq_ok.1 h
    rw [← pure_eq_ok.1 h]
    exact ⟨by simp, .cons (expresses_conjunction (expresses_filterEntries entries hconditions) hc) .nil⟩
  | .array [], _, h
  | .null, _, h | .bool _, _, h | .int _, _, h | .float _, _, h | .string _, _, h | .date _, _, h | .ref _, _, h => by
    rw [Formatter.filterGroup.eq_def] at h
    cases h

theorem expresses_filterItems : (items : List Value) → {cs : List Condition} →
    f.filterItems scope items = .ok cs → Expresses.Each f scope .disjunction cs (Predicate.ofItems items)
  | [], cs, h => by
    rw [Formatter.filterItems] at h
    obtain rfl : [] = cs := by simpa using h
    exact .nil
  | item :: items, cs, h => by
    rw [Formatter.filterItems] at h
    obtain ⟨c, hc, h⟩ := bind_eq_ok.1 h
    obtain ⟨more, hmore, h⟩ := bind_eq_ok.1 h
    rw [← pure_eq_ok.1 h]
    exact .cons (expresses_filterIn item hc) (expresses_filterItems items hmore)

end

end Filters

/-! ### Texts -/

/-- The text says what the predicate says: it is the text of pieces whose leaves are the atoms of the predicate
in order, and which are read as one formula only, true whenever the predicate is. -/
def Says (f : Formatter) (scope : Scope) (sql : String) (p : Predicate) : Prop :=
  ∃ ps φ, Piece.texts ps = sql ∧ p.atoms.map (f.atom scope) = (Piece.leaves ps).map .ok ∧
    (∀ ψ, Reading .disjunction ps ψ ↔ ψ = φ) ∧ ∀ truth, φ.eval truth = p.eval (f.holds scope truth)

theorem Expresses.says {f : Formatter} {scope : Scope} {c : Condition} {p : Predicate}
    (h : Expresses f scope .disjunction c.pieces p) : Says f scope c.text p := by
  obtain ⟨φ, hφ, heval⟩ := h.reading
  refine ⟨c.pieces, φ, rfl, h.leaves, fun ψ => ⟨fun hψ => hψ.unique hφ, ?_⟩, heval⟩
  rintro rfl
  exact hφ

/-- What a query asks of its rows: the filter that is kept, and the current one. -/
def rowPredicate (q : Query) : Predicate :=
  .all ((q.prepared.toList ++ q.filter.toList).map Predicate.ofFilter)

theorem expresses_mapM {f : Formatter} {scope : Scope} {filters : List Value} {cs : List Condition}
    (h : filters.mapM (f.filterIn scope) = .ok cs) :
    Expresses.Each f scope .disjunction cs (filters.map Predicate.ofFilter) := by
  induction filters generalizing cs with
  | nil =>
    obtain rfl : [] = cs := by simpa using pure_eq_ok.1 h
    exact .nil
  | cons v filters ih =>
    rw [List.mapM_cons] at h
    obtain ⟨c, hc, h⟩ := bind_eq_ok.1 h
    obtain ⟨more, hmore, h⟩ := bind_eq_ok.1 h
    rw [← pure_eq_ok.1 h]
    exact .cons (expresses_filterIn v hc) (ih hmore)

theorem says_filter {f : Formatter} {v : Value} {sql : String} (h : f.filter v = .ok sql) :
    Says f f.plainScope sql (.ofFilter v) := by
  obtain ⟨c, hc, h⟩ := bind_eq_ok.1 h
  rw [← pure_eq_ok.1 h]
  refine Expresses.says ?_
  rw [Condition.pieces]
  exact (expresses_filterIn v hc).group.disjunction

theorem says_whereClause {f : Formatter} {q : Query} {sql : String} (h : f.whereClause q = .ok sql) :
    (q.prepared = none ∧ q.filter = none ∧ sql = "") ∨
      ∃ body, sql = " WHERE " ++ body ∧ Says f (f.scopeOf q.computed) body (rowPredicate q) := by
  obtain ⟨c?, hc, h⟩ := bind_eq_ok.1 h
  obtain ⟨cs, hcs, hc⟩ := bind_eq_ok.1 hc
  have heach := expresses_mapM hcs
  cases cs with
  | nil =>
    obtain rfl : none = c? := by simpa using pure_eq_ok.1 hc
    obtain ⟨hprepared, hfilter⟩ : q.prepared = none ∧ q.filter = none := by simpa [Expresses.Each] using heach
    exact .inl ⟨hprepared, hfilter, (pure_eq_ok.1 h).symm⟩
  | cons c cs =>
    obtain rfl : some _ = c? := pure_eq_ok.1 hc
    refine .inr ⟨_, (pure_eq_ok.1 h).symm, Expresses.says ?_⟩
    exact (Expresses.chain .and (by simp) heach.groups).disjunction

/-- SQL of a filter, and the clause of a query's rows, mean what the filters say. -/
theorem filter_meaning (f : Formatter) :
    (∀ v sql, f.filter v = .ok sql → Says f f.plainScope sql (.ofFilter v)) ∧
      ∀ q sql, f.whereClause q = .ok sql →
        (q.prepared = none ∧ q.filter = none ∧ sql = "") ∨
          ∃ body, sql = " WHERE " ++ body ∧ Says f (f.scopeOf q.computed) body (rowPredicate q) :=
  ⟨fun _ _ => says_filter, fun _ _ => says_whereClause⟩

set_option maxRecDepth 1024 in
/-- Two ranges under OR and a negation keep their parentheses; a kept filter is one conjunct of the clause. -/
theorem filter_meaning_nested :
    Says {} (Formatter.plainScope {}) "(((a>1 AND a<5) OR (NOT (LENGTH(b)=3))) AND (c IS NULL))"
        (.all [.any [.all [.all [.atom (.comparison "a" [] "$gt" (.int 1)),
            .atom (.comparison "a" [] "$lt" (.int 5))]],
          .all [.all [.not (.all [.atom (.comparison "b" [.length] "$eq" (.int 3))])]]],
          .atom (.comparison "c" [] "$eq" .null)]) ∧
      ∃ body, " WHERE (NOT (d IS NULL)) AND (e=1)" = " WHERE " ++ body ∧
        Says {} (Formatter.scopeOf {} []) body
          (.all [.all [.all [.not (.atom (.comparison "d" [] "$eq" .null))]],
            .all [.atom (.comparison "e" [] "$eq" (.int 1))]]) := by
  have hclause : Formatter.whereClause {}
      { prepared := some (.entry "d" (.entry "$not" .null)), filter := some (.entry "e" (.int 1)) } =
        .ok " WHERE (NOT (d IS NULL)) AND (e=1)" := by cbv
  have hfilter : Formatter.filter {} (.object [
      ("$or", .array [.entry "a" (.object [("$gt", .int 1), ("$lt", .int 5)]),
        .entry "b" (.entry "$not" (.entry "$length" (.int 3)))]),
      ("c", .null)]) = .ok "(((a>1 AND a<5) OR (NOT (LENGTH(b)=3))) AND (c IS NULL))" := by cbv
  exact ⟨(filter_meaning {}).1 _ _ hfilter, ((filter_meaning {}).2 _ _ hclause).resolve_left (by simp)⟩

end SqlQuery.Sql
