import Mathlib
import SqlQuery.Proofs.ComputedLabels
import SqlQuery.Proofs.ValueEquality

/-!
# Computed fields that are hoisted

Where no label is chosen, all computed fields come from hoisting. They are `Hoisted`: each is under the name of its
method with its own number, and no two count as equal. A further one goes to the end, and one that is there already is
referred to by its label, so the computed fields only grow until a statement that changes rows drops them
(`hoisted_fields_grow`).
-/

namespace SqlQuery

/-- Computed fields as hoisting makes them. -/
structure Hoisted (computed : Document) : Prop where
  numbered : ∀ (i : Nat) (hi : i < computed.length), ∃ (m : Method) (args : List Value),
    computed[i] = (m.name ++ Decimal.natText (i + 1), (Term.computed m args).value)
  different : computed.Pairwise fun e e' => e.2.same e'.2 = false

namespace Hoisted

variable {computed : Document} {m : Method} {args : List Value}

theorem nil : Hoisted [] := by
  refine ⟨?_, .nil⟩
  intro i hi
  exact absurd hi (Nat.not_lt_zero i)

theorem get?_minted (h : Hoisted computed) (m : Method) :
    Entries.get? (m.name ++ Decimal.natText (computed.length + 1)) computed = none := by
  cases hget : Entries.get? (m.name ++ Decimal.natText (computed.length + 1)) computed with
  | none => rfl
  | some value =>
    obtain ⟨i, hi, hentry⟩ := List.getElem_of_mem (Entries.mem_of_get? hget)
    obtain ⟨m', args, hnumbered⟩ := h.numbered i hi
    rw [hentry] at hnumbered
    have := minted_inj (congrArg Prod.fst hnumbered)
    omega

/-- A value that counts as equal to that of an entry has the label of the entry. -/
theorem labelOf?_eq (h : Hoisted computed) {label : String} {value value' : Value} (hmem : (label, value) ∈ computed)
    (hsame : value.same value' = true) (hk : value.DistinctKeys) (hk' : value'.DistinctKeys) :
    labelOf? value' computed = some label := by
  have hfound : (computed.find? fun e => e.2.same value').isSome = true := List.find?_isSome.2 ⟨_, hmem, hsame⟩
  obtain ⟨e, he⟩ := Option.isSome_iff_exists.1 hfound
  rw [labelOf?, he]
  obtain ⟨hsame', before, after, rfl, hbefore⟩ := List.find?_eq_some_iff_append.1 he
  rcases List.mem_append.1 hmem with hmem | hmem
  · have hnone := hbefore _ hmem
    rw [hsame] at hnone
    cases hnone
  · rcases List.mem_cons.1 hmem with rfl | hmem
    · rfl
    · -- two entries would count as equal to one value, and so as equal
      have hpair := (List.pairwise_cons.1 (List.pairwise_append.1 h.different).2.1).1 _ hmem
      rw [Value.same_trans hsame' (Value.same_symm hk hk' hsame)] at hpair
      cases hpair

theorem hoist_of_mem (h : Hoisted computed) {label : String} {value : Value} (hmem : (label, value) ∈ computed)
    (hsame : value.same (Term.computed m args).value = true) (hk : value.DistinctKeys)
    (hk' : (Term.computed m args).value.DistinctKeys) : hoist m args computed = (label, computed) := by
  rw [hoist, h.labelOf?_eq hmem hsame hk hk']

/-- What is not there yet goes to the end. -/
theorem hoist_cases (h : Hoisted computed) (m : Method) (args : List Value) :
    (hoist m args computed).2 = computed ∨
    (∀ e ∈ computed, e.2.same (Term.computed m args).value = false) ∧
      (hoist m args computed).2 =
        computed ++ [(m.name ++ Decimal.natText (computed.length + 1), (Term.computed m args).value)] := by
  cases hlabel : labelOf? (Term.computed m args).value computed with
  | some label =>
    left
    rw [hoist, hlabel]
  | none =>
    right
    constructor
    · intro e he
      rw [labelOf?, Option.map_eq_none_iff, List.find?_eq_none] at hlabel
      simpa using hlabel e he
    · rw [hoist, hlabel]
      exact Entries.insert_of_get?_eq_none _ (h.get?_minted m)

theorem concat (h : Hoisted computed) (hnew : ∀ e ∈ computed, e.2.same (Term.computed m args).value = false) :
    Hoisted (computed ++ [(m.name ++ Decimal.natText (computed.length + 1), (Term.computed m args).value)]) := by
  constructor
  · intro i hi
    rcases Nat.lt_or_ge i computed.length with hlt | hge
    · rw [List.getElem_append_left hlt]
      exact h.numbered i hlt
    · have heq : i = computed.length := by
        rw [List.length_append, List.length_singleton] at hi
        omega
      subst heq
      exact ⟨m, args, List.getElem_concat_length rfl _⟩
  · refine List.pairwise_append.2 ⟨h.different, List.pairwise_singleton .., ?_⟩
    intro e he e' he'
    rw [List.mem_singleton.1 he']
    exact hnew e he

/-- A reference to a field without a label keeps what is there in its place. -/
theorem key (h : Hoisted computed) {f : Field} (hlabel : f.label = none) :
    Hoisted (f.key computed).2 ∧ computed <+: (f.key computed).2 := by
  obtain ⟨term, label⟩ := f
  subst hlabel
  cases term with
  | simple name => exact ⟨h, List.prefix_rfl⟩
  | computed m args =>
    show Hoisted (hoist m args computed).2 ∧ computed <+: (hoist m args computed).2
    rcases h.hoist_cases m args with heq | ⟨hnew, heq⟩
    · rw [heq]
      exact ⟨h, List.prefix_rfl⟩
    · rw [heq]
      exact ⟨h.concat hnew, List.prefix_append ..⟩

theorem fileAll (h : Hoisted computed) {fields : List Field} (hf : ∀ f ∈ fields, f.label = none) :
    Hoisted (Field.fileAll fields computed) ∧ computed <+: Field.fileAll fields computed := by
  induction fields generalizing computed with
  | nil => exact ⟨h, List.prefix_rfl⟩
  | cons f fields ih =>
    obtain ⟨hfirst, hrest⟩ := List.forall_mem_cons.1 hf
    obtain ⟨hkey, hgrown⟩ := h.key hfirst
    obtain ⟨hall, hgrown'⟩ := ih hkey hrest
    exact ⟨hall, hgrown.trans hgrown'⟩

/-! ### Steps and runs -/

variable {b after : Builder} {s : Step} {steps : List Step}

theorem step (h : Hoisted b.query.computed) (hf : ∀ f ∈ b.keyed s, f.label = none) (hs : b.step s = .ok after) :
    Hoisted after.query.computed ∧ (s.startsChange = false → b.query.computed <+: after.query.computed) := by
  rw [Builder.step_computed hs]
  cases s.startsChange with
  | true => exact ⟨nil, by simp⟩
  | false =>
    obtain ⟨hall, hgrown⟩ := h.fileAll hf
    exact ⟨hall, fun _ => hgrown⟩

theorem run (h : Hoisted b.query.computed) (hf : ∀ f ∈ b.keyedBy steps, f.label = none) (hrun : b.run steps = .ok after) :
    Hoisted after.query.computed ∧
      ((∀ s ∈ steps, s.startsChange = false) → b.query.computed <+: after.query.computed) := by
  induction steps generalizing b with
  | nil =>
    cases hrun
    exact ⟨h, fun _ => List.prefix_rfl⟩
  | cons s steps ih =>
    obtain ⟨next, hs, hrun⟩ := bind_eq_ok.1 hrun
    rw [Builder.keyedBy_cons hs, List.forall_mem_append] at hf
    obtain ⟨hnext, hgrown⟩ := h.step hf.1 hs
    obtain ⟨hafter, hgrown'⟩ := ih hnext hf.2 hrun
    refine ⟨hafter, ?_⟩
    intro hsteps
    obtain ⟨hfirst, hrest⟩ := List.forall_mem_cons.1 hsteps
    exact (hgrown hfirst).trans (hgrown' hrest)

end Hoisted

theorem Term.distinctKeys_value (m : Method) {args : List Value} (h : ∀ v ∈ args, v.DistinctKeys) :
    (Term.computed m args).value.DistinctKeys :=
  Value.distinctKeys_entry (Value.distinctKeys_argumentValue h)

/-- In a run that refers to no field by a label that was chosen, each computed field is under the name of its method and
its own number, no two count as equal, and until a statement that changes rows is started they keep their places. A
further expression that counts as equal to one of them is referred to by the label of that one, in conditions as in orders
and groups. Where the order of the two matters, it is required that their documents have no key twice. -/
theorem hoisted_fields_grow {before later : List Step} {b after : Builder} (hbefore : Builder.run {} before = .ok b)
    (hlater : b.run later = .ok after) (hlabel : ∀ f ∈ Builder.keyedBy {} (before ++ later), f.label = none) :
    (∀ (i : Nat) (hi : i < after.query.computed.length), ∃ (m : Method) (args : List Value),
      after.query.computed[i] = (m.name ++ Decimal.natText (i + 1), (Term.computed m args).value)) ∧
    (∀ (i j : Nat) (hij : i < j) (hj : j < after.query.computed.length),
      after.query.computed[i].2.same after.query.computed[j].2 = false ∧
      (after.query.computed[i].2.DistinctKeys → after.query.computed[j].2.DistinctKeys →
        after.query.computed[j].2.same after.query.computed[i].2 = false)) ∧
    ((∀ s ∈ later, s.startsChange = false) → b.query.computed <+: after.query.computed) ∧
    ∀ {m : Method} {args : List Value} {label : String} {value : Value}, (label, value) ∈ after.query.computed →
      value.same (Term.computed m args).value = true → value.DistinctKeys →
      (Term.computed m args).value.DistinctKeys →
      Field.key ⟨.computed m args, none⟩ after.query.computed = (label, after.query.computed) ∧
      (∀ condition, after.complete (.field ⟨.computed m args, none⟩) condition =
        { after with
          query.filter := some (mergeFilter after.query.filter (after.connective.getD .and) (.entry label condition))
          left := none
          connective := none }) ∧
      ∀ direction, after.sortKeys (.one (.field ⟨.computed m args, none⟩)) direction =
        .ok ([(label, direction)], after.query.computed) := by
  rw [Builder.keyedBy_append hbefore, List.forall_mem_append] at hlabel
  obtain ⟨hb, -⟩ := Hoisted.nil.run hlabel.1 hbefore
  obtain ⟨hafter, hgrown⟩ := hb.run hlabel.2 hlater
  refine ⟨hafter.numbered, ?_, hgrown, ?_⟩
  · intro i j hij hj
    have hpair := List.pairwise_iff_getElem.1 hafter.different i j (Nat.lt_trans hij hj) hj hij
    refine ⟨hpair, ?_⟩
    intro hk hk'
    by_contra hsame
    rw [Value.same_symm hk' hk (Bool.eq_true_of_not_eq_false hsame)] at hpair
    cases hpair
  · intro m args label value hmem hsame hk hk'
    have hkey : Field.key ⟨.computed m args, none⟩ after.query.computed = (label, after.query.computed) :=
      hafter.hoist_of_mem hmem hsame hk hk'
    refine ⟨hkey, ?_, ?_⟩
    · intro condition
      rw [Builder.complete, Operand.condition, hkey]
      rfl
    · intro direction
      have hnames : Column.keys [.field ⟨.computed m args, none⟩] after.query.computed =
          .ok ([label], after.query.computed) :=
        bind_eq_ok.2 ⟨(label, after.query.computed), congrArg Except.ok hkey, rfl⟩
      exact bind_eq_ok.2 ⟨[.field ⟨.computed m args, none⟩], rfl,
        bind_eq_ok.2 ⟨([label], after.query.computed), mapError_eq_ok.2 hnames, rfl⟩⟩

/-- A condition and a later order refer to two products and a sum: the second product counts as equal to the first. -/
theorem hoisted_fields_grow_product :
    ∃ b after : Builder,
      Builder.run {} [.whereField (.name "price"), .transform ⟨.multiply, [.int 2]⟩, .compare (.greaterThan (.int 10)),
        .continueWith .and (.name "price"), .transform ⟨.multiply, [.int 2]⟩, .compare (.lowerThan (.int 30))] = .ok b ∧
      b.run [.orderBy .ascending (.one (.field ⟨.computed .add [.ref "price", .int 1], none⟩))] = .ok after ∧
      b.query.computed = [("multiply1", .entry "$multiply" (.array [.ref "price", .int 2]))] ∧
      b.query.computed <+: after.query.computed ∧ Entries.keys after.query.computed = ["multiply1", "add2"] ∧
      after.sortKeys (.one (.field ⟨.computed .multiply [.ref "price", .int 2], none⟩)) .descending =
        .ok ([("multiply1", .descending)], after.query.computed) := by
  have hbefore : Builder.run {} [.whereField (.name "price"), .transform ⟨.multiply, [.int 2]⟩,
      .compare (.greaterThan (.int 10)), .continueWith .and (.name "price"), .transform ⟨.multiply, [.int 2]⟩,
      .compare (.lowerThan (.int 30))] = .ok { query :=
        { filter := some (.entry "$and" (.array [.entry "multiply1" (.entry "$gt" (.int 10)),
            .entry "multiply1" (.entry "$lt" (.int 30))])),
          computed := [("multiply1", .entry "$multiply" (.array [.ref "price", .int 2]))] } } := rfl
  have hlater : Builder.run { query :=
        { filter := some (.entry "$and" (.array [.entry "multiply1" (.entry "$gt" (.int 10)),
            .entry "multiply1" (.entry "$lt" (.int 30))])),
          computed := [("multiply1", .entry "$multiply" (.array [.ref "price", .int 2]))] } }
      [.orderBy .ascending (.one (.field ⟨.computed .add [.ref "price", .int 1], none⟩))] = .ok _ := rfl
  have hcalls : ∀ (m : Method) (n : Int64), (Term.computed m [.ref "price", .int n]).value.DistinctKeys := by
    intro m n
    refine Term.distinctKeys_value m ?_
    simp only [List.forall_mem_cons]
    exact ⟨.scalar rfl, .scalar rfl, List.forall_mem_nil _⟩
  have hlabel : ∀ f ∈ [(⟨.computed .multiply [.ref "price", .int 2], none⟩ : Field),
      ⟨.computed .multiply [.ref "price", .int 2], none⟩, ⟨.computed .add [.ref "price", .int 1], none⟩],
      f.label = none := by simp
  obtain ⟨-, -, hgrown, hreused⟩ := hoisted_fields_grow hbefore hlater hlabel
  exact ⟨_, _, hbefore, hlater, rfl, hgrown (by simp [Step.startsChange]), rfl,
    (@hreused .multiply [.ref "price", .int 2] _ _ List.mem_cons_self rfl (hcalls .multiply 2) (hcalls .multiply 2)).2.2
      .descending⟩

end SqlQuery
