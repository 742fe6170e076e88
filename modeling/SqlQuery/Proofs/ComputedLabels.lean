import SqlQuery.Proofs.BuildHistory
import SqlQuery.Proofs.EntryLookup

/-!
# What the labels of computed fields stand for

A comparison, an order or a group refers to a computed field by a label, and the query's computed fields tell what the
label stands for. `Builder.keyed` are the fields that a step turns into such references. A later step can give a label to
something else in two ways: a label that was chosen is chosen again, or one that was made up (`IsMinted`) is that of
another field. Where the chosen labels are `Distinct` neither happens, and a label keeps its meaning until a statement
that changes rows is started (`label_keeps_meaning`). Such a statement drops the computed fields and with them the
orders and groups, but not the conditions (`label_dropped`).
-/

namespace SqlQuery

/-! ### Labels that are made up -/

/-- A label as hoisting makes them up. -/
def IsMinted (label : String) : Prop := ∃ (m : Method) (n : Nat), label = m.name ++ Decimal.natText n

theorem Method.isDigit_of_mem_name {m : Method} {c : Char} (h : c ∈ m.name.toList) : c.isDigit = false := by
  have hall : m.name.toList.all (fun c => !c.isDigit) = true := by cases m <;> decide
  simpa using List.all_eq_true.1 hall c h

theorem isDigit_of_mem_natText {n : Nat} {c : Char} (h : c ∈ (Decimal.natText n).toList) : c.isDigit = true := by
  rw [Decimal.natText, String.toList_ofList] at h
  exact Nat.isDigit_of_mem_toDigits (by decide) (by decide) h

/-- The number of a label that was made up is what follows the letters. -/
theorem dropWhile_minted (m : Method) (n : Nat) :
    (m.name ++ Decimal.natText n).toList.dropWhile (fun c => !c.isDigit) = (Decimal.natText n).toList := by
  have hname : ∀ c ∈ m.name.toList, (!c.isDigit) = true := fun c hc => by
    rw [Method.isDigit_of_mem_name hc]
    rfl
  rw [String.toList_append, List.dropWhile_append_of_pos hname]
  cases hd : (Decimal.natText n).toList with
  | nil => rfl
  | cons d ds =>
    have : d.isDigit = true := isDigit_of_mem_natText (n := n) (by simp [hd])
    simp [List.dropWhile, this]

theorem natText_inj {n n' : Nat} (h : Decimal.natText n = Decimal.natText n') : n = n' := by
  have hdigits : Nat.toDigits 10 n = Nat.toDigits 10 n' := by
    simpa [Decimal.natText] using congrArg String.toList h
  calc
    n = Nat.ofDigitChars 10 (Nat.toDigits 10 n) 0 := Nat.ofDigitChars_ten_toDigits.symm
    _ = Nat.ofDigitChars 10 (Nat.toDigits 10 n') 0 := by rw [hdigits]
    _ = n' := Nat.ofDigitChars_ten_toDigits

theorem minted_inj {m m' : Method} {n n' : Nat} (h : m.name ++ Decimal.natText n = m'.name ++ Decimal.natText n') :
    n = n' := by
  have htexts : (Decimal.natText n).toList = (Decimal.natText n').toList := by
    rw [← dropWhile_minted m n, ← dropWhile_minted m' n', h]
  exact natText_inj (String.toList_inj.1 htexts)

theorem IsMinted.getLast_isDigit {label : String} (h : IsMinted label) :
    ∃ c, label.toList.getLast? = some c ∧ c.isDigit = true := by
  obtain ⟨m, n, rfl⟩ := h
  have hne : (Decimal.natText n).toList ≠ [] := by
    rw [Decimal.natText, String.toList_ofList]
    exact Nat.toDigits_ne_nil
  refine ⟨(Decimal.natText n).toList.getLast hne, ?_, isDigit_of_mem_natText (List.getLast_mem hne)⟩
  rw [String.toList_append, List.getLast?_append, List.getLast?_eq_some_getLast hne, Option.some_or]

/-! ### The fields that steps refer to -/

/-- The computed fields after some fields have been referred to, one after the other. -/
def Field.fileAll (fields : List Field) (computed : Document) : Document :=
  fields.foldl (fun computed f => (f.key computed).2) computed

theorem Field.fileAll_append (fields more : List Field) (computed : Document) :
    fileAll (fields ++ more) computed = fileAll more (fileAll fields computed) :=
  List.foldl_append

/-- The field that a condition on an operand refers to. A bare field is not among the computed ones. -/
def Operand.keyed : Operand → List Field
  | .bare .. => []
  | .field f => [f]

/-- The field of a column. -/
def Column.field? : Column → Option Field
  | .field f => some f
  | .constant .. => none

/-- The fields that a step refers to in conditions, orders and groups, in order. -/
def Builder.keyed (b : Builder) : Step → List Field
  | .compare _ => b.left.toList.flatMap Operand.keyed
  | .between .. => b.left.toList.flatMap Operand.keyed ++ b.left.toList.flatMap Operand.keyed
  | .orderBy _ p | .thenBy _ p | .groupBy p => (p.columns.toOption.getD []).filterMap Column.field?
  | _ => []

/-- The steps that start a statement which changes rows. -/
def Step.startsChange : Step → Bool
  | .insert _ | .insertMany _ | .update _ | .delete _ => true
  | _ => false

theorem Operand.condition_computed (o : Operand) (condition : Value) (computed : Document) :
    (o.condition condition computed).2 = Field.fileAll o.keyed computed := by
  cases o <;> rfl

theorem Column.keys_computed {columns : List Column} {computed computed' : Document} {names : List String}
    (h : Column.keys columns computed = .ok (names, computed')) :
    computed' = Field.fileAll (columns.filterMap Column.field?) computed := by
  induction columns generalizing computed names with
  | nil =>
    cases h
    rfl
  | cons c columns ih =>
    obtain ⟨⟨name, computed₁⟩, hc, h⟩ := bind_eq_ok.1 h
    obtain ⟨⟨names', computed₂⟩, hrest, h⟩ := bind_eq_ok.1 h
    cases h
    cases c with
    | field f =>
      have hkey : f.key computed = (name, computed₁) := Except.ok.inj hc
      show _ = Field.fileAll (columns.filterMap Column.field?) (f.key computed).2
      rw [hkey]
      exact ih hrest
    | constant label value => cases hc

theorem Builder.sortKeys_computed {b : Builder} {p : Projection} {d : Direction} {keys : List (String × Direction)}
    {computed : Document} (h : b.sortKeys p d = .ok (keys, computed)) :
    computed = Field.fileAll ((p.columns.toOption.getD []).filterMap Column.field?) b.query.computed := by
  obtain ⟨columns, hp, h⟩ := bind_eq_ok.1 h
  rw [toOption_of_ok hp]
  split at h
  · cases h
  · obtain ⟨⟨names, computed'⟩, hk, h⟩ := bind_eq_ok.1 h
    cases h
    exact Column.keys_computed (mapError_eq_ok.1 hk)

/-- A step adds the computed fields that it refers to, and only a statement that changes rows drops any. -/
theorem Builder.step_computed {b after : Builder} {s : Step} (hs : b.step s = .ok after) :
    after.query.computed = if s.startsChange then [] else Field.fileAll (b.keyed s) b.query.computed := by
  cases step_eq_ok.1 hs with
  | @compare c condition left _ hl =>
    refine (left.condition_computed condition b.query.computed).trans ?_
    simp [Builder.keyed, hl, Step.startsChange]
  | @between low high left hl =>
    show (left.condition _ (left.condition _ b.query.computed).2).2 = _
    rw [Operand.condition_computed, Operand.condition_computed]
    simp [Builder.keyed, hl, Step.startsChange, Field.fileAll_append]
  | orderBy hk | thenBy _ hk | groupBy hk => exact Builder.sortKeys_computed hk
  | _ => rfl

/-! ### What is filed stays -/

/-- The chosen labels of some fields: none looks like one that was made up, and none is chosen for two expressions. -/
structure DistinctLabels (fields : List Field) : Prop where
  chosen : ∀ f ∈ fields, ∀ label, f.label = some label → ¬ IsMinted label
  single : ∀ f ∈ fields, ∀ g ∈ fields, f.label = g.label → f.label ≠ none → f.value = g.value

/-- Computed fields that were referred to: the label of each was chosen for one of the fields, or made up with a number
that is not above how many there are. -/
structure Filed (fields : List Field) (computed : Document) : Prop where
  nodup : (Entries.keys computed).Nodup
  origin : ∀ {label value}, Entries.get? label computed = some value →
    (∃ f ∈ fields, f.label = some label ∧ f.value = value) ∨
    ∃ (m : Method) (n : Nat), n ≤ computed.length ∧ label = m.name ++ Decimal.natText n

/-- The references to a field: a bare name, a label that was chosen, one that is there already, or a new one. -/
theorem Field.key_cases (f : Field) (computed : Document) :
    (f.key computed).2 = computed ∨
    (∃ label, f.label = some label ∧ f.key computed = (label, Entries.insert label f.value computed)) ∨
    ∃ m : Method, f.key computed = (m.name ++ Decimal.natText (computed.length + 1),
      Entries.insert (m.name ++ Decimal.natText (computed.length + 1)) f.value computed) := by
  obtain ⟨term, label⟩ := f
  cases label with
  | some label => exact .inr (.inl ⟨label, rfl, rfl⟩)
  | none =>
    cases term with
    | simple name => exact .inl rfl
    | computed method args =>
      show (hoist method args computed).2 = computed ∨ _ ∨ ∃ m : Method, hoist method args computed = _
      unfold hoist
      dsimp only
      split
      · exact .inl rfl
      · exact .inr (.inr ⟨method, rfl⟩)

/-- A bare name is its own reference. -/
theorem Field.key_of_name? {f : Field} {name : String} (h : f.name? = some name) (computed : Document) :
    f.key computed = (name, computed) := by
  obtain ⟨_ | _, _ | _⟩ := f
  · cases h
    rfl
  · cases h
  · cases h
  · cases h

namespace Filed

variable {fields : List Field} {computed : Document}

theorem nil : Filed fields [] := ⟨List.nodup_nil, nofun⟩

/-- A number above how many there are is new. -/
theorem get?_minted (h : Filed fields computed) (hd : DistinctLabels fields) (m : Method) {n : Nat}
    (hn : computed.length < n) : Entries.get? (m.name ++ Decimal.natText n) computed = none := by
  cases hget : Entries.get? (m.name ++ Decimal.natText n) computed with
  | none => rfl
  | some value =>
    rcases h.origin hget with ⟨f, hf, hlabel, -⟩ | ⟨m', n', hle, heq⟩
    · exact absurd ⟨m, n, rfl⟩ (hd.chosen f hf _ hlabel)
    · have := minted_inj heq
      omega

theorem key (h : Filed fields computed) (hd : DistinctLabels fields) {f : Field} (hf : f ∈ fields) :
    Filed fields (f.key computed).2 := by
  rcases f.key_cases computed with heq | ⟨label, hlabel, heq⟩ | ⟨m, heq⟩
  · rwa [heq]
  · rw [heq]
    refine ⟨Entries.nodup_keys_insert h.nodup, fun {other value} hget => ?_⟩
    by_cases hk : label = other
    · subst hk
      rw [Entries.get?_insert_self] at hget
      exact .inl ⟨f, hf, hlabel, Option.some.inj hget⟩
    · rw [Entries.get?_insert_of_ne hk] at hget
      rcases h.origin hget with hchosen | ⟨m, n, hle, hm⟩
      · exact .inl hchosen
      · exact .inr ⟨m, n, Nat.le_trans hle Entries.length_le_insert, hm⟩
  · rw [heq]
    have hlength : (Entries.insert (m.name ++ Decimal.natText (computed.length + 1)) f.value computed).length =
        computed.length + 1 := by
      rw [Entries.insert_of_get?_eq_none _ (h.get?_minted hd m (Nat.lt_succ_self computed.length))]
      exact List.length_append
    refine ⟨Entries.nodup_keys_insert h.nodup, fun {other value} hget => ?_⟩
    by_cases hk : m.name ++ Decimal.natText (computed.length + 1) = other
    · exact .inr ⟨m, computed.length + 1, Nat.le_of_eq hlength.symm, hk.symm⟩
    · rw [Entries.get?_insert_of_ne hk] at hget
      rcases h.origin hget with hchosen | ⟨m', n, hle, hm⟩
      · exact .inl hchosen
      · exact .inr ⟨m', n, Nat.le_trans hle Entries.length_le_insert, hm⟩

/-- A reference to another field leaves what a label stands for. -/
theorem get?_key (h : Filed fields computed) (hd : DistinctLabels fields) {f : Field} (hf : f ∈ fields)
    {label : String} {value : Value} (hget : Entries.get? label computed = some value) :
    Entries.get? label (f.key computed).2 = some value := by
  rcases f.key_cases computed with heq | ⟨chosen, hchosen, heq⟩ | ⟨m, heq⟩
  · rwa [heq]
  · rw [heq]
    by_cases hk : chosen = label
    · subst hk
      rw [Entries.get?_insert_self]
      rcases h.origin hget with ⟨g, hg, hlabel, rfl⟩ | ⟨m, n, -, hm⟩
      · rw [hd.single f hf g hg (hchosen.trans hlabel.symm) (by simp [hchosen])]
      · exact absurd ⟨m, n, hm⟩ (hd.chosen f hf _ hchosen)
    · rwa [Entries.get?_insert_of_ne hk]
  · rw [heq, Entries.get?_insert_of_ne]
    · exact hget
    · rintro rfl
      rw [h.get?_minted hd m (Nat.lt_succ_self _)] at hget
      cases hget

theorem fileAll {more : List Field} (h : Filed fields computed) (hd : DistinctLabels fields) (hm : more ⊆ fields) :
    Filed fields (Field.fileAll more computed) := by
  induction more generalizing computed with
  | nil => exact h
  | cons f more ih =>
    obtain ⟨hf, hmore⟩ := List.cons_subset.1 hm
    exact ih (h.key hd hf) hmore

theorem get?_fileAll {more : List Field} (h : Filed fields computed) (hd : DistinctLabels fields) (hm : more ⊆ fields)
    {label : String} {value : Value} (hget : Entries.get? label computed = some value) :
    Entries.get? label (Field.fileAll more computed) = some value := by
  induction more generalizing computed with
  | nil => exact hget
  | cons f more ih =>
    obtain ⟨hf, hmore⟩ := List.cons_subset.1 hm
    exact ih (h.key hd hf) hmore (h.get?_key hd hf hget)

theorem step {b after : Builder} {s : Step} (h : Filed fields b.query.computed) (hd : DistinctLabels fields)
    (hk : b.keyed s ⊆ fields) (hs : b.step s = .ok after) : Filed fields after.query.computed := by
  rw [Builder.step_computed hs]
  split
  · exact .nil
  · exact h.fileAll hd hk

end Filed

/-- A field that is no bare name is referred to by a label that stands for its expression, or for one that counts as
equal. -/
theorem Field.get?_key_self {f : Field} (hf : f.name? = none) {computed : Document}
    (hn : (Entries.keys computed).Nodup) :
    ∃ value, Entries.get? (f.key computed).1 (f.key computed).2 = some value ∧
      (value = f.value ∨ value.same f.value = true) := by
  obtain ⟨term, label⟩ := f
  cases label with
  | some label => exact ⟨term.value, Entries.get?_insert_self, .inl rfl⟩
  | none =>
    cases term with
    | simple name => cases hf
    | computed method args =>
      show ∃ value, Entries.get? (hoist method args computed).1 (hoist method args computed).2 = some value ∧ _
      unfold hoist
      dsimp only
      split
      · next label hlabel =>
        obtain ⟨⟨key, value⟩, hfind, rfl⟩ := Option.map_eq_some_iff.1 hlabel
        have hsame : value.same (Term.computed method args).value = true := by simpa using List.find?_some hfind
        exact ⟨value, Entries.get?_of_mem hn (List.mem_of_find?_eq_some hfind), .inr hsame⟩
      · exact ⟨_, Entries.get?_insert_self, .inl rfl⟩

/-- Other labels than that of a field keep what they stand for. -/
theorem Field.get?_key_of_ne {f : Field} {computed : Document} {label : String} (h : label ≠ (f.key computed).1) :
    Entries.get? label (f.key computed).2 = Entries.get? label computed := by
  rcases f.key_cases computed with heq | ⟨chosen, -, heq⟩ | ⟨m, heq⟩
  · rw [heq]
  · rw [heq] at h ⊢
    exact Entries.get?_insert_of_ne h.symm
  · rw [heq] at h ⊢
    exact Entries.get?_insert_of_ne h.symm

theorem Field.nodup_keys_fileAll {computed : Document} (h : (Entries.keys computed).Nodup) (fields : List Field) :
    (Entries.keys (Field.fileAll fields computed)).Nodup := by
  induction fields generalizing computed with
  | nil => exact h
  | cons f fields ih =>
    have hfirst : (Entries.keys (f.key computed).2).Nodup := by
      rcases f.key_cases computed with heq | ⟨label, -, heq⟩ | ⟨m, heq⟩
      · rwa [heq]
      · rw [heq]
        exact Entries.nodup_keys_insert h
      · rw [heq]
        exact Entries.nodup_keys_insert h
    exact ih hfirst

/-! ### Runs -/

namespace Builder

variable {b after : Builder} {s : Step} {steps : List Step}

/-- A label stands for one expression at a time. -/
theorem nodup_keys_of_run (h : Builder.run {} steps = .ok after) : (Entries.keys after.query.computed).Nodup := by
  have hstep : ∀ {b after : Builder} {s : Step}, (Entries.keys b.query.computed).Nodup → b.step s = .ok after →
      (Entries.keys after.query.computed).Nodup := by
    intro b after s hb hs
    rw [step_computed hs]
    split
    · exact List.nodup_nil
    · exact Field.nodup_keys_fileAll hb _
  exact run_keeps (P := fun b => (Entries.keys b.query.computed).Nodup) hstep h List.nodup_nil

/-- The fields that a run of steps refers to. -/
def keyedBy (b : Builder) : List Step → List Field
  | [] => []
  | s :: steps =>
    b.keyed s ++
      match b.step s with
      | .ok after => after.keyedBy steps
      | .error _ => []

/-- A property of the query in every state that steps lead through. -/
def Throughout (b : Builder) (P : Query → Prop) : List Step → Prop
  | [] => P b.query
  | s :: steps => P b.query ∧ ∀ after, b.step s = .ok after → after.Throughout P steps

/-- A step refers to a field by a label: those before it have been referred to already. -/
def Refers (b : Builder) (s : Step) (f : Field) (label : String) : Prop :=
  ∃ earlier later, b.keyed s = earlier ++ f :: later ∧
    label = (f.key (Field.fileAll earlier b.query.computed)).1

theorem keyedBy_cons (hs : b.step s = .ok after) : b.keyedBy (s :: steps) = b.keyed s ++ after.keyedBy steps := by
  rw [keyedBy, hs]

theorem keyedBy_append {more : List Step} (h : b.run steps = .ok after) :
    b.keyedBy (steps ++ more) = b.keyedBy steps ++ after.keyedBy more := by
  induction steps generalizing b with
  | nil =>
    cases h
    rfl
  | cons s steps ih =>
    obtain ⟨next, hs, h⟩ := bind_eq_ok.1 h
    rw [List.cons_append, keyedBy_cons hs, keyedBy_cons hs, ih h, List.append_assoc]

end Builder

/-- A query that is ordered or grouped by a key. -/
def Query.SortsBy (label : String) (q : Query) : Prop :=
  label ∈ Entries.keys (q.order.getD []) ∨ label ∈ Entries.keys (q.group.getD [])

theorem Query.not_sortsBy {label : String} {q : Query} (ho : q.order = none) (hg : q.group = none) :
    ¬ q.SortsBy label := by
  simp [SortsBy, ho, hg, Entries.keys]

/-- A statement that changes rows drops orders and groups. -/
theorem Builder.step_startsChange {b after : Builder} {s : Step} (hc : s.startsChange = true)
    (hs : b.step s = .ok after) : after.query.order = none ∧ after.query.group = none := by
  cases step_eq_ok.1 hs with
  | insert | insertMany | update | delete => exact ⟨rfl, rfl⟩
  | _ => cases hc

/-- A key that is never dropped is there through no statement that changes rows. -/
theorem Builder.Throughout.not_startsChange {b after : Builder} {label : String} {steps : List Step}
    (h : b.Throughout (Query.SortsBy label) steps) (hrun : b.run steps = .ok after) :
    ∀ s ∈ steps, s.startsChange = false := by
  induction steps generalizing b with
  | nil => exact List.forall_mem_nil _
  | cons s steps ih =>
    obtain ⟨next, hs, hrun⟩ := bind_eq_ok.1 hrun
    have hnext := h.2 next hs
    refine List.forall_mem_cons.2 ⟨?_, ih hnext hrun⟩
    cases hc : s.startsChange with
    | false => rfl
    | true =>
      obtain ⟨ho, hg⟩ := Builder.step_startsChange hc hs
      have hsorts : next.query.SortsBy label := by
        cases steps with
        | nil => exact hnext
        | cons => exact hnext.1
      exact absurd hsorts (Query.not_sortsBy ho hg)

namespace Filed

variable {fields : List Field} {b after : Builder} {steps : List Step}

theorem run (h : Filed fields b.query.computed) (hd : DistinctLabels fields) (hk : b.keyedBy steps ⊆ fields)
    (hrun : b.run steps = .ok after) : Filed fields after.query.computed := by
  induction steps generalizing b with
  | nil =>
    cases hrun
    exact h
  | cons s steps ih =>
    obtain ⟨next, hs, hrun⟩ := bind_eq_ok.1 hrun
    rw [Builder.keyedBy_cons hs, List.append_subset] at hk
    exact ih (h.step hd hk.1 hs) hk.2 hrun

theorem get?_run (h : Filed fields b.query.computed) (hd : DistinctLabels fields) (hk : b.keyedBy steps ⊆ fields)
    (hc : ∀ s ∈ steps, s.startsChange = false) (hrun : b.run steps = .ok after) {label : String} {value : Value}
    (hget : Entries.get? label b.query.computed = some value) :
    Entries.get? label after.query.computed = some value := by
  induction steps generalizing b with
  | nil =>
    cases hrun
    exact hget
  | cons s steps ih =>
    obtain ⟨next, hs, hrun⟩ := bind_eq_ok.1 hrun
    obtain ⟨hfirst, hrest⟩ := List.forall_mem_cons.1 hc
    rw [Builder.keyedBy_cons hs, List.append_subset] at hk
    refine ih (h.step hd hk.1 hs) hk.2 hrest hrun ?_
    rw [Builder.step_computed hs, hfirst]
    exact h.get?_fileAll hd hk.1 hget

/-- After a step, the label that it refers to a field by stands for the field's expression. -/
theorem get?_refers {s : Step} {f : Field} {label : String} (h : Filed fields b.query.computed)
    (hd : DistinctLabels fields) (hk : b.keyed s ⊆ fields) (hs : b.step s = .ok after) (hf : f.name? = none)
    (hr : b.Refers s f label) :
    ∃ value, Entries.get? label after.query.computed = some value ∧ (value = f.value ∨ value.same f.value = true) := by
  obtain ⟨earlier, later, hkeyed, rfl⟩ := hr
  rw [hkeyed, List.append_subset, List.cons_subset] at hk
  obtain ⟨hearlier, hmem, hlater⟩ := hk
  have hfiled := h.fileAll hd hearlier
  obtain ⟨value, hget, hvalue⟩ := Field.get?_key_self hf hfiled.nodup
  refine ⟨value, ?_, hvalue⟩
  have hchange : s.startsChange = false := by
    -- a statement that changes rows refers to nothing
    cases s <;> first | rfl | simp [Builder.keyed] at hkeyed
  rw [Builder.step_computed hs, hchange, hkeyed, if_neg Bool.false_ne_true, Field.fileAll_append]
  exact (hfiled.key hd hmem).get?_fileAll hd hlater hget

end Filed

/-- A label by which a condition, an order or a group refers to a computed field stands for the field's expression, and
goes on to do so: for a condition as long as no statement that changes rows is started, for a key as long as it is in the
order or the group. It is required that the chosen labels of the run are distinct. -/
theorem label_keeps_meaning {before later : List Step} {s : Step} {b b₁ b₂ : Builder}
    (hbefore : Builder.run {} before = .ok b) (hs : b.step s = .ok b₁) (hlater : b₁.run later = .ok b₂)
    (hd : DistinctLabels (Builder.keyedBy {} (before ++ s :: later))) {f : Field} {label : String}
    (hf : f.name? = none) (hr : b.Refers s f label)
    (hkept : (∀ t ∈ later, t.startsChange = false) ∨ b₁.Throughout (Query.SortsBy label) later) :
    ∃ value, (value = f.value ∨ value.same f.value = true) ∧
      Entries.get? label b₁.query.computed = some value ∧ Entries.get? label b₂.query.computed = some value := by
  have hfields : Builder.keyedBy {} (before ++ s :: later) =
      Builder.keyedBy {} before ++ (b.keyed s ++ b₁.keyedBy later) := by
    rw [Builder.keyedBy_append hbefore, Builder.keyedBy_cons hs]
  generalize Builder.keyedBy {} (before ++ s :: later) = fields at hd hfields
  have hsub : Builder.keyedBy {} before ⊆ fields ∧ b.keyed s ⊆ fields ∧ b₁.keyedBy later ⊆ fields := by
    simp [hfields]
  obtain ⟨hfirst, hkeyed, hlast⟩ := hsub
  have hfiled : Filed fields b.query.computed := Filed.nil.run hd hfirst hbefore
  obtain ⟨value, hget, hvalue⟩ := hfiled.get?_refers hd hkeyed hs hf hr
  have hchange : ∀ t ∈ later, t.startsChange = false := by
    rcases hkept with h | h
    · exact h
    · exact h.not_startsChange hlater
  exact ⟨value, hvalue, hget, (hfiled.step hd hkeyed hs).get?_run hd hlast hchange hlater hget⟩

/-- A chosen label is kept while another field is hoisted and the filter is replaced. -/
theorem label_keeps_meaning_chosen :
    ∃ b₁ b₂ : Builder,
      Builder.run {} [.whereField (.name "price"), .transform ⟨.multiply, [.int 2]⟩, .relabel "doubled",
        .compare (.greaterThan (.int 10))] = .ok b₁ ∧
      b₁.run [.orderBy .ascending (.one (.field ⟨.computed .add [.ref "price", .int 1], none⟩)), .prepare .and] =
        .ok b₂ ∧
      b₂.query.prepared = some (.entry "doubled" (.entry "$gt" (.int 10))) ∧
      ∃ value, Entries.get? "doubled" b₁.query.computed = some value ∧
        Entries.get? "doubled" b₂.query.computed = some value := by
  have hd : DistinctLabels [⟨.computed .multiply [.ref "price", .int 2], some "doubled"⟩,
      ⟨.computed .add [.ref "price", .int 1], none⟩] := by
    refine ⟨fun f hf label hlabel hminted => ?_, fun f hf g hg heq hne => ?_⟩
    · obtain ⟨c, hlast, hdigit⟩ := hminted.getLast_isDigit
      rcases List.mem_cons.1 hf with rfl | hf
      · obtain rfl : "doubled" = label := Option.some.inj hlabel
        obtain rfl : 'd' = c := Option.some.inj hlast
        exact absurd hdigit (by decide)
      · cases List.mem_singleton.1 hf
        cases hlabel
    · rcases List.mem_cons.1 hf with rfl | hf
      · rcases List.mem_cons.1 hg with rfl | hg
        · rfl
        · cases List.mem_singleton.1 hg
          cases heq
      · cases List.mem_singleton.1 hf
        exact absurd rfl hne
  have hbefore : Builder.run {} [.whereField (.name "price"), .transform ⟨.multiply, [.int 2]⟩, .relabel "doubled"] =
      .ok { left := some (.field ⟨.computed .multiply [.ref "price", .int 2], some "doubled"⟩) } := rfl
  have hlater : Builder.run { query :=
        { filter := some (.entry "doubled" (.entry "$gt" (.int 10))),
          computed := [("doubled", .entry "$multiply" (.array [.ref "price", .int 2]))] } }
      [.orderBy .ascending (.one (.field ⟨.computed .add [.ref "price", .int 1], none⟩)), .prepare .and] = .ok _ := rfl
  obtain ⟨value, -, hget, hget'⟩ := label_keeps_meaning (s := .compare (.greaterThan (.int 10))) hbefore rfl hlater hd
    rfl ⟨[], [], rfl, rfl⟩ (.inl (by simp [Step.startsChange]))
  exact ⟨_, _, rfl, hlater, rfl, value, hget, hget'⟩

/-- A condition can outlive what its label stands for: an update drops the computed fields and keeps the filter. -/
theorem label_dropped :
    ∃ b₁ b₂ : Builder,
      Builder.run {} [.whereField (.field ⟨.computed .add [.ref "a", .int 1], none⟩), .compare (.equal (.int 2))] =
        .ok b₁ ∧
      b₁.run [.update ⟨"T", none⟩, .setValues (.entry "x" (.int 1))] = .ok b₂ ∧
      b₁.query.filter = some (.entry "add1" (.int 2)) ∧ b₂.query.filter = some (.entry "add1" (.int 2)) ∧
      Entries.get? "add1" b₁.query.computed = some (.entry "$add" (.array [.ref "a", .int 1])) ∧
      Entries.get? "add1" b₂.query.computed = none :=
  ⟨_, _, rfl, rfl, rfl, rfl, rfl, rfl⟩

end SqlQuery
