import Mathlib
import SqlQuery.Expr.Render
import SqlQuery.Proofs.EntryLookup

/-!
# Values that count as equal

`Value.same` compares documents without regard to the order of their keys and doubles as numbers. It is transitive, and
where no document has a key twice (`DistinctKeys`) it is symmetric; it is not reflexive, for a NaN differs from itself.
-/

namespace SqlQuery.Value

/-- A property of all values, by way of the parts of lists and documents. -/
@[elab_as_elim]
theorem induct {P : Value → Prop} (scalar : ∀ v : Value, v.isScalar = true → P v)
    (array : ∀ items, (∀ v ∈ items, P v) → P (.array items))
    (object : ∀ entries : Document, (∀ e ∈ entries, P e.2) → P (.object entries)) (v : Value) : P v := by
  refine @Value.rec P (fun items => ∀ v ∈ items, P v) (fun entries => ∀ e ∈ entries, P e.2) (fun e => P e.2)
    (scalar _ rfl) (fun _ => scalar _ rfl) (fun _ => scalar _ rfl) (fun _ => scalar _ rfl) (fun _ => scalar _ rfl)
    (fun _ => scalar _ rfl) array object (fun _ => scalar _ rfl) (List.forall_mem_nil _) ?_ (List.forall_mem_nil _) ?_
    (fun _ _ h => h) v
  · intro v items hv hitems
    exact List.forall_mem_cons.2 ⟨hv, hitems⟩
  · intro e entries he hentries
    exact List.forall_mem_cons.2 ⟨he, hentries⟩

/-- No document in a value has a key twice. -/
inductive DistinctKeys : Value → Prop where
  | scalar {v : Value} (h : v.isScalar = true) : DistinctKeys v
  | array {items : List Value} (h : ∀ v ∈ items, DistinctKeys v) : DistinctKeys (.array items)
  | object {entries : Document} (hn : (Entries.keys entries).Nodup) (h : ∀ e ∈ entries, DistinctKeys e.2) :
    DistinctKeys (.object entries)

theorem distinctKeys_array {items : List Value} :
    DistinctKeys (.array items) ↔ ∀ v ∈ items, DistinctKeys v := by
  constructor
  · rintro (h | h)
    · cases h
    · exact h
  · exact .array

theorem distinctKeys_object {entries : Document} :
    DistinctKeys (.object entries) ↔ (Entries.keys entries).Nodup ∧ ∀ e ∈ entries, DistinctKeys e.2 := by
  constructor
  · rintro (h | h | ⟨hn, h⟩)
    · cases h
    · exact ⟨hn, h⟩
  · rintro ⟨hn, h⟩
    exact .object hn h

theorem distinctKeys_entry {key : String} {v : Value} (h : v.DistinctKeys) : (Value.entry key v).DistinctKeys := by
  refine .object (List.nodup_singleton _) ?_
  intro e he
  rw [List.mem_singleton.1 he]
  exact h

theorem distinctKeys_argumentValue {args : List Value} (h : ∀ v ∈ args, DistinctKeys v) :
    (Expr.argumentValue args).DistinctKeys := by
  unfold Expr.argumentValue
  split
  · exact h _ List.mem_cons_self
  · exact .array h

/-! ### Equality part by part -/

/-- But for doubles, what counts as equal to a scalar is the scalar. -/
theorem same_scalar {v w : Value} (hv : v.isScalar = true) :
    v.same w = true ↔ (v = w ∧ ∀ x, v ≠ .float x) ∨ ∃ x y, v = .float x ∧ w = .float y ∧ (x == y) = true := by
  cases v <;> cases w <;> simp_all [same, isScalar]

theorem sameItems_iff {as bs : List Value} :
    sameItems as bs = true ↔ List.Forall₂ (fun a b => a.same b = true) as bs := by
  induction as generalizing bs with
  | nil => cases bs <;> simp [sameItems]
  | cons a as ih => cases bs <;> simp [sameItems, ih]

theorem sameEntries_iff {as : List (String × Value)} {doc : Document} :
    sameEntries as doc = true ↔ ∀ e ∈ as, ∃ w, Entries.get? e.1 doc = some w ∧ e.2.same w = true := by
  induction as with
  | nil => simp [sameEntries]
  | cons e as ih =>
    rw [List.forall_mem_cons, ← ih, sameEntries, Bool.and_eq_true]
    cases Entries.get? e.1 doc <;> simp

theorem same_array {as : List Value} {w : Value} :
    (Value.array as).same w = true ↔ ∃ bs, w = .array bs ∧ List.Forall₂ (fun a b => a.same b = true) as bs := by
  cases w <;> simp [same, sameItems_iff]

theorem same_object {as : Document} {w : Value} :
    (Value.object as).same w = true ↔ ∃ bs : Document, w = .object bs ∧ as.length = bs.length ∧
      ∀ e ∈ as, ∃ v, Entries.get? e.1 bs = some v ∧ e.2.same v = true := by
  cases w <;> simp [same, sameEntries_iff]

theorem same_entry {key : String} {v w : Value} : (Value.entry key v).same (.entry key w) = v.same w := by
  simp [Value.entry, same, sameEntries, Entries.get?]

/-! ### An equivalence but for numbers that are none -/

theorem same_trans {u v w : Value} (huv : u.same v = true) (hvw : v.same w = true) : u.same w = true := by
  induction u using induct generalizing v w with
  | scalar u hu =>
    rcases (same_scalar hu).1 huv with ⟨rfl, -⟩ | ⟨x, y, rfl, rfl, hxy⟩
    · exact hvw
    · rcases (same_scalar rfl).1 hvw with ⟨-, hne⟩ | ⟨y', z, hy, rfl, hyz⟩
      · exact absurd rfl (hne y)
      · cases hy
        exact BEq.trans hxy hyz
  | array as ih =>
    obtain ⟨bs, rfl, hab⟩ := same_array.1 huv
    obtain ⟨cs, rfl, hbc⟩ := same_array.1 hvw
    rw [List.forall₂_iff_get] at hab hbc
    refine same_array.2 ⟨cs, rfl, List.forall₂_iff_get.2 ⟨hab.1.trans hbc.1, ?_⟩⟩
    intro i ha hc
    exact ih _ (List.get_mem ..) (hab.2 i ha (hab.1 ▸ ha)) (hbc.2 i (hab.1 ▸ ha) hc)
  | object as ih =>
    obtain ⟨bs, rfl, hlab, hab⟩ := same_object.1 huv
    obtain ⟨cs, rfl, hlbc, hbc⟩ := same_object.1 hvw
    refine same_object.2 ⟨cs, rfl, hlab.trans hlbc, ?_⟩
    intro e he
    obtain ⟨b, hb, heb⟩ := hab e he
    obtain ⟨c, hc, hbc⟩ := hbc (e.1, b) (Entries.mem_of_get? hb)
    exact ⟨c, hc, ih e he heb hbc⟩

theorem same_symm {v w : Value} (hv : v.DistinctKeys) (hw : w.DistinctKeys) (h : v.same w = true) :
    w.same v = true := by
  induction v using induct generalizing w with
  | scalar v hs =>
    rcases (same_scalar hs).1 h with ⟨rfl, -⟩ | ⟨x, y, rfl, rfl, hxy⟩
    · exact h
    · exact BEq.symm hxy
  | array as ih =>
    obtain ⟨bs, rfl, hab⟩ := same_array.1 h
    rw [distinctKeys_array] at hv hw
    rw [List.forall₂_iff_get] at hab
    refine same_array.2 ⟨as, rfl, List.forall₂_iff_get.2 ⟨hab.1.symm, ?_⟩⟩
    intro i hb ha
    exact ih _ (List.get_mem ..) (hv _ (List.get_mem ..)) (hw _ (List.get_mem ..)) (hab.2 i ha hb)
  | object as ih =>
    obtain ⟨bs, rfl, hlength, hab⟩ := same_object.1 h
    obtain ⟨hna, hv⟩ := distinctKeys_object.1 hv
    obtain ⟨hnb, hw⟩ := distinctKeys_object.1 hw
    -- keys of which none stands twice are all of as many keys that they are among
    have hkeys : Entries.keys as ⊆ Entries.keys bs := by
      intro key hkey
      obtain ⟨e, he, rfl⟩ := List.mem_map.1 hkey
      obtain ⟨b, hb, -⟩ := hab e he
      exact Entries.mem_keys_of_get? hb
    have hperm : (Entries.keys as).Perm (Entries.keys bs) :=
      (hna.subperm hkeys).perm_of_length_le (by simp [Entries.keys, hlength])
    refine same_object.2 ⟨as, rfl, hlength.symm, ?_⟩
    intro e he
    obtain ⟨a, ha, hkey⟩ := List.mem_map.1 (hperm.mem_iff.2 (List.mem_map_of_mem he))
    obtain ⟨b, hb, hsame⟩ := hab a ha
    rw [hkey, Entries.get?_of_mem hnb he] at hb
    obtain rfl := Option.some.inj hb
    refine ⟨a.2, Entries.get?_of_mem hna (hkey ▸ ha), ih a ha (hv a ha) (hw e he) hsame⟩

end SqlQuery.Value
