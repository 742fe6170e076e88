import SqlQuery.Proofs.ComputedLabels

/-!
# Orders that are extended

A step that extends an order puts each of its names under the step's direction. The names of the order keep their
places and new names go behind them, but a name that is there already gets the direction of the step. `Order.rank` is
how an order ranks two rows. The longer order refines the one before exactly if no direction was changed, that is, if
each name that was there already had the direction of the step (`order_refined_iff`).
-/

namespace SqlQuery

/-! ### One value under many keys -/

namespace Entries

variable {α : Type} {entries : Entries α}

/-- The names that are no keys, in order, each of them once. -/
def fresh (names : List String) (entries : Entries α) : List String :=
  (names.filter fun name => name ∉ keys entries).eraseDups

theorem insert_of_mem {key : String} {value : α} (hn : (keys entries).Nodup) (hk : key ∈ keys entries) :
    insert key value entries = entries.map fun e => (e.1, if e.1 = key then value else e.2) := by
  induction entries with
  | nil => cases hk
  | cons e rest ih =>
    obtain ⟨hnew, hrest⟩ := List.nodup_cons.1 hn
    rw [insert, List.map_cons]
    by_cases he : e.1 = key
    · have hsame : ∀ f ∈ rest, (f.1, if f.1 = key then value else f.2) = f := by
        intro f hf
        have hne : f.1 ≠ key := fun hfk => hnew (by rw [he, ← hfk]; exact List.mem_map_of_mem hf)
        rw [if_neg hne]
      rw [if_pos he, if_pos he, List.map_congr_left hsame, List.map_id']
    · have hk' : key ∈ keys rest := (List.mem_cons.1 hk).resolve_left (Ne.symm he)
      rw [if_neg he, if_neg he, ih hrest hk']

/-- Names that are keys already get the value in their places, and the others go to the end. -/
theorem insertAll_names (names : List String) (value : α) (hn : (keys entries).Nodup) :
    insertAll (names.map fun name => (name, value)) entries =
      (entries.map fun e => (e.1, if e.1 ∈ names then value else e.2)) ++
        (fresh names entries).map fun name => (name, value) := by
  induction names generalizing entries with
  | nil => simp [insertAll, fresh]
  | cons name names ih =>
    have hstep : insertAll ((name :: names).map fun name => (name, value)) entries =
        insertAll (names.map fun name => (name, value)) (insert name value entries) := rfl
    rw [hstep, ih (nodup_keys_insert hn)]
    by_cases hk : name ∈ keys entries
    · -- no key is new, and of the two values that a key may get both are the same
      have hkeys : keys (insert name value entries) = keys entries := by
        simp [insert_of_mem hn hk, keys]
      rw [fresh, fresh, hkeys, insert_of_mem hn hk, List.map_map]
      have hfilter : (name :: names).filter (fun n => n ∉ keys entries) = names.filter fun n => n ∉ keys entries := by
        simp [hk]
      rw [hfilter]
      congr 1
      refine List.map_congr_left ?_
      intro e _
      by_cases he : e.1 = name <;> simp [he]
    · have hend := insert_of_get?_eq_none value (get?_eq_none_iff.2 hk)
      have hfresh : fresh (name :: names) entries = name :: fresh names (insert name value entries) := by
        have hkeys : keys (insert name value entries) = keys entries ++ [name] := by simp [hend, keys]
        have hfilter : (name :: names).filter (fun n => n ∉ keys entries) =
            name :: names.filter fun n => n ∉ keys entries := by
          simp [hk]
        rw [fresh, hfilter, List.eraseDups_cons, List.filter_filter, fresh, hkeys]
        congr 2
        refine List.filter_congr ?_
        intro n _
        by_cases hname : n = name <;> simp [hname]
      have hmap : entries.map (fun e => (e.1, if e.1 ∈ name :: names then value else e.2)) =
          entries.map fun e => (e.1, if e.1 ∈ names then value else e.2) := by
        refine List.map_congr_left ?_
        intro e he
        have hne : e.1 ≠ name := fun h => hk (h ▸ List.mem_map_of_mem he)
        simp [hne]
      rw [hfresh, hmap, hend, List.map_append, List.append_assoc]
      simp

end Entries

/-! ### Orders as rankings -/

/-- A comparison in a direction. -/
def Direction.orient : Direction → Ordering → Ordering
  | .ascending, o => o
  | .descending, o => o.swap

namespace Order

variable {ρ : Type} {compare : String → ρ → ρ → Ordering}

/-- How an order ranks two rows, if they compare under each key as given: the first key that tells them apart
decides. -/
def rank (compare : String → ρ → ρ → Ordering) (r s : ρ) : Entries Direction → Ordering
  | [] => .eq
  | (key, d) :: rest => (d.orient (compare key r s)).then (rank compare r s rest)

theorem rank_append (r s : ρ) (order more : Entries Direction) :
    rank compare r s (order ++ more) = (rank compare r s order).then (rank compare r s more) := by
  induction order with
  | nil => rfl
  | cons e order ih => rw [List.cons_append, rank, ih, rank, Ordering.then_assoc]

/-- Where rows differ under one key only, its direction decides. -/
theorem rank_single (key : String) (order : Entries Direction) :
    rank (fun k (_ _ : Unit) => if k = key then .lt else .eq) () () order =
      ((Entries.get? key order).map fun d => d.orient .lt).getD .eq := by
  induction order with
  | nil => rfl
  | cons e order ih =>
    obtain ⟨k, d⟩ := e
    rw [rank, ih, Entries.get?]
    by_cases hk : k = key <;> cases d <;> simp [hk, Direction.orient]

/-- A ranking that keeps apart what another one does, in the same way, whatever the rows are. -/
def Refines (order finer : Entries Direction) : Prop :=
  ∀ {ρ : Type} (compare : String → ρ → ρ → Ordering) (r s : ρ), rank compare r s order ≠ .eq →
    rank compare r s finer = rank compare r s order

theorem refines_append (order more : Entries Direction) : Refines order (order ++ more) := by
  intro ρ compare r s hne
  rw [rank_append]
  cases h : rank compare r s order with
  | eq => exact absurd h hne
  | lt | gt => rfl

/-- A finer order has the keys of an order in the same directions. -/
theorem Refines.get? {order finer : Entries Direction} (h : Refines order finer) {key : String} {d : Direction}
    (hd : Entries.get? key order = some d) : Entries.get? key finer = some d := by
  have hrank := h (fun k (_ _ : Unit) => if k = key then .lt else .eq) () ()
  rw [rank_single, rank_single, hd] at hrank
  cases hf : Entries.get? key finer with
  | none =>
    rw [hf] at hrank
    cases d <;> simp [Direction.orient] at hrank
  | some d' =>
    rw [hf] at hrank
    cases d <;> cases d' <;> simp [Direction.orient] at hrank ⊢

/-- An order whose names among some get a direction stands at the beginning of what it becomes just if they had it. -/
theorem kept_iff (names : List String) (d : Direction) (order more : Entries Direction) :
    order <+: (order.map fun e => (e.1, if e.1 ∈ names then d else e.2)) ++ more ↔
      ∀ e ∈ order, e.1 ∈ names → e.2 = d := by
  have hassigned : order = (order.map fun e => (e.1, if e.1 ∈ names then d else e.2)) ↔
      ∀ e ∈ order, e = (e.1, if e.1 ∈ names then d else e.2) := by
    have hmaps := List.map_inj_left (l := order) (f := id) (g := fun e => (e.1, if e.1 ∈ names then d else e.2))
    rwa [List.map_id] at hmaps
  rw [List.prefix_iff_eq_take, List.take_append_of_le_length (by simp), List.take_of_length_le (by simp), hassigned]
  refine forall₂_congr ?_
  intro e _
  by_cases he : e.1 ∈ names <;> simp [he, Prod.ext_iff]

end Order

/-! ### Steps that extend an order -/

/-- The names by which fields are referred to one after the other. -/
def Field.names : List Field → Document → List String
  | [], _ => []
  | f :: fields, computed => (f.key computed).1 :: names fields (f.key computed).2

theorem Column.keys_names {columns : List Column} {computed computed' : Document} {names : List String}
    (h : Column.keys columns computed = .ok (names, computed')) :
    names = Field.names (columns.filterMap Column.field?) computed := by
  induction columns generalizing computed names with
  | nil =>
    cases h
    rfl
  | cons c columns ih =>
    obtain ⟨⟨name, computed₁⟩, hc, h⟩ := bind_eq_ok.1 h
    obtain ⟨⟨names', computed₂⟩, hrest, h⟩ := bind_eq_ok.1 h
    cases h
    cases c with
    | field f =>
      have hkey : f.key computed = (name, computed₁) := Except.ok.inj hc
      show _ = (f.key computed).1 :: Field.names (columns.filterMap Column.field?) (f.key computed).2
      rw [hkey, ← ih hrest]
    | constant label value => cases hc

namespace Builder

variable {b after : Builder} {steps : List Step}

theorem sortKeys_names {p : Projection} {d : Direction} {keys : List (String × Direction)} {computed : Document}
    (h : b.sortKeys p d = .ok (keys, computed)) :
    keys = (Field.names ((p.columns.toOption.getD []).filterMap Column.field?) b.query.computed).map (·, d) := by
  obtain ⟨columns, hp, h⟩ := bind_eq_ok.1 h
  rw [toOption_of_ok hp]
  split at h
  · cases h
  · obtain ⟨⟨names, computed'⟩, hk, h⟩ := bind_eq_ok.1 h
    cases h
    rw [Column.keys_names (mapError_eq_ok.1 hk)]
    rfl

/-- No name is twice in an order. -/
def OrderedOnce (b : Builder) : Prop := ∀ order, b.query.order = some order → (Entries.keys order).Nodup

theorem OrderedOnce.step {s : Step} (h : b.OrderedOnce) (hs : b.step s = .ok after) : after.OrderedOnce := by
  intro order ho
  cases takes_of_step hs with
  | orderBy hk =>
    cases ho
    exact Entries.nodup_keys_ofList _
  | thenBy hold hk =>
    cases ho
    rw [sortKeys_names hk]
    exact Entries.nodup_keys_insertAll _ (h _ hold)
  | insert | insertMany | update | delete => cases ho
  | _ => exact h order ho

theorem orderedOnce_of_run (h : Builder.run {} steps = .ok after) : after.OrderedOnce :=
  run_keeps OrderedOnce.step h (by simp [OrderedOnce])

end Builder

/-- In a step that extends an order, each name that the order has keeps its place, and its direction unless it is one of
the step's names; the step's other names follow in their order, in the direction of the step; and nothing else changes
but for the computed fields that they refer to. The old order stands at the beginning of the new one exactly if each of
its names that the step repeats has the direction of the step, and exactly if the new order refines it. -/
theorem order_refined_iff {steps : List Step} {b after : Builder} {order : Entries Direction} {d : Direction}
    {p : Projection} (hrun : Builder.run {} steps = .ok b) (ho : b.query.order = some order)
    (hs : b.step (.thenBy d p) = .ok after) :
    ∃ (names : List String) (longer : Entries Direction),
      names = Field.names (b.keyed (.thenBy d p)) b.query.computed ∧
      after = { b with query := { b.query with
        order := some longer, computed := Field.fileAll (b.keyed (.thenBy d p)) b.query.computed } } ∧
      (∀ (i : Nat) (hi : i < order.length),
        longer[i]? = some (order[i].1, if order[i].1 ∈ names then d else order[i].2)) ∧
      longer.drop order.length = (Entries.fresh names order).map (·, d) ∧
      (order <+: longer ↔ ∀ e ∈ order, e.1 ∈ names → e.2 = d) ∧
      (order <+: longer ↔ Order.Refines order longer) := by
  have hn := Builder.orderedOnce_of_run hrun order ho
  cases Builder.takes_of_step hs with
  | @thenBy _ _ order' keys computed ho' hk =>
    obtain rfl : order = order' := Option.some.inj (ho.symm.trans ho')
    have hcomputed := Builder.sortKeys_computed hk
    have hkeys := Builder.sortKeys_names hk
    generalize hnames :
      Field.names ((p.columns.toOption.getD []).filterMap Column.field?) b.query.computed = names at hkeys
    have hlonger : Entries.insertAll keys order = (order.map fun e => (e.1, if e.1 ∈ names then d else e.2)) ++
        (Entries.fresh names order).map (·, d) := by
      rw [hkeys]
      exact Entries.insertAll_names names d hn
    have hlength : (order.map fun e => (e.1, if e.1 ∈ names then d else e.2)).length = order.length := List.length_map _
    refine ⟨names, Entries.insertAll keys order, hnames.symm, by rw [hcomputed]; rfl, ?_, ?_, ?_, ?_⟩
    · intro i hi
      rw [hlonger, List.getElem?_append_left (hlength ▸ hi), List.getElem?_map, List.getElem?_eq_getElem hi]
      rfl
    · rw [hlonger, ← hlength, List.drop_left]
    · rw [hlonger]
      exact Order.kept_iff names d order _
    · constructor
      · rintro ⟨more, hmore⟩
        rw [← hmore]
        exact Order.refines_append order more
      · intro hfiner
        rw [hlonger]
        refine (Order.kept_iff names d order _).2 ?_
        intro e he hname
        -- the direction that decides between rows which differ under this name alone
        have hold : Entries.get? e.1 (Entries.insertAll keys order) = some e.2 :=
          hfiner.get? (Entries.get?_of_mem hn he)
        have hnew : (e.1, d) ∈ Entries.insertAll keys order := by
          rw [hlonger]
          exact List.mem_append_left _ (List.mem_map.2 ⟨e, he, by rw [if_pos hname]⟩)
        rw [Entries.get?_of_mem (Entries.nodup_keys_insertAll keys hn) hnew] at hold
        exact (Option.some.inj hold).symm

/-- A name that is repeated in its direction, and a computed field that is new. -/
theorem order_refined_iff_repeated :
    ∃ b after : Builder,
      Builder.run {} [.orderBy .ascending (.list [.one (.name "a"), .one (.name "b")])] = .ok b ∧
      b.query.order = some [("a", .ascending), ("b", .ascending)] ∧
      b.step (.thenBy .ascending (.list [.one (.name "b"), .one (.field ⟨.computed .floor [.ref "c"], none⟩)])) =
        .ok after ∧
      after.query.order = some [("a", .ascending), ("b", .ascending), ("floor1", .ascending)] ∧
      Order.Refines [("a", .ascending), ("b", .ascending)]
        [("a", .ascending), ("b", .ascending), ("floor1", .ascending)] := by
  have hrun : Builder.run {} [.orderBy .ascending (.list [.one (.name "a"), .one (.name "b")])] =
      .ok { query := { order := some [("a", .ascending), ("b", .ascending)] } } := rfl
  have hs : Builder.step { query := { order := some [("a", .ascending), ("b", .ascending)] } }
      (.thenBy .ascending (.list [.one (.name "b"), .one (.field ⟨.computed .floor [.ref "c"], none⟩)])) = .ok _ := rfl
  refine ⟨_, _, hrun, rfl, hs, rfl, ?_⟩
  obtain ⟨names, longer, -, hafter, -, -, -, hrefines⟩ := order_refined_iff hrun rfl hs
  obtain rfl := Option.some.inj (congrArg (fun b : Builder => b.query.order) hafter)
  exact hrefines.1 ⟨[("floor1", .ascending)], rfl⟩

/-- A name that is repeated in the other direction changes its direction. -/
theorem order_reversed :
    ∃ b after : Builder,
      Builder.run {} [.orderBy .ascending (.list [.one (.name "a"), .one (.name "b")])] = .ok b ∧
      b.query.order = some [("a", .ascending), ("b", .ascending)] ∧
      b.step (.thenBy .descending (.one (.name "a"))) = .ok after ∧
      after.query.order = some [("a", .descending), ("b", .ascending)] ∧
      ¬ Order.Refines [("a", .ascending), ("b", .ascending)] [("a", .descending), ("b", .ascending)] := by
  refine ⟨_, _, rfl, rfl, rfl, rfl, ?_⟩
  intro hrefines
  have hkept : Entries.get? "a" [("a", Direction.descending), ("b", .ascending)] = some .ascending :=
    hrefines.get? rfl
  cases hkept

end SqlQuery
