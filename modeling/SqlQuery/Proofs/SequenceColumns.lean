import Mathlib
import SqlQuery.Proofs.ClosureTrees
import SqlQuery.Proofs.EntryLookup
import SqlQuery.Proofs.FieldFragments
import SqlQuery.Proofs.InsertedRows
import SqlQuery.Proofs.MembersKept
import SqlQuery.Proofs.NestedTransforms

/-!
# The columns of a sequence

A sequence puts each of its items under a key: a member under its path, a call under the name of its method with the
item's place. Two calls never meet, but a member can have the very path that a call is given. The sequence keeps one
entry for each item just where that does not happen (`Expr.Clashless`), and a column is read for each entry that it
keeps (`sequence_columns_iff`).
-/

namespace SqlQuery

/-- No entry is lost just where no key stands twice. -/
theorem Entries.length_ofList_iff {α : Type} (list : List (String × α)) :
    (ofList list).length = list.length ↔ (keys list).Nodup := by
  constructor
  · intro h
    have hsubset : keys (ofList list) ⊆ keys list := by
      intro key hkey
      obtain ⟨entry, hentry, rfl⟩ := List.mem_map.1 hkey
      rcases mem_of_mem_insertAll hentry with hmem | hmem
      · exact List.mem_map_of_mem hmem
      · cases hmem
    have hlength : (keys list).length ≤ (keys (ofList list)).length := by
      rw [keys, keys, List.length_map, List.length_map, h]
    have hperm : (keys (ofList list)).Perm (keys list) :=
      (List.subperm_of_subset (nodup_keys_ofList list) hsubset).perm_of_length_le hlength
    exact hperm.nodup_iff.1 (nodup_keys_ofList list)
  · intro h
    rw [ofList_of_nodup h]

/-! ### Entries of items -/

namespace Expr

/-- The entry of an item in its place. -/
inductive Entered : Expr × Nat → String × Value → Prop where
  | member (path : String) (place : Nat) : Entered (.member path, place) (path, .int 1)
  | call {name : String} {args : List Expr} {value : Value} (place : Nat)
    (h : (Expr.call name args).render = .ok value) :
    Entered (.call name args, place) (shortName name ++ Decimal.natText place, value)

/-- No member has the path that a call is given as its key. -/
def Clashless (items : List Expr) : Prop :=
  ∀ (path name : String) (args : List Expr) (place : Nat), .member path ∈ items →
    (.call name args, place) ∈ items.zipIdx → path ≠ shortName name ++ Decimal.natText place

/-- The items of a sequence that has a document are members and calls. -/
theorem forall₂_entered {items : List Expr} {place : Nat} {entries : List (String × Value)}
    (h : renderItems place items = .ok entries) : List.Forall₂ Entered (items.zipIdx place) entries := by
  induction items generalizing place entries with
  | nil =>
    rw [renderItems] at h
    cases h
    exact .nil
  | cons e items ih =>
    rw [renderItems] at h
    obtain ⟨key, hkey, h⟩ := bind_eq_ok.1 h
    obtain ⟨value, hvalue, h⟩ := bind_eq_ok.1 h
    obtain ⟨rest, hrest, h⟩ := bind_eq_ok.1 h
    cases h
    rw [List.zipIdx_cons]
    refine .cons ?_ (ih hrest)
    cases e with
    | member path =>
      cases hkey
      cases hvalue
      exact .member _ place
    | call name args =>
      cases hkey
      exact .call place hvalue
    | _ => cases hkey

theorem entries_of_render {items : List Expr} {doc : Document} (h : (Expr.sequence items).render = .ok (.object doc)) :
    ∃ entries, List.Forall₂ Entered items.zipIdx entries ∧ Entries.ofList entries = doc := by
  rw [render] at h
  obtain ⟨entries, hentries, h⟩ := bind_eq_ok.1 h
  cases h
  exact ⟨entries, forall₂_entered hentries, rfl⟩

theorem keys_eq {placed : List (Expr × Nat)} {entries : List (String × Value)}
    (h : List.Forall₂ Entered placed entries) :
    Entries.keys entries = placed.map fun item => itemKey item.2 item.1 := by
  induction h with
  | nil => rfl
  | cons hentry _ ih =>
    rw [Entries.keys, List.map_cons, List.map_cons, ← ih, ← Entries.keys]
    cases hentry <;> rfl

/-! ### Keys that meet -/

/-- The items of a closure's sequence: members, and calls of methods. -/
inductive IsItem : Expr → Prop where
  | member (path : String) : IsItem (.member path)
  | call (m : Method) (args : List Expr) : IsItem (.call m.name args)

/-- The calls of a closure are of methods. -/
theorem isItem_of_translate {c : Closure} {items : List Expr} {entries : List (String × Value)}
    (h : c.translate = .ok (.sequence items)) (he : List.Forall₂ Entered items.zipIdx entries) :
    ∀ item ∈ items.zipIdx, IsItem item.1 := by
  have hgrammatical : ∀ e ∈ items, Closure.Grammatical c.collections e := by
    cases Closure.grammatical_of_translate h with
    | sequence hi => exact hi
  suffices hitem : ∀ item ∈ items.zipIdx, item.1 ∈ items → IsItem item.1 from
    fun item hmem => hitem item hmem (List.fst_mem_of_mem_zipIdx hmem)
  refine Sql.forall_mem_of_forall₂ he.flip fun entry _ item hentry hmem => ?_
  cases hentry with
  | member path => exact .member path
  | call =>
    cases hgrammatical _ hmem with
    | call => exact .call _ _

theorem shortName_method (m : Method) : shortName m.name = m.name := by cases m <;> decide

/-- Places tell calls apart, so that the keys are distinct just where no member meets a call. -/
theorem nodup_keys_iff {items : List Expr} (hd : items.Nodup) (hi : ∀ item ∈ items.zipIdx, IsItem item.1) :
    (items.zipIdx.map fun item => itemKey item.2 item.1).Nodup ↔ Clashless items := by
  have hfst : items.zipIdx.map Prod.fst = items := List.zipIdx_map_fst 0 items
  have hplaced : items.zipIdx.Nodup := .of_map Prod.fst (hfst.symm ▸ hd)
  have hsame : ∀ x ∈ items.zipIdx, ∀ y ∈ items.zipIdx, x.1 = y.1 → x = y :=
    (List.nodup_map_iff_inj_on hplaced).1 (hfst.symm ▸ hd)
  rw [List.nodup_map_iff_inj_on hplaced]
  constructor
  · intro h path name args place hmember hcall hkey
    obtain ⟨place', hplace'⟩ := List.mem_iff_getElem?.1 hmember
    cases h (.member path, place') (List.mk_mem_zipIdx_iff_getElem?.2 hplace') _ hcall hkey
  · rintro h ⟨e, i⟩ hx ⟨e', j⟩ hy hkey
    cases hi _ hx with
    | member path =>
      cases hi _ hy with
      | member path' => exact hsame _ hx _ hy (congrArg Expr.member hkey)
      | call m args => exact absurd hkey (h path _ args j (List.fst_mem_of_mem_zipIdx hx) hy)
    | call m args =>
      cases hi _ hy with
      | member path => exact absurd hkey.symm (h path _ args i (List.fst_mem_of_mem_zipIdx hy) hx)
      | call m' args' =>
        -- no method has a digit in its name, so that the places are the same
        have hnames : m.name ++ Decimal.natText i = m'.name ++ Decimal.natText j := by
          rw [← shortName_method m, ← shortName_method m']
          exact hkey
        obtain rfl := minted_inj hnames
        rw [List.mk_mem_zipIdx_iff_getElem?] at hx hy
        exact congrArg (·, i) (Option.some.inj (hx.symm.trans hy))

end Expr

/-! ### Columns of entries -/

theorem Term.exists_ofOperator (m : Method) (args : Value) : ∃ term, ofOperator m.key args = .ok term := by
  rw [ofOperator, Predicate.ofKey?_key]
  cases args <;> exact ⟨_, rfl⟩

namespace Column

theorem ofDocument_eq_mapM (doc : Document) : ofDocument doc = doc.mapM fun entry => ofEntry entry.1 entry.2 := by
  induction doc with
  | nil => rfl
  | cons entry doc ih => rw [ofDocument, List.mapM_cons, ih]

theorem exists_method_of_ofEntry {key : String} {value : Value} {column : Column} (hk : isOperatorKey key = true)
    (h : ofEntry key value = .ok column) : ∃ m : Method, key = m.key := by
  rw [ofEntry_operator hk, Term.ofOperator] at h
  cases hm : Method.ofKey? key with
  | none =>
    rw [hm] at h
    cases h
  | some m =>
    obtain rfl : m.key = key := by simpa using List.find?_some hm
    exact ⟨m, rfl⟩

end Column

/-- The entry of an item is a column, unless a member's path is taken for an operator. -/
theorem Expr.Entered.exists_column {item : Expr × Nat} {entry : String × Value} (h : Entered item entry)
    (hi : IsItem item.1) (hp : ∀ path, item.1 = .member path → isOperatorKey path = true → ∃ m : Method, path = m.key) :
    ∃ column, Column.ofEntry entry.1 entry.2 = .ok column := by
  cases h with
  | member path place =>
    cases hk : isOperatorKey path with
    | false => exact ⟨.field (Field.ofName path), by rw [Column.ofEntry, hk]; rfl⟩
    | true =>
      obtain ⟨m, rfl⟩ := hp path rfl hk
      obtain ⟨term, hterm⟩ := Term.exists_ofOperator m (.int 1)
      exact ⟨.field { term }, by rw [Column.ofEntry_operator hk, hterm]; rfl⟩
  | @call name args value place hvalue =>
    cases hi with
    | call m =>
      rw [Expr.render] at hvalue
      obtain ⟨values, -, hvalue⟩ := bind_eq_ok.1 hvalue
      split at hvalue
      · cases hvalue
      · cases hvalue
        have hlabel : isOperatorKey (m.name ++ Decimal.natText place) = false :=
          IsMinted.isOperatorKey_eq_false ⟨m, place, rfl⟩
        obtain ⟨term, hterm⟩ := Term.exists_ofOperator m (argumentValue values)
        have hread := Column.ofEntry_labelled hlabel m.isOperatorKey_key (argumentValue values)
        rw [hterm] at hread
        refine ⟨.field { term, label := some (m.name ++ Decimal.natText place) }, ?_⟩
        rw [shortName_method]
        exact hread

theorem Expr.exists_columns_iff {items : List Expr} {entries : List (String × Value)}
    (h : List.Forall₂ Entered items.zipIdx entries) (hi : ∀ item ∈ items.zipIdx, IsItem item.1) :
    (∃ columns, Column.ofDocument (Entries.ofList entries) = .ok columns) ↔
      ∀ path, .member path ∈ items → isOperatorKey path = true → ∃ m : Method, path = m.key := by
  simp only [Column.ofDocument_eq_mapM, Sql.exists_mapM_iff]
  constructor
  · intro hcolumns path hmember hk
    obtain ⟨place, hplace⟩ := List.mem_iff_getElem?.1 hmember
    have hkey : path ∈ Entries.keys entries := by
      rw [keys_eq h]
      exact List.mem_map.2 ⟨(.member path, place), List.mk_mem_zipIdx_iff_getElem?.2 hplace, rfl⟩
    -- a call may have taken the member's place, but not its key
    obtain ⟨value, hvalue⟩ := Entries.exists_mem_ofList hkey
    obtain ⟨column, hcolumn⟩ := hcolumns (path, value) hvalue
    exact Column.exists_method_of_ofEntry hk hcolumn
  · intro hpaths entry hmem
    have hread : ∀ entry ∈ entries, ∃ column, Column.ofEntry entry.1 entry.2 = .ok column :=
      Sql.forall_mem_of_forall₂ h fun item hitem entry hentry =>
        hentry.exists_column (hi item hitem) fun path hpath => hpaths path (hpath ▸ List.fst_mem_of_mem_zipIdx hitem)
    rcases Entries.mem_of_mem_insertAll hmem with hmem | hmem
    · exact hread entry hmem
    · cases hmem

/-- What becomes of the items of a closure's sequence that are pairwise different. The document has an entry for each of
them just where no member has the path that a call is given, and then the entries are those of the items, in order.
There are columns unless a member's path is taken for an operator that is no method, and one for each entry. -/
theorem sequence_columns_iff (c : Closure) (items : List Expr) (doc : Document)
    (ht : c.translate = .ok (.sequence items)) (hd : items.Nodup)
    (hr : (Expr.sequence items).render = .ok (.object doc)) :
    (doc.length = items.length ↔ Expr.Clashless items) ∧
    (List.Forall₂ Expr.Entered items.zipIdx doc ↔ Expr.Clashless items) ∧
    ((∃ columns, Column.ofClosure c = .ok columns) ↔
      ∀ path, .member path ∈ items → isOperatorKey path = true → ∃ m : Method, path = m.key) ∧
    ∀ columns, Column.ofClosure c = .ok columns → columns.length = doc.length := by
  have hcolumns : Column.ofClosure c = (Column.ofDocument doc).mapError .field := Column.ofClosure_of_render ht hr
  obtain ⟨entries, hentered, rfl⟩ := Expr.entries_of_render hr
  have hitems : ∀ item ∈ items.zipIdx, Expr.IsItem item.1 := Expr.isItem_of_translate ht hentered
  have hkeys : (Entries.keys entries).Nodup ↔ Expr.Clashless items :=
    (Expr.keys_eq hentered).symm ▸ Expr.nodup_keys_iff hd hitems
  have hlength : items.length = entries.length := by simpa using hentered.length_eq
  have hdoc : (Entries.ofList entries).length = items.length ↔ Expr.Clashless items := by
    rw [hlength, Entries.length_ofList_iff, hkeys]
  refine ⟨hdoc, ⟨fun h => hdoc.1 ?_, fun h => ?_⟩, ?_, ?_⟩
  · simpa using h.length_eq.symm
  · rw [Entries.ofList_of_nodup (hkeys.2 h)]
    exact hentered
  · simp only [hcolumns, mapError_eq_ok]
    exact Expr.exists_columns_iff hentered hitems
  · intro columns h
    rw [hcolumns, mapError_eq_ok, Column.ofDocument_eq_mapM] at h
    exact (Sql.forall₂_mapM h).length_eq.symm

/-- A member that has the path of a call in another place, and a method that is called twice. -/
theorem sequence_columns_iff_nearby :
    ∃ items doc columns, Closure.translate ⟨"|x| \x7b x.floor1, x.id, floor(x.price), floor(x.cost) \x7d", []⟩ =
        .ok (.sequence items) ∧ items.Nodup ∧ (Expr.sequence items).render = .ok (.object doc) ∧
      List.Forall₂ Expr.Entered items.zipIdx doc ∧
      Column.ofClosure ⟨"|x| \x7b x.floor1, x.id, floor(x.price), floor(x.cost) \x7d", []⟩ = .ok columns ∧
      columns.length = 4 := by
  have ht : Closure.translate ⟨"|x| \x7b x.floor1, x.id, floor(x.price), floor(x.cost) \x7d", []⟩ =
      .ok (.sequence [.member "floor1", .member "id", .call "floor" [.member "price"],
        .call "floor" [.member "cost"]]) := by
    with_unfolding_all rfl
  have hd : [Expr.member "floor1", .member "id", .call "floor" [.member "price"],
      .call "floor" [.member "cost"]].Nodup := by
    simp
  obtain ⟨hlength, hentered, hcolumns, hcount⟩ := sequence_columns_iff _ _
    [("floor1", .int 1), ("id", .int 1), ("floor2", .entry "$floor" (.ref "price")),
      ("floor3", .entry "$floor" (.ref "cost"))] ht hd rfl
  obtain ⟨columns, h⟩ := hcolumns.2 (by
    intro path hpath hk
    obtain rfl | rfl : path = "floor1" ∨ path = "id" := by simpa using hpath
    · exact absurd hk (by decide)
    · exact absurd hk (by decide))
  exact ⟨_, _, columns, ht, hd, rfl, hentered.2 (hlength.1 rfl), h, hcount columns h⟩

/-- A call takes the place of a member that has the path it is given. -/
theorem call_replaces_member :
    ∃ items doc columns, Closure.translate ⟨"|x| \x7b x.floor1, floor(x.price) \x7d", []⟩ = .ok (.sequence items) ∧
      items.Nodup ∧ items.length = 2 ∧ (Expr.sequence items).render = .ok (.object doc) ∧
      doc = [("floor1", .entry "$floor" (.ref "price"))] ∧
      Column.ofClosure ⟨"|x| \x7b x.floor1, floor(x.price) \x7d", []⟩ = .ok columns ∧ columns.length = 1 := by
  have ht : Closure.translate ⟨"|x| \x7b x.floor1, floor(x.price) \x7d", []⟩ =
      .ok (.sequence [.member "floor1", .call "floor" [.member "price"]]) := by
    with_unfolding_all rfl
  exact ⟨_, _, _, ht, by simp, rfl, rfl, rfl, Column.ofClosure_of_render ht rfl, rfl⟩

end SqlQuery
