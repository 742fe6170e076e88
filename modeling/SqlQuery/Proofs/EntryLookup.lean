import SqlQuery.Entries

/-!
# Entries that are put in and found

What is under a key after a value has been put under it or under another one, and which entries there are then. Where no
key stands twice, finding a value under a key and having the entry are one (`get?_of_mem`, `mem_of_get?`).
-/

namespace SqlQuery.Entries

variable {α : Type} {key other : String} {value : α} {entries : Entries α}

/-! ### Values under keys -/

theorem get?_insert_self : get? key (insert key value entries) = some value := by
  induction entries with
  | nil => simp [insert, get?]
  | cons entry rest ih =>
    rw [insert]
    split
    · next h => simp [get?, h]
    · next h => simp [get?, h, ih]

theorem get?_insert_of_ne (h : key ≠ other) : get? other (insert key value entries) = get? other entries := by
  induction entries with
  | nil => simp [insert, get?, h]
  | cons entry rest ih =>
    rw [insert]
    split
    · next hk => simp [get?, hk, h]
    · simp [get?, ih]

theorem mem_of_get? (h : get? key entries = some value) : (key, value) ∈ entries := by
  induction entries with
  | nil => cases h
  | cons entry rest ih =>
    rw [get?] at h
    split at h
    · next hk =>
      cases h
      rw [← hk]
      exact List.mem_cons_self
    · exact List.mem_cons_of_mem _ (ih h)

theorem mem_keys_of_get? (h : get? key entries = some value) : key ∈ keys entries :=
  List.mem_map_of_mem (mem_of_get? h)

theorem get?_eq_none_iff : get? key entries = none ↔ key ∉ keys entries := by
  induction entries with
  | nil => simp [get?, keys]
  | cons entry rest ih =>
    rw [get?, keys, List.map_cons, List.mem_cons, not_or, ← keys, ← ih]
    by_cases hk : entry.1 = key
    · simp [hk]
    · simp [hk, Ne.symm hk]

theorem get?_insertAll_of_not_mem {list : List (String × α)} {start : Entries α} (h : key ∉ list.map Prod.fst) :
    get? key (insertAll list start) = get? key start := by
  induction list generalizing start with
  | nil => rfl
  | cons entry rest ih =>
    rw [List.map_cons, List.mem_cons, not_or] at h
    have hrest : get? key (insertAll rest (insert entry.1 entry.2 start)) = _ := ih h.2
    exact hrest.trans (get?_insert_of_ne fun heq => h.1 heq.symm)

/-! ### The entries there are -/

/-- A new key goes to the end. -/
theorem insert_of_get?_eq_none (value : α) (h : get? key entries = none) :
    insert key value entries = entries ++ [(key, value)] := by
  induction entries with
  | nil => rfl
  | cons entry rest ih =>
    rw [get?] at h
    rw [insert]
    split
    · next hk => simp [hk] at h
    · next hk =>
      rw [if_neg hk] at h
      rw [ih h, List.cons_append]

theorem length_le_insert : entries.length ≤ (insert key value entries).length := by
  induction entries with
  | nil => simp
  | cons entry rest ih =>
    rw [insert]
    split
    · simp
    · simpa using ih

theorem mem_of_mem_insert {e : String × α} (h : e ∈ insert key value entries) : e = (key, value) ∨ e ∈ entries := by
  induction entries with
  | nil => exact .inl (List.mem_singleton.1 h)
  | cons f rest ih =>
    rw [insert] at h
    split at h
    · next hk =>
      rcases List.mem_cons.1 h with h | h
      · exact .inl (h.trans (by rw [hk]))
      · exact .inr (List.mem_cons_of_mem _ h)
    · rcases List.mem_cons.1 h with h | h
      · exact .inr (h ▸ List.mem_cons_self ..)
      · rcases ih h with h | h
        · exact .inl h
        · exact .inr (List.mem_cons_of_mem _ h)

theorem mem_of_mem_insertAll {list : List (String × α)} {start : Entries α} {e : String × α}
    (h : e ∈ insertAll list start) : e ∈ list ∨ e ∈ start := by
  induction list generalizing start with
  | nil => exact .inr h
  | cons f list ih =>
    rcases ih h with h | h
    · exact .inl (List.mem_cons_of_mem _ h)
    · rcases mem_of_mem_insert h with h | h
      · exact .inl (h ▸ List.mem_cons_self ..)
      · exact .inr h

theorem mem_ofList {front back : List (String × α)} (h : key ∉ back.map Prod.fst) :
    (key, value) ∈ ofList (front ++ (key, value) :: back) := by
  have hsplit : ofList (front ++ (key, value) :: back) = insertAll back (insert key value (insertAll front [])) := by
    rw [ofList, insertAll, List.foldl_append]
    rfl
  rw [hsplit]
  refine mem_of_get? ?_
  rw [get?_insertAll_of_not_mem h, get?_insert_self]

theorem exists_mem_ofList {list : List (String × α)} (h : key ∈ list.map Prod.fst) :
    ∃ value, (key, value) ∈ ofList list := by
  suffices hsome : ∀ start : Entries α, key ∈ list.map Prod.fst ∨ (get? key start).isSome = true →
      (get? key (insertAll list start)).isSome = true by
    obtain ⟨value, hvalue⟩ := Option.isSome_iff_exists.1 (hsome [] (.inl h))
    exact ⟨value, mem_of_get? hvalue⟩
  clear h
  induction list with
  | nil =>
    rintro start (h | h)
    · cases h
    · exact h
  | cons entry rest ih =>
    intro start h
    refine ih (insert entry.1 entry.2 start) ?_
    by_cases hk : entry.1 = key
    · rw [← hk, get?_insert_self]
      exact .inr rfl
    · rw [get?_insert_of_ne hk]
      rw [List.map_cons, List.mem_cons] at h
      rcases h with (h | h) | h
      · exact absurd h.symm hk
      · exact .inl h
      · exact .inr h

/-! ### Keys that stand once -/

theorem mem_keys_of_mem_keys_insert (h : other ∈ keys (insert key value entries)) : other = key ∨ other ∈ keys entries := by
  obtain ⟨e, he, rfl⟩ := List.mem_map.1 h
  rcases mem_of_mem_insert he with rfl | he
  · exact .inl rfl
  · exact .inr (List.mem_map_of_mem he)

theorem nodup_keys_insert (h : (keys entries).Nodup) : (keys (insert key value entries)).Nodup := by
  induction entries with
  | nil => simp [insert, keys]
  | cons entry rest ih =>
    obtain ⟨hnew, hrest⟩ := List.nodup_cons.1 h
    rw [insert]
    split
    · exact h
    · next hk =>
      refine List.nodup_cons.2 ⟨fun hmem => ?_, ih hrest⟩
      rcases mem_keys_of_mem_keys_insert hmem with heq | hmem
      · exact hk heq
      · exact hnew hmem

theorem get?_of_mem (hn : (keys entries).Nodup) (h : (key, value) ∈ entries) : get? key entries = some value := by
  induction entries with
  | nil => cases h
  | cons entry rest ih =>
    obtain ⟨hnew, hrest⟩ := List.nodup_cons.1 hn
    rw [get?]
    rcases List.mem_cons.1 h with rfl | h
    · simp
    · have hk : entry.1 ≠ key := fun hk => hnew (hk ▸ List.mem_map_of_mem h)
      rw [if_neg hk]
      exact ih hrest h

theorem nodup_keys_insertAll (list : List (String × α)) (h : (keys entries).Nodup) :
    (keys (insertAll list entries)).Nodup := by
  induction list generalizing entries with
  | nil => exact h
  | cons entry rest ih => exact ih (nodup_keys_insert h)

theorem nodup_keys_ofList (list : List (String × α)) : (keys (ofList list)).Nodup :=
  nodup_keys_insertAll list .nil

/-- Keys that stand once stay in their places. -/
theorem insertAll_of_nodup {list : List (String × α)} {start : Entries α} (h : (keys (start ++ list)).Nodup) :
    insertAll list start = start ++ list := by
  induction list generalizing start with
  | nil => rw [List.append_nil]; rfl
  | cons entry rest ih =>
    have hnew : get? entry.1 start = none := by
      rw [get?_eq_none_iff]
      rw [keys, List.map_append, List.nodup_append] at h
      exact fun hmem => h.2.2 _ hmem _ List.mem_cons_self rfl
    have hinsert : insertAll (entry :: rest) start = insertAll rest (start ++ [entry]) :=
      congrArg (insertAll rest) (insert_of_get?_eq_none entry.2 hnew)
    have happend : start ++ entry :: rest = start ++ [entry] ++ rest := by simp
    rw [hinsert, happend]
    exact ih (happend ▸ h)

theorem ofList_of_nodup {list : List (String × α)} (h : (keys list).Nodup) : ofList list = list :=
  insertAll_of_nodup h

end SqlQuery.Entries
