import Mathlib
import SqlQuery.Proofs.ConditionReading
import SqlQuery.Proofs.ExpressionStructure

/-!
# Strings and the structure of filters

Similar filters compile to alike SQL, or neither compiles. So what a string holds never moves a quote, a
parenthesis or an operator of the SQL it is put into.
-/

namespace SqlQuery.Sql

/-- The conditions are written alike. -/
def AlikeText (d : Dialect) (c c' : Condition) : Prop := Alike d c.text c'.text

namespace AlikeText

variable {d : Dialect} {c c' : Condition} {cs cs' : List Condition}

theorem leaf {s t : String} (h : Alike d s t) : AlikeText d (.leaf s) (.leaf t) := by
  unfold AlikeText
  rwa [Condition.text_leaf, Condition.text_leaf]

theorem group (h : AlikeText d c c') : AlikeText d (.group c) (.group c') := by
  unfold AlikeText
  rw [Condition.text_group, Condition.text_group]
  exact (Alike.between h (by decide) (by decide)).alike

theorem negation (h : AlikeText d c c') : AlikeText d (.negation c) (.negation c') := by
  unfold AlikeText
  rw [Condition.text_negation, Condition.text_negation]
  exact (Alike.between h (by decide) (by decide)).alike

theorem chain (op : Connective) (h : List.Forall₂ (AlikeText d) cs cs') :
    AlikeText d (.chain op cs) (.chain op cs') := by
  unfold AlikeText
  rw [Condition.text_chain, Condition.text_chain]
  have htexts : List.Forall₂ (Alike d) (cs.map Condition.text) (cs'.map Condition.text) :=
    List.forall₂_map_left_iff.2 (List.forall₂_map_right_iff.2 h)
  exact .joinWith htexts (by cases op <;> decide)

theorem groups (h : List.Forall₂ (AlikeText d) cs cs') :
    List.Forall₂ (AlikeText d) (cs.map Condition.group) (cs'.map Condition.group) :=
  List.forall₂_map_left_iff.2 (List.forall₂_map_right_iff.2 (h.imp fun _ _ hc => hc.group))

end AlikeText

/-! ### Fields -/

section Fields

variable {f : Formatter} {column : String}

/-- The text that is searched for is the same. -/
theorem get?_search_eq {xs ys : List (String × Value)} (h : SimilarEntries xs ys) :
    Entries.get? "$search" xs = Entries.get? "$search" ys := by
  induction xs generalizing ys with
  | nil =>
    cases h
    rfl
  | cons entry xs ih =>
    cases h with
    | cons _ hp _ hs =>
      rw [Entries.get?, Entries.get?]
      split
      · next hk => rw [hp.pattern (.inr hk)]
      · exact ih hs

theorem document?_search_eq {a b : Value} (h : Similar a b) :
    a.document?.bind (Entries.get? "$search") = b.document?.bind (Entries.get? "$search") := by
  cases h with
  | object h => exact get?_search_eq h
  | _ => rfl

theorem agree_fieldOperator (hf : f.style.nameFormat = "$1") {key : String} {a b : Value}
    {condition condition' : String → Except FormatError Condition} (hc : Alike f.dialect column column)
    (hp : SamePattern key a b) (h : Similar a b)
    (hcondition : ∀ {column}, Alike f.dialect column column →
      Agree (AlikeText f.dialect) (condition column) (condition' column)) :
    Agree (AlikeText f.dialect) (f.fieldOperator f.plainScope column key a condition)
      (f.fieldOperator f.plainScope column key b condition') := by
  have hlike : ∀ p : LikePattern, AlikeText f.dialect (.leaf (column ++ " LIKE " ++ p.operand f.dialect))
      (.leaf (column ++ " LIKE " ++ p.operand f.dialect)) := fun p =>
    .leaf ((hc.append_plain (by decide)).append (alike_operand p f.dialect))
  unfold Formatter.fieldOperator
  split
  · exact (hcondition hc).bind fun hx => hx.negation
  · split
    · exact (agreeOn hf a h).value.bind fun hx => .leaf (alike_in key hc hx)
    · split
      · next hk =>
        obtain rfl := hp.pattern (.inl hk)
        cases a with
        | string pattern => exact hlike _
        | _ => trivial
      · split
        · rw [document?_search_eq h]
          split
          · exact hlike _
          · trivial
        · cases hsymbol : Formatter.comparisonSymbols.lookup key with
          | some symbol =>
            exact (agreeOn hf a h).value.bind fun hx => .leaf (alike_comparison hsymbol hc h hx)
          | none =>
            cases hmethod : Method.ofKey? key with
            | none => trivial
            | some m =>
              have hwrapped := rel_unaryCall? m hc
              simp only [Option.bind_some]
              cases hcall : f.unaryCall? m column with
              | none => trivial
              | some wrapped =>
                rw [hcall] at hwrapped
                cases hwrapped with
                | some hx => exact hcondition hx

theorem agree_equality {x y : Except FormatError String} (hc : Alike f.dialect column column)
    (h : Agree (Alike f.dialect) x y) :
    Agree (AlikeText f.dialect) (do let right ← x; return .leaf (column ++ "=" ++ right))
      (do let right ← y; return .leaf (column ++ "=" ++ right)) :=
  h.bind fun hx => .leaf ((hc.append_plain (by decide)).append hx)

mutual

theorem agree_fieldCondition (hf : f.style.nameFormat = "$1") : (v : Value) → {w : Value} → Similar v w →
    {column : String} → Alike f.dialect column column →
    Agree (AlikeText f.dialect) (f.fieldCondition f.plainScope column v) (f.fieldCondition f.plainScope column w)
  | .null, _, .null, _, hc => AlikeText.leaf (hc.append_plain (by decide)).alike
  | .array items, _, .array h, _, hc => (agreeOn hf _ (.array h)).value.bind fun hs =>
    .leaf ((hc.append_plain (by decide)).append hs |>.append_plain (by decide)).alike
  | .object entries, _, .object h, _, hc => (agree_fieldOperators hf entries h hc).bind fun hs => by
    cases hs with
    | nil => trivial
    | cons hx hxs => exact AlikeText.chain .and (.cons hx hxs)
  | .bool b, _, .bool _, _, hc => agree_equality hc (agreeOn hf _ (.bool b)).value
  | .int n, _, .int _, _, hc => agree_equality hc (agreeOn hf _ (.int n)).value
  | .float x, _, .float _, _, hc => agree_equality hc (agreeOn hf _ (.float x)).value
  | .string s, _, .string _ t, _, hc => agree_equality hc (agreeOn hf _ (.string s t)).value
  | .date t, _, .date _, _, hc => agree_equality hc (agreeOn hf _ (.date t)).value
  | .ref path, _, .ref h, _, hc => agree_equality hc (agreeOn hf _ (.ref h)).value

theorem agree_fieldOperators (hf : f.style.nameFormat = "$1") : (xs : List (String × Value)) →
    {ys : List (String × Value)} → SimilarEntries xs ys → {column : String} → Alike f.dialect column column →
    Agree (List.Forall₂ (AlikeText f.dialect)) (f.fieldOperators f.plainScope column xs)
      (f.fieldOperators f.plainScope column ys)
  | [], _, .nil, _, _ => .nil
  | (key, a) :: xs, _, .cons _ hp h hs, _, hc => by
    rw [Formatter.fieldOperators, Formatter.fieldOperators]
    split
    · exact agree_fieldOperators hf xs hs hc
    · exact (agree_fieldOperator hf hc hp h fun hc => agree_fieldCondition hf a h hc).bind fun hx =>
        (agree_fieldOperators hf xs hs hc).bind fun hxs => .cons hx hxs

end

end Fields

/-! ### Filters -/

section Filters

variable {f : Formatter}

theorem agree_conjunction {v w : Value} {cs cs' : List Condition} (h : List.Forall₂ (AlikeText f.dialect) cs cs') :
    Agree (AlikeText f.dialect) (Formatter.conjunction v cs) (Formatter.conjunction w cs') := by
  rcases h with _ | ⟨hx, _ | ⟨hy, hs⟩⟩
  · trivial
  · exact hx
  · exact AlikeText.chain .and (AlikeText.groups (.cons hx (.cons hy hs)))

theorem agree_filterEntry (hf : f.style.nameFormat = "$1") {key : String} {a b : Value}
    {group group' : Unit → Except FormatError (List Condition)} (hk : '\x27' ∉ key.toList)
    (hp : SamePattern key a b) (h : Similar a b)
    (hgroup : Agree (List.Forall₂ (AlikeText f.dialect)) (group ()) (group' ())) :
    Agree (AlikeText f.dialect) (f.filterEntry f.plainScope key a group)
      (f.filterEntry f.plainScope key b group') := by
  unfold Formatter.filterEntry
  split
  · exact hgroup.bind fun hs => .chain .and (AlikeText.groups hs)
  · split
    · exact hgroup.bind fun hs => .chain .or (AlikeText.groups hs)
    · split
      · exact hgroup.bind fun hs => (AlikeText.chain .and (AlikeText.groups hs)).negation
      · split
        · exact hgroup.bind fun hs => (AlikeText.chain .or (AlikeText.groups hs)).negation
        · split
          · exact (agree_entry hp h (agreeOn hf a h)).bind fun hx => .leaf hx
          · show Agree _ (f.fieldCondition f.plainScope (f.style.name key) a)
              (f.fieldCondition f.plainScope (f.style.name key) b)
            rw [name_default hf]
            exact agree_fieldCondition hf a h (Sealed.of_not_mem hk).alike

mutual

theorem agree_filterIn (hf : f.style.nameFormat = "$1") : (v : Value) → {w : Value} → Similar v w →
    Agree (AlikeText f.dialect) (f.filterIn f.plainScope v) (f.filterIn f.plainScope w)
  | .object entries, _, .object h => (agree_filterEntries hf entries h).bind fun hs => agree_conjunction hs
  | .null, _, .null | .bool _, _, .bool _ | .int _, _, .int _ | .float _, _, .float _ | .string _, _, .string _ _
  | .date _, _, .date _ | .ref _, _, .ref _ | .array _, _, .array _ => trivial

theorem agree_filterEntries (hf : f.style.nameFormat = "$1") : (xs : List (String × Value)) →
    {ys : List (String × Value)} → SimilarEntries xs ys →
    Agree (List.Forall₂ (AlikeText f.dialect)) (f.filterEntries f.plainScope xs) (f.filterEntries f.plainScope ys)
  | [], _, .nil => .nil
  | (key, a) :: xs, _, .cons hk hp h hs =>
    (agree_filterEntry hf hk hp h (agree_filterGroup hf key a h)).bind fun hx =>
      (agree_filterEntries hf xs hs).bind fun hxs => .cons hx hxs

theorem agree_filterGroup (hf : f.style.nameFormat = "$1") (key : String) : (v : Value) → {w : Value} →
    Similar v w →
    Agree (List.Forall₂ (AlikeText f.dialect)) (f.filterGroup f.plainScope key v)
      (f.filterGroup f.plainScope key w)
  | .array [], _, .array .nil => trivial
  | .array (a :: xs), _, .array (.cons h hs) => agree_filterItems hf (a :: xs) (.cons h hs)
  | .object entries, _, .object h => (agree_filterEntries hf entries h).bind fun hs =>
    (agree_conjunction hs).bind fun hx => .cons hx .nil
  | .null, _, .null | .bool _, _, .bool _ | .int _, _, .int _ | .float _, _, .float _ | .string _, _, .string _ _
  | .date _, _, .date _ | .ref _, _, .ref _ => trivial

theorem agree_filterItems (hf : f.style.nameFormat = "$1") : (xs : List Value) → {ys : List Value} →
    SimilarItems xs ys →
    Agree (List.Forall₂ (AlikeText f.dialect)) (f.filterItems f.plainScope xs) (f.filterItems f.plainScope ys)
  | [], _, .nil => .nil
  | a :: xs, _, .cons h hs =>
    (agree_filterIn hf a h).bind fun hx => (agree_filterItems hf xs hs).bind fun hxs => .cons hx hxs

end

/-- Filters that differ only in the texts of their strings both have SQL or both have none, and their SQL is the
same with a mark in the place of each literal. -/
theorem alike_filter_of_similar {v w : Value} (hf : f.style.nameFormat = "$1") (h : Similar v w) :
    ((∃ sql, f.filter v = .ok sql) ↔ ∃ sql, f.filter w = .ok sql) ∧
      ∀ s t, f.filter v = .ok s → f.filter w = .ok t → Alike f.dialect s t := by
  have hagree : Agree (Alike f.dialect) (f.filter v) (f.filter w) :=
    (agree_filterIn hf v h).bind fun hc => hc.group
  cases hv : f.filter v with
  | error e =>
    cases hw : f.filter w with
    | error e' => simp
    | ok t =>
      rw [hv, hw] at hagree
      exact hagree.elim
  | ok s =>
    cases hw : f.filter w with
    | error e' =>
      rw [hv, hw] at hagree
      exact hagree.elim
    | ok t =>
      rw [hv, hw] at hagree
      refine ⟨⟨fun _ => ⟨t, rfl⟩, fun _ => ⟨s, rfl⟩⟩, ?_⟩
      rintro _ _ ⟨⟩ ⟨⟩
      exact hagree

/-- Quotes and backslashes in the data stay in the literals. -/
theorem alike_filter_of_similar_quotes :
    Alike .postgres "((name='O''Neil') AND (LOWER(city) IN ('', '\\')))"
      "((name=''' OR 1=1 --') AND (LOWER(city) IN ('\\', '''')))" := by
  have hcity : Similar (.entry "$toLower" (.array [.string "", .string "\\"]))
      (.entry "$toLower" (.array [.string "\\", .string "'"])) :=
    .object (.cons (by decide) (.of_not_mem (by decide))
      (.array (.cons (.string _ _) (.cons (.string _ _) .nil))) .nil)
  have hsimilar : Similar (.object [("name", .string "O'Neil"), ("city", _)])
      (.object [("name", .string "' OR 1=1 --"), ("city", _)]) :=
    .object (.cons (by decide) (.of_not_mem (by decide)) (.string _ _)
      (.cons (by decide) (.of_not_mem (by decide)) hcity .nil))
  exact (alike_filter_of_similar (f := { dialect := .postgres }) rfl hsimilar).2 _ _ (by cbv) (by cbv)

end Filters

end SqlQuery.Sql
