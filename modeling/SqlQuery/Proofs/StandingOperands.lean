import SqlQuery.Proofs.ExpressionSurface

/-!
# Operands in SQL

A text stands in another as an operand if it is there outside of literals and set off from what is beside it by a blank,
a parenthesis, a comma or the symbol of a comparison (`Stands`). SQL that is written around operands is put together
piece by piece (`Opens`), which asks nothing of an operand but that it closes its literals. Calls and operators carry
the arguments that they take, which are not always all that they are given (`Method.limit?`).
-/

namespace SqlQuery

open SqlQuery.Filter (isLiteral)

/-- How many arguments are written in a call, if not all are. -/
def Method.limit? : Method → Option Nat
  | .substr | .indexOfBytes => some 3
  | .round | .startsWith | .endsWith | .contains => some 2
  | .concat | .add | .subtract | .multiply | .divide | .mod | .bit => none
  | _ => some 1

/-- The operands under a key that are written. -/
def writtenUnder {α : Type} (key : String) (args : List α) : List α :=
  match (Method.ofKey? key).bind Method.limit? with
  | some n => args.take n
  | none => args

namespace Sql

/-- What an operand can follow. -/
def isOpener (c : Char) : Bool := c = '(' || c = ' ' || c = '=' || c = '<' || c = '>'

/-- What can follow an operand. -/
def isCloser (c : Char) : Bool := c = ')' || c = ' ' || c = ',' || c = '=' || c = '<' || c = '>'

/-- The first text is an operand in the second. -/
def Stands (d : Dialect) (s sql : String) : Prop :=
  ∃ before after, sql = before ++ s ++ after ∧ (scan d before).1 = .outside ∧
    before.toList.getLast?.all isOpener = true ∧ after.toList.head?.all isCloser = true

/-- A text before the first operand. -/
structure Leads (p : String) : Prop where
  quote : '\x27' ∉ p.toList
  last : p.toList.getLast?.all isOpener = true

/-- A text after the last operand. -/
structure Trails (p : String) : Prop where
  quote : '\x27' ∉ p.toList
  head : p.toList.head?.all isCloser = true

/-- A text between two operands. -/
structure Divides (p : String) : Prop where
  quote : '\x27' ∉ p.toList
  head : p.toList.head?.any isCloser = true
  last : p.toList.getLast?.any isOpener = true

instance (p : String) : Decidable (Leads p) :=
  decidable_of_iff ('\x27' ∉ p.toList ∧ p.toList.getLast?.all isOpener = true)
    ⟨fun h => ⟨h.1, h.2⟩, fun h => ⟨h.1, h.2⟩⟩

instance (p : String) : Decidable (Trails p) :=
  decidable_of_iff ('\x27' ∉ p.toList ∧ p.toList.head?.all isCloser = true)
    ⟨fun h => ⟨h.1, h.2⟩, fun h => ⟨h.1, h.2⟩⟩

instance (p : String) : Decidable (Divides p) :=
  decidable_of_iff ('\x27' ∉ p.toList ∧ p.toList.head?.any isCloser = true ∧ p.toList.getLast?.any isOpener = true)
    ⟨fun h => ⟨h.1, h.2.1, h.2.2⟩, fun h => ⟨h.1, h.2, h.3⟩⟩

/-- The operands stand in the text, and an operand can follow it. -/
structure Opens (d : Dialect) (sql : String) (operands : List String) : Prop where
  outside : (scan d sql).1 = .outside
  last : sql.toList.getLast?.all isOpener = true
  stands : ∀ s ∈ operands, ∀ more, Stands d s (sql ++ more)

/-- The operands stand in the text, which closes its literals. -/
structure Carries (d : Dialect) (sql : String) (operands : List String) : Prop where
  closed : Closed d sql
  stands : ∀ s ∈ operands, Stands d s sql

section

variable {d : Dialect} {s t p q : String} {operands : List String}

namespace Stands

theorem refl (s : String) : Stands d s s := ⟨"", "", by simp, rfl, rfl, rfl⟩

theorem trans (h : Stands d s t) (h' : Stands d t p) : Stands d s p := by
  obtain ⟨b, a, rfl, hb, hbl, hah⟩ := h
  obtain ⟨b', a', rfl, hb', hbl', hah'⟩ := h'
  refine ⟨b' ++ b, a ++ a', by simp [String.append_assoc], ?_, ?_, ?_⟩
  · rw [scan_append (.inl hb')]
    exact hb
  · rw [String.toList_append, List.getLast?_append]
    cases hl : b.toList.getLast? with
    | none => exact hbl'
    | some c => simpa [hl] using hbl
  · rw [String.toList_append, List.head?_append]
    cases hh : a.toList.head? with
    | none => exact hah'
    | some c => simpa [hh] using hah

end Stands

theorem Divides.plain (h : Divides p) : Plain p := by
  refine ⟨?_, h.quote⟩
  rintro rfl
  cases h.head

theorem closed_append_of_not_mem (hs : Closed d s) (hp : '\x27' ∉ p.toList) : Closed d (s ++ p) := by
  by_cases hne : p = ""
  · subst hne
    rwa [String.append_empty]
  · refine .inl ?_
    rw [scan_append (Plain.parted ⟨hne, hp⟩ hs), scan_of_not_mem hp]

namespace Opens

theorem start (hs : Leads s) : Opens d s [] := ⟨by rw [scan_of_not_mem hs.quote], hs.last, List.forall_mem_nil _⟩

theorem closed_operand (h : Opens d s operands) (ht : Closed d t) : Closed d (s ++ t) := by
  unfold Closed
  rw [scan_append (.inl h.outside)]
  exact ht

theorem operand (h : Opens d s operands) (ht : Closed d t) (hp : Divides p) :
    Opens d (s ++ t ++ p) (t :: operands) := by
  refine ⟨?_, ?_, List.forall_mem_cons.2 ⟨fun more => ?_, fun u hu more => ?_⟩⟩
  · rw [scan_append (hp.plain.parted (h.closed_operand ht)), scan_of_not_mem hp.quote]
  · obtain ⟨c, hc, hopener⟩ := (Option.any_eq_true ..).1 hp.last
    rw [String.toList_append, List.getLast?_append, hc]
    exact hopener
  · refine ⟨s, p ++ more, String.append_assoc .., h.outside, h.last, ?_⟩
    obtain ⟨c, hc, hcloser⟩ := (Option.any_eq_true ..).1 hp.head
    rw [String.toList_append, List.head?_append, hc]
    exact hcloser
  · have hassoc : s ++ t ++ p ++ more = s ++ (t ++ p ++ more) := by simp [String.append_assoc]
    rw [hassoc]
    exact h.stands u hu _

theorem carries (h : Opens d s operands) (ht : Closed d t) (hp : Trails p) :
    Carries d (s ++ t ++ p) (t :: operands) := by
  refine ⟨closed_append_of_not_mem (h.closed_operand ht) hp.quote, List.forall_mem_cons.2 ⟨?_, fun u hu => ?_⟩⟩
  · exact ⟨s, p, rfl, h.outside, h.last, hp.head⟩
  · rw [String.append_assoc]
    exact h.stands u hu _

end Opens

theorem Carries.mono {operands' : List String} (h : Carries d s operands) (hsub : operands' ⊆ operands) :
    Carries d s operands' :=
  ⟨h.closed, fun t ht => h.stands t (hsub ht)⟩

theorem carries_pair (hs : Closed d s) (ht : Closed d t) (hp : Divides p) : Carries d (s ++ p ++ t) [t, s] := by
  have hopens : Opens d ("" ++ s ++ p) [s] := (Opens.start (by decide)).operand hs hp
  have hcarries := hopens.carries ht (p := "") (by decide)
  rwa [String.empty_append, String.append_empty] at hcarries

theorem carries_joinWith {texts : List String} (h : ∀ t ∈ texts, Closed d t) (hp : Divides p) :
    Carries d (Text.joinWith p texts) texts := by
  induction texts with
  | nil => exact ⟨.inl rfl, List.forall_mem_nil _⟩
  | cons t texts ih =>
    obtain ⟨ht, htexts⟩ := List.forall_mem_cons.1 h
    cases texts with
    | nil => exact ⟨ht, List.forall_mem_singleton.2 (.refl t)⟩
    | cons u texts =>
      have hrest := ih htexts
      have hpair : Carries d (Text.joinWith p (t :: u :: texts)) [_, t] := carries_pair ht hrest.closed hp
      obtain ⟨hjoined, hfirst⟩ := List.forall_mem_cons.1 hpair.stands
      refine ⟨hpair.closed, List.forall_mem_cons.2 ⟨hfirst t (List.mem_singleton_self t), fun v hv => ?_⟩⟩
      exact (hrest.stands v hv).trans hjoined

/-! ### Calls -/

theorem carries_unaryCall? {f : Formatter} {m : Method} (hs : Closed f.dialect s) (h : f.unaryCall? m s = some t) :
    Carries f.dialect t [s] := by
  obtain ⟨p, q, hframes, rfl⟩ := exists_frames_of_unaryCall? h
  have hlast : p.toList.getLast?.all isOpener = true := by
    rcases hframes.last with h | h <;> rw [h] <;> rfl
  have hnext : q.toList.head?.all isCloser = true := by
    rcases hframes.next with h | h <;> rw [h] <;> rfl
  have hopens : Opens f.dialect p [] := ⟨hframes.outside, hlast, List.forall_mem_nil _⟩
  exact hopens.carries hs ⟨hframes.plain.2, hnext⟩

/-- A position after a start is searched for twice. -/
theorem Carries.searched {position start : String} (h : Carries d position operands) (hstart : Closed d start) :
    Carries d ("(CASE WHEN " ++ position ++ " > 0 THEN " ++ position ++ " + " ++ start ++ " - 1 ELSE -1 END)")
      operands := by
  have hopens : Opens d "(CASE WHEN " [] := .start (by decide)
  have hcarries := ((hopens.operand h.closed (p := " > 0 THEN ") (by decide)).operand h.closed (p := " + ")
    (by decide)).carries hstart (p := " - 1 ELSE -1 END)") (by decide)
  exact ⟨hcarries.closed, fun s hs => (h.stands s hs).trans (hcarries.stands position (by simp))⟩

theorem carries_indexOf {search : String} {start : Option String} (hs : Closed d s) (hsearch : Closed d search)
    (hstart : ∀ x ∈ start, Closed d x) : Carries d (d.indexOf s search start) (s :: search :: start.toList) := by
  unfold Dialect.indexOf
  cases d with
  | mysql =>
    have hopens : Opens .mysql "(LOCATE(" [] := .start (by decide)
    have hsearched : Opens .mysql ("(LOCATE(" ++ search ++ ", ") [search] := hopens.operand hsearch (by decide)
    cases start with
    | none => exact (hsearched.carries hs (by decide)).mono (by simp)
    | some start =>
      exact ((hsearched.operand hs (by decide)).carries (hstart start rfl) (by decide)).mono (by simp)
  | postgres =>
    cases start with
    | none =>
      have hopens : Opens .postgres "(POSITION(" [] := .start (by decide)
      exact ((hopens.operand hsearch (by decide)).carries hs (by decide)).mono (by simp)
    | some start =>
      have hopens : Opens .postgres "POSITION(" [] := .start (by decide)
      have hclosed := hstart start rfl
      have hposition := ((hopens.operand hsearch (p := " IN SUBSTRING(") (by decide)).operand hs (p := " FROM ")
        (by decide)).carries hclosed (p := " + 1))") (by decide)
      exact (hposition.searched hclosed).mono (by simp)
  | sqlite =>
    cases start with
    | none =>
      have hopens : Opens .sqlite "(INSTR(" [] := .start (by decide)
      exact ((hopens.operand hs (by decide)).carries hsearch (by decide)).mono (by simp)
    | some start =>
      have hopens : Opens .sqlite "INSTR(SUBSTR(" [] := .start (by decide)
      have hclosed := hstart start rfl
      have hposition := ((hopens.operand hs (p := ", ") (by decide)).operand hclosed (p := " + 1), ")
        (by decide)).carries hsearch (p := ")") (by decide)
      exact (hposition.searched hclosed).mono (by simp)

theorem carries_concat {texts : List String} (h : ∀ t ∈ texts, Closed d t) : Carries d (d.concat texts) texts := by
  have hwrapped : ∀ {p q separator : String}, Leads p → Divides separator → Trails q →
      Carries d (p ++ Text.joinWith separator texts ++ q) texts := by
    intro p q separator hp hseparator hq
    have hjoined := carries_joinWith h hseparator
    have hcarries := (Opens.start hp).carries hjoined.closed hq
    exact ⟨hcarries.closed, fun t ht => (hjoined.stands t ht).trans (hcarries.stands _ (List.mem_singleton_self _))⟩
  unfold Dialect.concat
  cases d with
  | mysql | postgres => exact hwrapped (by decide) (by decide) (by decide)
  | sqlite => exact hwrapped (by decide) (by decide) (by decide)

theorem carries_matchCall? {f : Formatter} {m : Method} {raw : List Value} (hs : Closed f.dialect s)
    (h : f.matchCall? m s raw = some t) : Carries f.dialect t [s] ∧ ∃ text, raw[1]? = some (.string text) := by
  unfold Formatter.matchCall? at h
  split at h
  · next text _ =>
    obtain ⟨p, -, rfl⟩ := Option.map_eq_some_iff.1 h
    have hopens : Opens f.dialect "(" [] := .start (by decide)
    have hlike := (hopens.operand hs (p := " LIKE ") (by decide)).carries (balanced_operand p f.dialect).closed
      (p := ")") (by decide)
    exact ⟨hlike.mono (by simp), text, rfl⟩
  · cases h

theorem matchCall?_eq_none {f : Formatter} {m : Method} (hm : isMatching m = false) (first : String)
    (raw : List Value) : f.matchCall? m first raw = none := by
  unfold Formatter.matchCall?
  split
  · rw [matchPattern?_eq_none hm, Option.map_none]
  · rfl

/-- The start of a substring is a number, or one more than the argument. -/
theorem carries_substringStart? {raw : List Value} {sql : List String} {start : String}
    (hsql : ∀ s ∈ sql, Closed d s) (h : Formatter.substringStart? raw sql = some start) :
    Closed d start ∧ ∀ x, sql[1]? = some x → intAt? raw 1 = none → Stands d x start := by
  rw [substringStart?_eq] at h
  split at h
  · next n hn =>
    obtain ⟨-, hstart⟩ := Option.ite_none_left_eq_some.1 h
    cases hstart
    refine ⟨(shielded_numeric (.intText _)).balanced.closed, fun x _ hnone => ?_⟩
    rw [hnone] at hn
    cases hn
  · next x _ hx =>
    cases h
    have hopens : Opens d "(" [] := .start (by decide)
    have hcarries : Carries d ("(" ++ x ++ " + 1)") [x] :=
      hopens.carries (hsql x (List.mem_of_getElem? hx)) (by decide)
    refine ⟨hcarries.closed, fun y hy _ => ?_⟩
    rw [hx] at hy
    cases hy
    exact hcarries.stands x (List.mem_singleton_self x)
  · cases h

theorem carries_substring? {raw : List Value} {sql : List String} {start : String} (hs : Closed d s)
    (hsql : ∀ s ∈ sql, Closed d s) (hstart : Formatter.substringStart? raw sql = some start)
    (h : Formatter.substring? s raw sql = some t) : Carries d t (s :: start :: (lengthText? raw sql).toList) := by
  rw [substring?_eq_elim, hstart] at h
  cases h
  have hopens : Opens d "SUBSTRING(" [] := .start (by decide)
  have hfirst : Opens d ("SUBSTRING(" ++ s ++ ", ") [s] := hopens.operand hs (by decide)
  have hclosed := (carries_substringStart? hsql hstart).1
  cases hlength : lengthText? raw sql with
  | none =>
    show Carries d ("SUBSTRING(" ++ s ++ ", " ++ start ++ "" ++ ")") _
    rw [String.append_empty]
    exact (hfirst.carries hclosed (by decide)).mono (by simp)
  | some length =>
    have hmem : length ∈ sql := by
      unfold lengthText? at hlength
      split at hlength
      · cases hlength
      · exact List.mem_of_getElem? hlength
    have hcarries := (hfirst.operand hclosed (p := ", ") (by decide)).carries (hsql length hmem) (p := ")")
      (by decide)
    show Carries d ("SUBSTRING(" ++ s ++ ", " ++ start ++ (", " ++ length) ++ ")") _
    rw [← String.append_assoc]
    exact hcarries.mono (by simp)

/-- The text closes its literals, and in it stands every argument that is written and is no literal. -/
structure Writes (d : Dialect) (limit? : Option Nat) (raw : List Value) (sql : List String) (text : String) : Prop where
  closed : Closed d text
  stands : ∀ {i : Nat} {s : String} {v : Value}, limit?.all (i < ·) = true → sql[i]? = some s → raw[i]? = some v →
    isLiteral v = false → Stands d s text

theorem Carries.writes_first {limit? : Option Nat} {raw : List Value} {first text : String} {rest : List String}
    (h : Carries d text [first])
    (hrest : ∀ {i : Nat} {s : String} {v : Value}, limit?.all (i + 1 < ·) = true → rest[i]? = some s →
      raw[i + 1]? = some v → isLiteral v = false → Stands d s text) : Writes d limit? raw (first :: rest) text := by
  refine ⟨h.closed, fun {i s v} hi hs hv hl => ?_⟩
  cases i with
  | zero =>
    cases hs
    exact h.stands first (List.mem_singleton_self first)
  | succ i => exact hrest hi hs hv hl

theorem limit?_of_isUnary {m : Method} (h : m.isUnary = true) : m.limit? = some 1 := by
  revert h
  cases m <;> decide

theorem writes_substring? {raw : List Value} {first text : String} {rest : List String}
    (hsql : ∀ s ∈ first :: rest, Closed d s) (h : Formatter.substring? first raw (first :: rest) = some text) :
    Writes d (Method.limit? .substr) raw (first :: rest) text := by
  obtain ⟨start, hstart, -⟩ := Option.map_eq_some_iff.1 (substring?_eq .. ▸ h)
  have hcarries := carries_substring? (hsql first (by simp)) hsql hstart h
  refine (hcarries.mono (by simp)).writes_first fun {i s v} hi hs hv hl => ?_
  rcases i with _ | _ | i
  · have hstands := (carries_substringStart? hsql hstart).2 s hs (intAt?_of_not_literal hv hl)
    exact hstands.trans (hcarries.stands start (by simp))
  · refine hcarries.stands s ?_
    simp [lengthText?, intAt?_of_not_literal hv hl, show (first :: rest)[2]? = some s from hs]
  · have hlt : i + 2 + 1 < 3 := of_decide_eq_true hi
    omega

theorem writes_call? {f : Formatter} {m : Method} {raw : List Value} {sql : List String} {text : String}
    (hsql : ∀ s ∈ sql, Closed f.dialect s) (h : f.call? m raw sql = some text) :
    Writes f.dialect m.limit? raw sql text := by
  cases sql with
  | nil => cases h
  | cons first rest =>
    obtain ⟨hfirst, hrest⟩ := List.forall_mem_cons.1 hsql
    cases hu : f.unaryCall? m first with
    | some unary =>
      obtain rfl : unary = text := by simpa [Formatter.call?, hu] using h
      have hunary : m.isUnary = true := by rw [← isSome_unaryCall? f m first, hu, Option.isSome_some]
      rw [limit?_of_isUnary hunary]
      exact (carries_unaryCall? hfirst hu).writes_first fun hi => by simp at hi
    | none =>
      cases m with
      | round =>
        have hopens : Opens f.dialect "ROUND(" [] := .start (by decide)
        cases rest with
        | nil =>
          cases h
          exact (hopens.carries hfirst (by decide)).writes_first (by simp)
        | cons places rest =>
          cases h
          have hcarries := (hopens.operand hfirst (p := ", ") (by decide)).carries (hrest places (by simp)) (p := ")")
            (by decide)
          refine (hcarries.mono (by simp)).writes_first fun {i s v} hi hs _ _ => ?_
          obtain rfl : i = 0 := by simpa [Method.limit?] using hi
          cases hs
          exact hcarries.stands places (by simp)
      | substr => exact writes_substring? hsql h
      | indexOfBytes =>
        cases rest with
        | nil => cases (matchCall?_eq_none rfl first raw).symm.trans h
        | cons search rest =>
          cases h
          have hcarries : Carries f.dialect (f.dialect.indexOf first search rest.head?)
              (first :: search :: rest.head?.toList) :=
            carries_indexOf hfirst (hrest search (by simp)) fun x hx =>
              hrest x (List.mem_cons_of_mem _ (List.mem_of_head? hx))
          refine (hcarries.mono (by simp)).writes_first fun {i s v} hi hs _ _ => ?_
          rcases i with _ | _ | i
          · cases hs
            exact hcarries.stands search (by simp)
          · refine hcarries.stands s ?_
            rw [List.getElem?_cons_succ, ← List.head?_eq_getElem?] at hs
            simp [hs]
          · have hlt : i + 2 + 1 < 3 := of_decide_eq_true hi
            omega
      | concat =>
        cases h
        have hcarries := carries_concat (d := f.dialect) hsql
        exact ⟨hcarries.closed, fun _ hs _ _ => hcarries.stands _ (List.mem_of_getElem? hs)⟩
      | startsWith | endsWith | contains =>
        obtain ⟨hcarries, text, htext⟩ := carries_matchCall? hfirst h
        refine hcarries.writes_first fun {i s v} hi _ hv hl => ?_
        obtain rfl : i = 0 := by simpa [Method.limit?] using hi
        rw [htext] at hv
        cases hv
        cases hl
      | add | subtract | multiply | divide | mod | bit =>
        -- arithmetic is written with symbols, and is no call
        cases (matchCall?_eq_none rfl first raw).symm.trans h
      | _ => cases hu

/-! ### Operators -/

/-- A text that has all operands writes them. -/
theorem Carries.writes {limit? : Option Nat} {raw : List Value} {sql : List String} (h : Carries d t operands)
    (hsub : sql ⊆ operands) : Writes d limit? raw sql t :=
  ⟨h.closed, fun _ hs _ _ => h.stands _ (hsub (List.mem_of_getElem? hs))⟩

theorem divides_symbol {symbols : List (String × String)} {p : String → String} {key symbol : String}
    (hs : symbols.all (fun entry => Divides (p entry.2)) = true) (h : symbols.lookup key = some symbol) :
    Divides (p symbol) := by
  obtain ⟨l₁, l₂, hl, -⟩ := List.lookup_eq_some_iff.1 h
  exact of_decide_eq_true (List.all_eq_true.1 hs (key, symbol) (by simp [hl]))

theorem carries_comparison {key symbol : String} (hsymbol : Formatter.comparisonSymbols.lookup key = some symbol)
    (hs : Closed d s) (ht : Closed d t) (value : Value) :
    Carries d (Formatter.comparison key symbol s value t) [s] ∧
      (value.isNull = false → Stands d t (Formatter.comparison key symbol s value t)) := by
  have hnull : ∀ {p : String}, Trails p → Carries d (s ++ p) [s] := by
    intro p hp
    have hcarries := (Opens.start (d := d) (s := "") (by decide)).carries hs hp
    rwa [String.empty_append] at hcarries
  unfold Formatter.comparison
  split_ifs with heq hne
  · exact ⟨hnull (by decide), fun h => by rw [h] at heq; cases heq.1⟩
  · exact ⟨hnull (by decide), fun h => by rw [h] at hne; cases hne.1⟩
  · have hpair := carries_pair hs ht (divides_symbol (p := id) (by decide) hsymbol)
    exact ⟨hpair.mono (by simp), fun _ => hpair.stands t (by simp)⟩

theorem carries_in (key : String) (hs : Closed d s) (ht : Closed d t) :
    Carries d (s ++ (if key = "$nin" then " NOT" else "") ++ " IN (" ++ t ++ ")") [t, s] := by
  have hcarries : ∀ {p : String}, Divides p → Carries d (s ++ p ++ t ++ ")") [t, s] := by
    intro p hp
    have hopens : Opens d ("" ++ s ++ p) [s] := (Opens.start (by decide)).operand hs hp
    rw [String.empty_append] at hopens
    exact hopens.carries ht (by decide)
  have hassoc : ∀ p : String, s ++ p ++ " IN (" = s ++ (p ++ " IN (") := fun p => String.append_assoc
  split
  · rw [hassoc]
    exact hcarries (by decide)
  · rw [hassoc]
    exact hcarries (by decide)

theorem writes_operator {f : Formatter} {key : String} {args : Value} {raw : List Value} {sql : List String}
    {text : String} (hsql : ∀ s ∈ sql, Closed f.dialect s) (h : f.operator key args raw sql = .ok text) :
    Writes f.dialect ((Method.ofKey? key).bind Method.limit?) raw sql text := by
  unfold Formatter.operator at h
  split at h
  · next _ _ symbol hsymbol =>
    split at h
    · next l r =>
      cases h
      obtain ⟨hl, hr⟩ : Closed f.dialect l ∧ Closed f.dialect r := by simpa using hsql
      have hdivides : Divides (" " ++ symbol ++ " ") :=
        divides_symbol (p := fun s => " " ++ s ++ " ") (by decide) hsymbol
      have hopens : Opens f.dialect "(" [] := .start (by decide)
      have hcarries := (hopens.operand hl hdivides).carries hr (p := ")") (by decide)
      have hassoc : "(" ++ l ++ " " ++ symbol ++ " " ++ r ++ ")" = "(" ++ l ++ (" " ++ symbol ++ " ") ++ r ++ ")" := by
        simp [String.append_assoc]
      rw [hassoc]
      exact hcarries.writes (by simp)
    · cases h
  · next _ _ symbol _ hsymbol =>
    split at h
    · next l r a value =>
      cases h
      obtain ⟨hl, hr⟩ : Closed f.dialect l ∧ Closed f.dialect r := by simpa using hsql
      obtain ⟨hcarries, hright⟩ := carries_comparison hsymbol hl hr value
      refine hcarries.writes_first fun {i s v} _ hs hv hlit => ?_
      cases i with
      | zero =>
        cases hs
        cases hv
        refine hright ?_
        cases value <;> first | rfl | cases hlit
      | succ i => cases hs
    · cases h
  · split at h
    · split at h
      · next l r =>
        cases h
        obtain ⟨hl, hr⟩ : Closed f.dialect l ∧ Closed f.dialect r := by simpa using hsql
        exact (carries_in key hl hr).writes (by simp)
      · cases h
    · split at h
      · cases h
      · next m hm =>
        split at h
        · next htext =>
          cases h
          rw [hm]
          exact writes_call? hsql htext
        · cases h

end

end Sql

end SqlQuery
