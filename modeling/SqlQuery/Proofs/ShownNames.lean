import Mathlib
import SqlQuery.Proofs.DocumentReading
import SqlQuery.Proofs.StandingOperands

/-!
# The names of a document in its SQL

`Value.shown` are the names that the SQL of a document has: those of references and of columns, but for the arguments
that a call does not write, and for options and searched texts. It is the same for a document as an expression, as the
condition of a field and as a filter, so that one list goes with all three readings (`showsOn`, `shows_fieldCondition`,
`shows_filterIn`). A name with a quote in it would open a literal, so that documents with such names are left out.
-/

namespace SqlQuery

open SqlQuery.Filter (isLiteral)

/-- The keys whose values do not show in the condition of a field. -/
def hiddenKeys : List String := ["$options", "$text"]

/-- The names of an entry, given those of its operands. -/
def entryNames (key : String) (operandNames : List (List String)) : List String :=
  if key ∈ hiddenKeys then []
  else (if isOperatorKey key then [] else [key]) ++ (writtenUnder key operandNames).flatten

namespace Value

mutual

/-- The keys and paths of a document. -/
def names : Value → List String
  | .ref path => [path]
  | .array items => namesOf items
  | .object entries => namesUnder entries
  | _ => []

def namesOf : List Value → List String
  | [] => []
  | value :: values => value.names ++ namesOf values

def namesUnder : List (String × Value) → List String
  | [] => []
  | (key, value) :: entries => key :: value.names ++ namesUnder entries

end

mutual

/-- The names that the SQL of a document shows. -/
def shown : Value → List String
  | .ref path => [path]
  | .array items => (shownEach items).flatten
  | .object entries => shownUnder entries
  | _ => []

def shownEach : List Value → List (List String)
  | [] => []
  | value :: values => value.shown :: shownEach values

def shownUnder : List (String × Value) → List String
  | [] => []
  | (key, .array items) :: entries => entryNames key (shownEach items) ++ shownUnder entries
  | (key, value) :: entries => entryNames key [value.shown] ++ shownUnder entries

end

theorem shownEach_eq_map (values : List Value) : shownEach values = values.map shown := by
  induction values with
  | nil => rw [shownEach, List.map_nil]
  | cons value values ih => rw [shownEach, ih, List.map_cons]

theorem shownUnder_cons (key : String) (value : Value) (entries : List (String × Value)) :
    shownUnder ((key, value) :: entries) =
      entryNames key ((Sql.operands value).map shown) ++ shownUnder entries := by
  cases value <;> simp [shownUnder, Sql.operands, shownEach_eq_map]

theorem shown_eq_flatten (value : Value) : value.shown = ((Sql.operands value).map shown).flatten := by
  cases value <;> simp [shown, Sql.operands, shownEach_eq_map]

theorem shown_of_isLiteral {value : Value} (h : isLiteral value = true) : value.shown = [] := by
  cases value with
  | array | object | ref => cases h
  | _ => rw [shown.eq_def]

end Value

/-- No name has a quote in it. -/
def Unquoted (names : List String) : Prop := ∀ name ∈ names, '\x27' ∉ name.toList

theorem writtenUnder_subset {α : Type} (key : String) (args : List α) : writtenUnder key args ⊆ args := by
  unfold writtenUnder
  split
  · exact List.take_subset _ _
  · exact List.Subset.refl _

/-- What is written stands at a place below the limit. -/
theorem exists_getElem?_of_mem_writtenUnder {α : Type} {key : String} {args : List α} {x : α}
    (h : x ∈ writtenUnder key args) :
    ∃ i, ((Method.ofKey? key).bind Method.limit?).all (i < ·) = true ∧ args[i]? = some x := by
  unfold writtenUnder at h
  split at h
  · next n hn =>
    obtain ⟨i, hi⟩ := List.getElem?_of_mem h
    rw [List.getElem?_take] at hi
    split at hi
    · next hlt =>
      rw [hn]
      exact ⟨i, by simpa using hlt, hi⟩
    · cases hi
  · next hn =>
    obtain ⟨i, hi⟩ := List.getElem?_of_mem h
    rw [hn]
    exact ⟨i, rfl, hi⟩

/-- A name of an entry is its key, which is then that of a field, or one of an operand. -/
theorem mem_entryNames {key name : String} {names : List (List String)} (h : name ∈ entryNames key names) :
    (name = key ∧ isOperatorKey key = false) ∨ name ∈ names.flatten := by
  unfold entryNames at h
  split at h
  · cases h
  · rcases List.mem_append.1 h with h | h
    · split at h
      · cases h
      · next hk => exact .inl ⟨List.mem_singleton.1 h, by simpa using hk⟩
    · obtain ⟨list, hlist, hname⟩ := List.mem_flatten.1 h
      exact .inr (List.mem_flatten.2 ⟨list, writtenUnder_subset key names hlist, hname⟩)

theorem entryNames_subset {key : String} (hk : isOperatorKey key = true) (names : List (List String)) :
    entryNames key names ⊆ names.flatten := by
  intro name hname
  rcases mem_entryNames hname with ⟨-, hfield⟩ | hname
  · rw [hk] at hfield
    cases hfield
  · exact hname

theorem writtenUnder_eq_self {α : Type} {key : String} {args : List α}
    (h : ((Method.ofKey? key).bind Method.limit?).all (args.length ≤ ·) = true) : writtenUnder key args = args := by
  unfold writtenUnder
  split
  · next n hn =>
    rw [hn] at h
    exact List.take_of_length_le (by simpa using h)
  · rfl

/-- Under an operator that writes all its operands, all their names are written. -/
theorem entryNames_eq_flatten {key : String} {names : List (List String)} (hk : isOperatorKey key = true)
    (hh : key ∉ hiddenKeys) (hl : ((Method.ofKey? key).bind Method.limit?).all (names.length ≤ ·) = true) :
    entryNames key names = names.flatten := by
  rw [entryNames, if_neg hh, if_pos hk, List.nil_append, writtenUnder_eq_self hl]

theorem entryNames_operands {key : String} (hk : isOperatorKey key = true) (hh : key ∉ hiddenKeys)
    (hl : (Method.ofKey? key).bind Method.limit? = none) (value : Value) :
    entryNames key ((Sql.operands value).map Value.shown) = value.shown := by
  have hall : ∀ n, ((Method.ofKey? key).bind Method.limit?).all (n ≤ ·) = true := by
    intro n
    rw [hl]
    rfl
  rw [entryNames_eq_flatten hk hh (hall _), ← value.shown_eq_flatten]

namespace Sql

section

variable {f : Formatter}

/-! ### Names -/

theorem groupText_subset (word name : List Char) : NameStyle.groupText word name ⊆ word := by
  unfold NameStyle.groupText
  dsimp only
  split
  · split
    · exact List.Subset.refl _
    · exact List.nil_subset _
  · exact List.nil_subset _

theorem quote_not_mem_expand {word template : List Char} (hw : '\x27' ∉ word) (ht : '\x27' ∉ template) :
    '\x27' ∉ NameStyle.expand word template := by
  have hgroup : ∀ name, '\x27' ∉ NameStyle.groupText word name := fun name h => hw (groupText_subset word name h)
  fun_induction NameStyle.expand word template with
  | case1 => exact List.not_mem_nil
  | case2 rest ih =>
    simp only [List.mem_cons, not_or] at ht ⊢
    exact ⟨by decide, ih ht.2.2⟩
  | case3 rest c later h ih =>
    simp only [List.mem_cons, not_or] at ht
    have hlater : later ⊆ rest := fun x hx => List.dropWhile_subset _ (h ▸ List.mem_cons_of_mem c hx)
    rw [List.mem_append, not_or]
    exact ⟨hgroup _, ih fun hmem => ht.2.2 (hlater hmem)⟩
  | case4 rest h ih =>
    rw [List.mem_cons, not_or] at ht ⊢
    exact ⟨by decide, ih ht.2⟩
  | case5 rest _ _ name _ ih =>
    rw [List.mem_cons, not_or] at ht ⊢
    exact ⟨by decide, ih ht.2⟩
  | case6 rest _ _ name _ ih =>
    rw [List.mem_cons, not_or] at ht
    rw [List.mem_append, not_or]
    exact ⟨hgroup _, ih fun hmem => ht.2 (List.dropWhile_subset _ hmem)⟩
  | case7 c rest _ _ _ ih =>
    rw [List.mem_cons, not_or] at ht ⊢
    exact ⟨ht.1, ih ht.2⟩

theorem quote_not_mem_name {name : String} (hf : '\x27' ∉ f.style.nameFormat.toList) (hn : '\x27' ∉ name.toList) :
    '\x27' ∉ (f.style.name name).toList := by
  have hwords : ∀ cs : List Char, '\x27' ∉ cs → '\x27' ∉ NameStyle.formatWords f.style.nameFormat.toList cs := by
    intro cs hcs
    fun_induction NameStyle.formatWords f.style.nameFormat.toList cs with
    | case1 => exact hcs
    | case2 c rest hc ih =>
      rw [List.mem_cons, not_or] at hcs
      have hword : '\x27' ∉ c :: rest.takeWhile Text.isWord := by
        rw [List.mem_cons, not_or]
        exact ⟨hcs.1, fun h => hcs.2 (List.takeWhile_subset _ h)⟩
      rw [List.mem_append, not_or]
      exact ⟨quote_not_mem_expand hword hf, ih fun h => hcs.2 (List.dropWhile_subset _ h)⟩
    | case3 c rest hc ih =>
      rw [List.mem_cons, not_or] at hcs ⊢
      exact ⟨hcs.1, ih hcs.2⟩
  rw [NameStyle.name, String.toList_ofList]
  exact hwords _ hn

/-! ### Expressions -/

/-- The SQL closes its literals, and the names stand in it. -/
structure Shows (f : Formatter) (sql : String) (names : List String) : Prop where
  closed : Closed f.dialect sql
  stands : ∀ name ∈ names, Stands f.dialect (f.style.name name) sql

/-- Each text shows the names of the value at its place. -/
def ShowsEach (f : Formatter) (texts : List String) (values : List Value) : Prop :=
  List.Forall₂ (fun text value => Shows f text value.shown) texts values

theorem Shows.mono {sql : String} {names names' : List String} (h : Shows f sql names) (hsub : names' ⊆ names) :
    Shows f sql names' :=
  ⟨h.closed, fun name hn => h.stands name (hsub hn)⟩

/-- What stands in a text shows its names there. -/
theorem Shows.of_stands {sql text : String} {names : List String} (h : Shows f text names)
    (hs : Stands f.dialect text sql) : ∀ name ∈ names, Stands f.dialect (f.style.name name) sql :=
  fun name hn => (h.stands name hn).trans hs

theorem ShowsEach.closed {texts : List String} {values : List Value} (h : ShowsEach f texts values) :
    ∀ text ∈ texts, Closed f.dialect text :=
  forall_mem_of_forall₂ h.flip fun _ _ _ hs => hs.closed

/-- The names of values in a text in which all their texts stand. -/
theorem ShowsEach.shows {texts : List String} {values : List Value} {sql : String} (h : ShowsEach f texts values)
    (hs : Carries f.dialect sql texts) : Shows f sql (values.map Value.shown).flatten := by
  refine ⟨hs.closed, fun name hn => ?_⟩
  obtain ⟨names, hnames, hn⟩ := List.mem_flatten.1 hn
  obtain ⟨value, hvalue, rfl⟩ := List.mem_map.1 hnames
  obtain ⟨i, hi⟩ := List.getElem?_of_mem hvalue
  obtain ⟨text, htext, hshows⟩ := exists_getElem? h.flip hi
  exact hshows.of_stands (hs.stands text (List.mem_of_getElem? htext)) name hn

theorem shows_name {path : String} (hf : '\x27' ∉ f.style.nameFormat.toList) (hn : '\x27' ∉ path.toList) :
    Shows f (f.style.name path) [path] := by
  refine ⟨.inl ?_, List.forall_mem_singleton.2 (.refl _)⟩
  rw [scan_of_not_mem (quote_not_mem_name hf hn)]

theorem shows_literal {value : Value} {sql : String} (hv : isLiteral value = true)
    (h : f.expressionIn f.plainScope value = .ok sql) : Shows f sql value.shown := by
  obtain ⟨constant, hconstant, hexpression⟩ := constant_of_isLiteral f hv
  rw [hexpression] at h
  cases h
  rw [Value.shown_of_isLiteral hv]
  exact ⟨(shielded_constant hv hconstant).balanced.closed, List.forall_mem_nil _⟩

theorem shows_operator {key sql : String} {arg : Value} {texts : List String} (hk : isOperatorKey key = true)
    (hs : ShowsEach f texts (operands arg)) (h : f.operator key arg (operands arg) texts = .ok sql) :
    Shows f sql (entryNames key ((operands arg).map Value.shown)) := by
  have hwrites := writes_operator hs.closed h
  refine ⟨hwrites.closed, fun name hn => ?_⟩
  unfold entryNames at hn
  split at hn
  · cases hn
  · rw [List.nil_append] at hn
    obtain ⟨names, hnames, hn⟩ := List.mem_flatten.1 hn
    obtain ⟨i, hlimit, hi⟩ := exists_getElem?_of_mem_writtenUnder hnames
    rw [List.getElem?_map] at hi
    obtain ⟨value, hvalue, rfl⟩ := Option.map_eq_some_iff.1 hi
    obtain ⟨text, htext, hshows⟩ := exists_getElem? hs.flip hvalue
    have hliteral : isLiteral value = false := by
      by_contra hl
      rw [Value.shown_of_isLiteral (by simpa using hl)] at hn
      cases hn
    exact hshows.of_stands (hwrites.stands hlimit htext hvalue hliteral) name hn

/-- What the SQL of a value and of its operands shows. -/
structure ShowsOn (f : Formatter) (v : Value) : Prop where
  value : ∀ {sql : String}, f.expressionIn f.plainScope v = .ok sql → Shows f sql v.shown
  operands : ∀ {texts : List String}, f.expressionsIn f.plainScope (operands v) = .ok texts →
    ShowsEach f texts (operands v)

theorem ShowsOn.of_value {value : Value} (hv : Sql.operands value = [value])
    (h : ∀ {sql : String}, f.expressionIn f.plainScope value = .ok sql → Shows f sql value.shown) :
    ShowsOn f value := by
  refine ⟨h, fun {texts} htexts => ?_⟩
  rw [hv, Formatter.expressionsIn, Formatter.expressionsIn] at htexts
  obtain ⟨sql, hsql, htexts⟩ := bind_eq_ok.1 htexts
  cases htexts
  rw [hv]
  exact .cons (h hsql) .nil

theorem shows_entry {key sql : String} {arg : Value} (ha : ShowsOn f arg)
    (h : f.expressionIn f.plainScope (.object [(key, arg)]) = .ok sql) :
    Shows f sql (Value.shown (.object [(key, arg)])) := by
  rw [expressionIn_entry] at h
  split at h
  · next hk =>
    obtain ⟨texts, htexts, h⟩ := bind_eq_ok.1 h
    rw [Value.shown, Value.shownUnder_cons, Value.shownUnder, List.append_nil]
    exact shows_operator hk (ha.operands htexts) h
  · cases h

mutual

theorem showsOn (hf : '\x27' ∉ f.style.nameFormat.toList) : (value : Value) →
    Unquoted value.names → ShowsOn f value
  | .ref path, hn => .of_value rfl fun h => by
    cases h
    rw [Value.shown]
    exact shows_name hf (hn path (by simp [Value.names]))
  | .array items, hn => by
    rw [Value.names] at hn
    have hitems := @showsOn_items hf items hn
    refine ⟨fun {sql} h => ?_, hitems⟩
    rw [Formatter.expressionIn] at h
    obtain ⟨texts, htexts, h⟩ := bind_eq_ok.1 h
    cases h
    have heach := hitems htexts
    rw [Value.shown, Value.shownEach_eq_map]
    exact heach.shows (carries_joinWith heach.closed (by decide))
  | .object entries, hn => .of_value rfl fun {sql} h => by
    rw [Value.names] at hn
    have hentries := showsOn_entries hf entries hn
    rcases entries with _ | ⟨⟨key, arg⟩, _ | ⟨second, rest⟩⟩
    · cases h
    · exact shows_entry (hentries (key, arg) (by simp)) h
    · rw [expressionIn_several] at h
      cases h
  | .null, _ | .bool _, _ | .int _, _ | .float _, _ | .string _, _ | .date _, _ => .of_value rfl (shows_literal rfl)

theorem showsOn_items (hf : '\x27' ∉ f.style.nameFormat.toList) : (values : List Value) →
    Unquoted (Value.namesOf values) → ∀ {texts : List String},
    f.expressionsIn f.plainScope values = .ok texts → ShowsEach f texts values
  | [], _, texts, h => by
    rw [Formatter.expressionsIn] at h
    cases h
    exact .nil
  | value :: values, hn, texts, h => by
    rw [Value.namesOf] at hn
    obtain ⟨hvalue, hvalues⟩ := List.forall_mem_append.1 hn
    rw [Formatter.expressionsIn] at h
    obtain ⟨text, htext, h⟩ := bind_eq_ok.1 h
    obtain ⟨more, hmore, h⟩ := bind_eq_ok.1 h
    cases h
    exact .cons ((showsOn hf value hvalue).value htext) (showsOn_items hf values hvalues hmore)

theorem showsOn_entries (hf : '\x27' ∉ f.style.nameFormat.toList) : (entries : List (String × Value)) →
    Unquoted (Value.namesUnder entries) → ∀ entry ∈ entries, ShowsOn f entry.2
  | [], _ => List.forall_mem_nil _
  | (key, value) :: entries, hn => by
    rw [Value.namesUnder] at hn
    obtain ⟨hkey, hrest⟩ := List.forall_mem_cons.1 hn
    obtain ⟨hvalue, hentries⟩ := List.forall_mem_append.1 hrest
    exact List.forall_mem_cons.2 ⟨showsOn hf value hvalue, showsOn_entries hf entries hentries⟩

end

/-! ### Conditions -/

theorem Shows.wrapped {sql p q : String} {names : List String} (h : Shows f sql names) (hp : Leads p) (hq : Trails q) :
    Stands f.dialect sql (p ++ sql ++ q) ∧ Shows f (p ++ sql ++ q) names := by
  have hcarries := (Opens.start hp).carries h.closed hq
  have hstands := hcarries.stands sql (List.mem_singleton_self sql)
  exact ⟨hstands, hcarries.closed, h.of_stands hstands⟩

theorem shows_group {c : Condition} {names : List String} (h : Shows f c.text names) :
    Shows f (Condition.group c).text names := by
  rw [Condition.text_group]
  exact (h.wrapped (by decide) (by decide)).2

theorem shows_negation {c : Condition} {names : List String} (h : Shows f c.text names) :
    Stands f.dialect c.text (Condition.negation c).text ∧ Shows f (Condition.negation c).text names := by
  rw [Condition.text_negation]
  exact h.wrapped (by decide) (by decide)

/-- Each condition shows its part of the names. -/
inductive ShowsAll (f : Formatter) : List Condition → List String → Prop where
  | nil : ShowsAll f [] []
  | cons {c : Condition} {cs : List Condition} {names more : List String} (h : Shows f c.text names)
    (hs : ShowsAll f cs more) : ShowsAll f (c :: cs) (names ++ more)

namespace ShowsAll

variable {cs : List Condition} {names : List String}

theorem closed (h : ShowsAll f cs names) : ∀ text ∈ cs.map Condition.text, Closed f.dialect text := by
  induction h with
  | nil => exact List.forall_mem_nil _
  | cons h _ ih => exact List.forall_mem_cons.2 ⟨h.closed, ih⟩

theorem groups (h : ShowsAll f cs names) : ShowsAll f (cs.map Condition.group) names := by
  induction h with
  | nil => exact .nil
  | cons h _ ih => exact .cons (shows_group h) ih

theorem exists_stands (h : ShowsAll f cs names) :
    ∀ name ∈ names, ∃ c ∈ cs, Stands f.dialect (f.style.name name) c.text := by
  induction h with
  | nil => exact List.forall_mem_nil _
  | @cons c cs _ _ h _ ih =>
    intro name hn
    rcases List.mem_append.1 hn with hn | hn
    · exact ⟨c, List.mem_cons_self, h.stands name hn⟩
    · obtain ⟨c', hc', hstands⟩ := ih name hn
      exact ⟨c', List.mem_cons_of_mem c hc', hstands⟩

theorem chain (h : ShowsAll f cs names) (op : Connective) :
    (∀ c ∈ cs, Stands f.dialect c.text (Condition.chain op cs).text) ∧ Shows f (Condition.chain op cs).text names := by
  have hcarries : Carries f.dialect (Condition.chain op cs).text (cs.map Condition.text) := by
    rw [Condition.text_chain]
    exact carries_joinWith h.closed (by cases op <;> decide)
  have hstands : ∀ c ∈ cs, Stands f.dialect c.text (Condition.chain op cs).text :=
    fun c hc => hcarries.stands _ (List.mem_map_of_mem hc)
  refine ⟨hstands, hcarries.closed, fun name hn => ?_⟩
  obtain ⟨c, hc, hname⟩ := h.exists_stands name hn
  exact hname.trans (hstands c hc)

end ShowsAll

/-! ### Fields -/

theorem isOperatorKey_of_ofKey? {key : String} {m : Method} (h : Method.ofKey? key = some m) :
    isOperatorKey key = true := by
  obtain rfl : m.key = key := by simpa using List.find?_some h
  exact isOperatorKey_dollar m.name

theorem isOperatorKey_of_lookup {key symbol : String} (h : Formatter.comparisonSymbols.lookup key = some symbol) :
    isOperatorKey key = true := by
  have hkeys : Formatter.comparisonSymbols.all (fun entry => isOperatorKey entry.1) = true := by decide
  obtain ⟨l₁, l₂, hl, -⟩ := List.lookup_eq_some_iff.1 h
  exact List.all_eq_true.1 hkeys (key, symbol) (by simp [hl])

/-- The condition has the column, and shows the names of what the column is compared with. -/
structure ShowsField (f : Formatter) (column : String) (c : Condition) (names : List String) : Prop where
  column : Stands f.dialect column c.text
  shows : Shows f c.text names

/-- The names of an entry whose key is an operator are among those of its value. -/
theorem entryNames_subset_shown {key : String} (hk : isOperatorKey key = true) (arg : Value) :
    entryNames key ((operands arg).map Value.shown) ⊆ arg.shown := by
  rw [arg.shown_eq_flatten]
  exact entryNames_subset hk _

/-- A column and an operand of a match or a comparison. -/
theorem showsField_leaf {column sql right : String} {names : List String} (hs : Carries f.dialect sql [right, column])
    (hr : Shows f right names) : ShowsField f column (.leaf sql) names := by
  constructor
  · rw [Condition.text_leaf]
    exact hs.stands column (by simp)
  · rw [Condition.text_leaf]
    exact ⟨hs.closed, hr.of_stands (hs.stands right (by simp))⟩

theorem showsField_like {column : String} (hc : Closed f.dialect column) (p : LikePattern) :
    ShowsField f column (.leaf (column ++ " LIKE " ++ p.operand f.dialect)) [] := by
  have hp : Closed f.dialect (p.operand f.dialect) := (balanced_operand p f.dialect).closed
  exact showsField_leaf (carries_pair hc hp (by decide)) ⟨hp, List.forall_mem_nil _⟩

theorem showsField_comparison {column key symbol right : String} {arg : Value}
    (hsymbol : Formatter.comparisonSymbols.lookup key = some symbol) (hc : Closed f.dialect column)
    (hr : Shows f right arg.shown) :
    ShowsField f column (.leaf (Formatter.comparison key symbol column arg right)) arg.shown := by
  obtain ⟨hcarries, hright⟩ := carries_comparison hsymbol hc hr.closed arg
  refine ⟨?_, ?_⟩ <;> rw [Condition.text_leaf]
  · exact hcarries.stands column (List.mem_singleton_self column)
  · refine ⟨hcarries.closed, fun name hn => ?_⟩
    have hnull : arg.isNull = false := by
      cases arg with
      | null => cases hn
      | _ => rfl
    exact hr.of_stands (hright hnull) name hn

theorem showsField_fieldOperator {column key : String} {arg : Value} {c : Condition}
    {condition : String → Except FormatError Condition} (hc : Closed f.dialect column) (ha : ShowsOn f arg)
    (hcondition : ∀ {column : String} {c : Condition}, Closed f.dialect column → condition column = .ok c →
      ShowsField f column c arg.shown)
    (h : f.fieldOperator f.plainScope column key arg condition = .ok c) :
    ShowsField f column c (entryNames key ((operands arg).map Value.shown)) := by
  have hmono : isOperatorKey key = true → ShowsField f column c arg.shown →
      ShowsField f column c (entryNames key ((operands arg).map Value.shown)) :=
    fun hk hs => ⟨hs.column, hs.shows.mono (entryNames_subset_shown hk arg)⟩
  unfold Formatter.fieldOperator at h
  split at h
  · next hkey =>
    obtain ⟨inner, hinner, h⟩ := bind_eq_ok.1 h
    cases h
    have hs := hcondition hc hinner
    obtain ⟨hstands, hshows⟩ := shows_negation hs.shows
    exact hmono (by rw [hkey]; decide) ⟨hs.column.trans hstands, hshows⟩
  · split at h
    · next hkey =>
      obtain ⟨list, hlist, h⟩ := bind_eq_ok.1 h
      cases h
      have hs := ha.value hlist
      exact hmono (by rcases hkey with rfl | rfl <;> decide) (showsField_leaf (carries_in key hc hs.closed) hs)
    · split at h
      · next hkey =>
        split at h
        · cases h
          exact hmono (by rw [hkey]; decide) (showsField_like hc _)
        · cases h
      · split at h
        · next hkey =>
          split at h
          · cases h
            rw [hkey]
            exact showsField_like hc _
          · cases h
        · split at h
          · next symbol hsymbol =>
            obtain ⟨right, hright, h⟩ := bind_eq_ok.1 h
            cases h
            exact hmono (isOperatorKey_of_lookup hsymbol) (showsField_comparison hsymbol hc (ha.value hright))
          · split at h
            · next wrapped hwrapped =>
              obtain ⟨m, hm, hcall⟩ := Option.bind_eq_some_iff.1 hwrapped
              have hcarries := carries_unaryCall? hc hcall
              have hs := hcondition hcarries.closed h
              exact hmono (isOperatorKey_of_ofKey? hm)
                ⟨(hcarries.stands column (List.mem_singleton_self column)).trans hs.column, hs.shows⟩
            · cases h

theorem showsField_scalar {column : String} {value : Value} {c : Condition} (hv : value.isScalar = true)
    (hc : Closed f.dialect column) (ha : ShowsOn f value)
    (h : f.fieldCondition f.plainScope column value = .ok c) : ShowsField f column c value.shown := by
  have hoperator : f.fieldOperator f.plainScope column "$eq" value (fun _ => .error .emptyUpdate) = .ok c :=
    (fieldCondition_of_isScalar hv).symm.trans h
  have hs := showsField_fieldOperator hc ha (fun _ h => by cases h) hoperator
  rwa [entryNames_operands (by decide) (by decide) (by decide)] at hs

mutual

theorem shows_fieldCondition (hf : '\x27' ∉ f.style.nameFormat.toList) : (value : Value) →
    Unquoted value.names → ∀ {column : String} {c : Condition}, Closed f.dialect column →
    f.fieldCondition f.plainScope column value = .ok c → ShowsField f column c value.shown
  | .object entries, hn, column, c, hc, h => by
    rw [Value.names] at hn
    rw [Formatter.fieldCondition] at h
    obtain ⟨cs, hcs, h⟩ := bind_eq_ok.1 h
    split at h
    · cases h
    · next hne =>
      cases h
      obtain ⟨hcolumn, hall⟩ := shows_fieldOperators hf entries hn hc hcs
      obtain ⟨hstands, hshows⟩ := hall.chain .and
      rw [Value.shown]
      cases cs with
      | nil => exact absurd rfl hne
      | cons first rest =>
        have hfirst : first ∈ first :: rest := List.mem_cons_self
        exact ⟨(hcolumn first hfirst).trans (hstands first hfirst), hshows⟩
  | .array items, hn, column, c, hc, h => by
    have hoperator : f.fieldOperator f.plainScope column "$in" (.array items) (fun _ => .error .emptyUpdate) = .ok c :=
      fieldCondition_array.symm.trans h
    have hs := showsField_fieldOperator hc (showsOn hf _ hn) (fun _ h => by cases h) hoperator
    rwa [entryNames_operands (by decide) (by decide) (by decide)] at hs
  | .null, hn, _, _, hc, h | .bool _, hn, _, _, hc, h | .int _, hn, _, _, hc, h | .float _, hn, _, _, hc, h
  | .string _, hn, _, _, hc, h | .date _, hn, _, _, hc, h | .ref _, hn, _, _, hc, h =>
    showsField_scalar rfl hc (showsOn hf _ hn) h

theorem shows_fieldOperators (hf : '\x27' ∉ f.style.nameFormat.toList) : (entries : List (String × Value)) →
    Unquoted (Value.namesUnder entries) → ∀ {column : String} {cs : List Condition},
    Closed f.dialect column → f.fieldOperators f.plainScope column entries = .ok cs →
    (∀ c ∈ cs, Stands f.dialect column c.text) ∧ ShowsAll f cs (Value.shownUnder entries)
  | [], _, column, cs, _, h => by
    rw [Formatter.fieldOperators] at h
    cases h
    rw [Value.shownUnder]
    exact ⟨List.forall_mem_nil _, .nil⟩
  | (key, arg) :: rest, hn, column, cs, hc, h => by
    rw [Value.namesUnder] at hn
    obtain ⟨harg, hrest⟩ := List.forall_mem_append.1 (List.forall_mem_cons.1 hn).2
    rw [Formatter.fieldOperators] at h
    rw [Value.shownUnder_cons]
    split at h
    · next hkey =>
      have hnames : entryNames key ((operands arg).map Value.shown) = [] := by
        rw [hkey]
        exact if_pos (by decide)
      rw [hnames, List.nil_append]
      exact shows_fieldOperators hf rest hrest hc h
    · obtain ⟨c, hc', h⟩ := bind_eq_ok.1 h
      obtain ⟨more, hmore, h⟩ := bind_eq_ok.1 h
      cases h
      have hs := showsField_fieldOperator hc (showsOn hf arg harg)
        (fun hc h => shows_fieldCondition hf arg harg hc h) hc'
      obtain ⟨hcolumn, hall⟩ := shows_fieldOperators hf rest hrest hc hmore
      exact ⟨List.forall_mem_cons.2 ⟨hs.column, hcolumn⟩, .cons hs.shows hall⟩

end

/-! ### Filters -/

theorem shows_conjunction {filter : Value} {cs : List Condition} {c : Condition} {names : List String}
    (hcs : ShowsAll f cs names) (h : Formatter.conjunction filter cs = .ok c) : Shows f c.text names := by
  unfold Formatter.conjunction at h
  split at h
  · cases h
  · cases h
    cases hcs with
    | cons hc hnil =>
      cases hnil
      rwa [List.append_nil]
  · cases h
    exact (hcs.groups.chain .and).2

/-- An entry, given what the filters under a logical operator show. -/
theorem shows_filterEntry {key : String} {value : Value} {c : Condition}
    {group : Unit → Except FormatError (List Condition)} (hf : '\x27' ∉ f.style.nameFormat.toList)
    (hkey : '\x27' ∉ key.toList) (hn : Unquoted value.names)
    (hgroup : ∀ {cs : List Condition}, group () = .ok cs → ShowsAll f cs value.shown)
    (h : f.filterEntry f.plainScope key value group = .ok c) :
    Shows f c.text (entryNames key ((operands value).map Value.shown)) := by
  have hchain : ∀ (op : Connective) {cs : List Condition}, group () = .ok cs →
      Shows f (Condition.chain op (cs.map Condition.group)).text value.shown :=
    fun op _ hcs => ((hgroup hcs).groups.chain op).2
  unfold Formatter.filterEntry at h
  split at h
  · next hk =>
    obtain ⟨cs, hcs, h⟩ := bind_eq_ok.1 h
    cases h
    exact (hchain .and hcs).mono (entryNames_subset_shown (by rw [hk]; decide) value)
  · split at h
    · next hk =>
      obtain ⟨cs, hcs, h⟩ := bind_eq_ok.1 h
      cases h
      exact (hchain .or hcs).mono (entryNames_subset_shown (by rw [hk]; decide) value)
    · split at h
      · next hk =>
        obtain ⟨cs, hcs, h⟩ := bind_eq_ok.1 h
        cases h
        exact (shows_negation (hchain .and hcs)).2.mono (entryNames_subset_shown (by rw [hk]; decide) value)
      · split at h
        · next hk =>
          obtain ⟨cs, hcs, h⟩ := bind_eq_ok.1 h
          cases h
          exact (shows_negation (hchain .or hcs)).2.mono (entryNames_subset_shown (by rw [hk]; decide) value)
        · split at h
          · obtain ⟨sql, hsql, h⟩ := bind_eq_ok.1 h
            cases h
            have hs := shows_entry (showsOn hf value hn) hsql
            rw [Value.shown, Value.shownUnder_cons, Value.shownUnder, List.append_nil] at hs
            rwa [Condition.text_leaf]
          · next hk =>
            obtain ⟨column, hcolumn, h⟩ := bind_eq_ok.1 h
            cases hcolumn
            have hname := shows_name hf hkey
            have hs := shows_fieldCondition hf value hn hname.closed h
            refine ⟨hs.shows.closed, fun name hmem => ?_⟩
            rcases mem_entryNames hmem with ⟨rfl, -⟩ | hmem
            · exact hs.column
            · exact hs.shows.stands name (value.shown_eq_flatten ▸ hmem)

mutual

theorem shows_filterIn (hf : '\x27' ∉ f.style.nameFormat.toList) : (value : Value) →
    Unquoted value.names → ∀ {c : Condition}, f.filterIn f.plainScope value = .ok c →
    Shows f c.text value.shown
  | .object entries, hn, c, h => by
    rw [Value.names] at hn
    rw [Formatter.filterIn] at h
    obtain ⟨cs, hcs, h⟩ := bind_eq_ok.1 h
    rw [Value.shown]
    exact shows_conjunction (shows_filterEntries hf entries hn hcs) h
  | .null, _, _, h | .bool _, _, _, h | .int _, _, _, h | .float _, _, _, h | .string _, _, _, h | .date _, _, _, h
  | .ref _, _, _, h | .array _, _, _, h => by
    rw [Formatter.filterIn.eq_def] at h
    cases h

theorem shows_filterEntries (hf : '\x27' ∉ f.style.nameFormat.toList) : (entries : List (String × Value)) →
    Unquoted (Value.namesUnder entries) → ∀ {cs : List Condition},
    f.filterEntries f.plainScope entries = .ok cs → ShowsAll f cs (Value.shownUnder entries)
  | [], _, cs, h => by
    rw [Formatter.filterEntries] at h
    cases h
    rw [Value.shownUnder]
    exact .nil
  | (key, value) :: rest, hn, cs, h => by
    rw [Value.namesUnder] at hn
    obtain ⟨hkey, hn⟩ := List.forall_mem_cons.1 hn
    obtain ⟨hvalue, hrest⟩ := List.forall_mem_append.1 hn
    rw [Formatter.filterEntries] at h
    obtain ⟨c, hc, h⟩ := bind_eq_ok.1 h
    obtain ⟨more, hmore, h⟩ := bind_eq_ok.1 h
    cases h
    rw [Value.shownUnder_cons]
    exact .cons (shows_filterEntry hf hkey hvalue (fun h => shows_filterGroup hf key value hvalue h) hc)
      (shows_filterEntries hf rest hrest hmore)

theorem shows_filterGroup (hf : '\x27' ∉ f.style.nameFormat.toList) (key : String) : (value : Value) →
    Unquoted value.names → ∀ {cs : List Condition},
    f.filterGroup f.plainScope key value = .ok cs → ShowsAll f cs value.shown
  | .array (item :: items), hn, cs, h => by
    rw [Value.names] at hn
    rw [Formatter.filterGroup.eq_def] at h
    rw [Value.shown, Value.shownEach_eq_map]
    exact shows_filterItems hf (item :: items) hn h
  | .object entries, hn, cs, h => by
    rw [Value.names] at hn
    rw [Formatter.filterGroup] at h
    obtain ⟨conditions, hconditions, h⟩ := bind_eq_ok.1 h
    obtain ⟨c, hc, h⟩ := bind_eq_ok.1 h
    cases h
    have hs := ShowsAll.cons (shows_conjunction (shows_filterEntries hf entries hn hconditions) hc) .nil
    rwa [List.append_nil, ← Value.shown] at hs
  | .array [], _, _, h
  | .null, _, _, h | .bool _, _, _, h | .int _, _, _, h | .float _, _, _, h | .string _, _, _, h | .date _, _, _, h
  | .ref _, _, _, h => by
    rw [Formatter.filterGroup.eq_def] at h
    cases h

theorem shows_filterItems (hf : '\x27' ∉ f.style.nameFormat.toList) : (items : List Value) →
    Unquoted (Value.namesOf items) → ∀ {cs : List Condition},
    f.filterItems f.plainScope items = .ok cs → ShowsAll f cs (items.map Value.shown).flatten
  | [], _, cs, h => by
    rw [Formatter.filterItems] at h
    cases h
    exact .nil
  | item :: items, hn, cs, h => by
    rw [Value.namesOf] at hn
    obtain ⟨hitem, hitems⟩ := List.forall_mem_append.1 hn
    rw [Formatter.filterItems] at h
    obtain ⟨c, hc, h⟩ := bind_eq_ok.1 h
    obtain ⟨more, hmore, h⟩ := bind_eq_ok.1 h
    cases h
    exact .cons (shows_filterIn hf item hitem hc) (shows_filterItems hf items hitems hmore)

end

end

end Sql

end SqlQuery
