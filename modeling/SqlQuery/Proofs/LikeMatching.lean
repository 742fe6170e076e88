import Mathlib
import SqlQuery.Proofs.LiteralReading
import SqlQuery.Sql.Like

/-!
# What LIKE matches

The operand of LIKE is read as a database reads it: the literal of the pattern by the rule of the dialect, the escape
character from the clause that may follow, and the pattern item by item (`LikeRules.holds?`). Under the rules of
standard SQL the operand of a text matches the text itself, with open ends as asked for (`operand_matches_literally`). A
database that takes a backslash for an escape character where no clause names one reads some texts otherwise, because
the clause is left out where the text has no wildcards (`operand_literal_iff`).
-/

namespace SqlQuery.Sql

/-! ### Patterns -/

/-- How a database reads patterns. -/
structure LikeRules where
  /-- The escape character where no clause names one. -/
  escape : Option Char
  /-- An escape character at the end of a pattern stands for itself. Without this rule the pattern is refused. -/
  looseEnd : Bool

/-- Standard SQL: only a clause gives an escape character. -/
def LikeRules.standard : LikeRules := ⟨none, false⟩

/-- The rules of the databases that the dialects are written for. -/
def Dialect.likeRules : Dialect → LikeRules
  | .mysql => ⟨some '\\', true⟩
  | .postgres => ⟨some '\\', false⟩
  | .sqlite => .standard

/-- An item of a pattern: a character, any one character, or any number of them. -/
inductive LikeItem where
  | char (c : Char)
  | one
  | many

namespace LikeItem

/-- The item of a character that is not escaped. -/
def ofChar (c : Char) : LikeItem := if c = '%' then .many else if c = '_' then .one else .char c

/-- Whether items match a text. -/
def fits : List LikeItem → List Char → Bool
  | [], text => text.isEmpty
  | .char _ :: _, [] => false
  | .char c :: items, x :: text => x = c && fits items text
  | .one :: _, [] => false
  | .one :: items, _ :: text => fits items text
  | .many :: items, text => text.tails.any (fits items)

theorem fits_chars (cs : List Char) (items : List LikeItem) (text : List Char) :
    fits (cs.map .char ++ items) text = true ↔ ∃ rest, text = cs ++ rest ∧ fits items rest = true := by
  induction cs generalizing text with
  | nil => simp
  | cons c cs ih =>
    cases text with
    | nil => simp [fits]
    | cons x text =>
      rw [List.map_cons, List.cons_append, fits, Bool.and_eq_true, decide_eq_true_eq, ih]
      constructor
      · rintro ⟨rfl, rest, rfl, hrest⟩
        exact ⟨rest, rfl, hrest⟩
      · rintro ⟨rest, heq, hrest⟩
        obtain ⟨rfl, rfl⟩ := List.cons.inj heq
        exact ⟨rfl, rest, rfl, hrest⟩

theorem fits_many (items : List LikeItem) (text : List Char) :
    fits (.many :: items) text = true ↔ ∃ front rest, text = front ++ rest ∧ fits items rest = true := by
  rw [fits, List.any_eq_true]
  constructor
  · rintro ⟨rest, hmem, hrest⟩
    obtain ⟨front, rfl⟩ := (List.mem_tails _ _).1 hmem
    exact ⟨front, rest, rfl, hrest⟩
  · rintro ⟨front, rest, rfl, hrest⟩
    exact ⟨rest, (List.mem_tails _ _).2 ⟨front, rfl⟩, hrest⟩

end LikeItem

namespace LikeRules

variable {rules : LikeRules} {escape : Option Char}

/-- The items of a pattern. An escaped character stands for itself. -/
def items? (rules : LikeRules) (escape : Option Char) : List Char → Option (List LikeItem)
  | [] => some []
  | [c] => if some c = escape then (if rules.looseEnd then some [.char c] else none) else some [.ofChar c]
  | c :: x :: cs =>
    if some c = escape then (items? rules escape cs).map (.char x :: ·)
    else (items? rules escape (x :: cs)).map (.ofChar c :: ·)

theorem items?_of_ne {c : Char} (h : some c ≠ escape) (cs : List Char) :
    rules.items? escape (c :: cs) = (rules.items? escape cs).map (.ofChar c :: ·) := by
  cases cs <;> simp [items?, h]

theorem items?_escaped (c x : Char) (cs : List Char) :
    rules.items? (some c) (c :: x :: cs) = (rules.items? (some c) cs).map (.char x :: ·) := by
  rw [items?, if_pos rfl]

end LikeRules

/-! ### Operands -/

/-- A pattern, with the escape character that a clause names. -/
structure LikeOperand where
  pattern : List Char
  escape : Option Char

/-- The operand of a literal, and of a clause after it with a literal of one character. -/
def LikeOperand.ofTokens? : List Token → Option LikeOperand
  | .literal pattern :: clause =>
    match clause.getLast? with
    | none => some ⟨pattern, none⟩
    | some (.literal [c]) =>
      if clause.dropLast = " ESCAPE ".toList.map .char then some ⟨pattern, some c⟩ else none
    | some _ => none
  | _ => none

/-- Whether a text is LIKE an operand, by the rules of a database. There is no answer if the operand is refused. -/
def LikeRules.holds? (rules : LikeRules) (d : Dialect) (operand text : String) : Option Bool := do
  let tokens ← d.tokens? operand
  let operand ← LikeOperand.ofTokens? tokens
  let items ← rules.items? (operand.escape <|> rules.escape) operand.pattern
  return LikeItem.fits items text.toList

namespace LikePattern

/-- The texts that are asked for: the text itself, or with more before and after it where it is open. -/
def Admits (p : LikePattern) (x : String) : Prop :=
  match p.openStart, p.openEnd with
  | false, false => x = p.text
  | false, true => p.text.toList <+: x.toList
  | true, false => p.text.toList <:+ x.toList
  | true, true => p.text.toList <:+: x.toList

instance : (p : LikePattern) → (x : String) → Decidable (p.Admits x)
  | ⟨false, text, false⟩, x => inferInstanceAs (Decidable (x = text))
  | ⟨false, text, true⟩, x => inferInstanceAs (Decidable (text.toList <+: x.toList))
  | ⟨true, text, false⟩, x => inferInstanceAs (Decidable (text.toList <:+ x.toList))
  | ⟨true, text, true⟩, x => inferInstanceAs (Decidable (text.toList <:+: x.toList))

variable {p : LikePattern}

theorem admits_iff {x : String} : p.Admits x ↔ ∃ front rest, x.toList = front ++ (p.text.toList ++ rest) ∧
    (p.openStart = false → front = []) ∧ (p.openEnd = false → rest = []) := by
  obtain ⟨openStart, text, openEnd⟩ := p
  unfold Admits
  cases openStart <;> cases openEnd
  · simp [String.toList_inj]
  · simp [List.IsPrefix, eq_comm]
  · simp [List.IsSuffix, eq_comm]
  · simp [List.IsInfix, eq_comm]

/-- The items that stand for the pattern. -/
def items (p : LikePattern) : List LikeItem :=
  (if p.openStart then [.many] else []) ++ (p.text.toList.map .char ++ if p.openEnd then [.many] else [])

/-- What is left after the text is matched by the end of the pattern. -/
theorem fits_end (openEnd : Bool) (rest : List Char) :
    LikeItem.fits (if openEnd then [.many] else []) rest = true ↔ (openEnd = false → rest = []) := by
  cases openEnd with
  | false => simp [LikeItem.fits]
  | true =>
    rw [if_pos rfl, LikeItem.fits_many]
    exact ⟨fun _ h => (Bool.noConfusion h), fun _ => ⟨rest, [], by simp, rfl⟩⟩

theorem fits_items (p : LikePattern) (x : String) : LikeItem.fits p.items x.toList = decide (p.Admits x) := by
  have htext : ∀ text, LikeItem.fits (p.text.toList.map .char ++ if p.openEnd then [.many] else []) text = true ↔
      ∃ rest, text = p.text.toList ++ rest ∧ (p.openEnd = false → rest = []) := by
    intro text
    rw [LikeItem.fits_chars]
    simp only [fits_end]
  rw [Bool.eq_iff_iff, decide_eq_true_iff, admits_iff, items]
  cases hopen : p.openStart with
  | false =>
    rw [if_neg Bool.false_ne_true, List.nil_append, htext]
    constructor
    · rintro ⟨rest, hx, hrest⟩
      exact ⟨[], rest, hx, fun _ => rfl, hrest⟩
    · rintro ⟨front, rest, hx, hfront, hrest⟩
      rw [hfront rfl, List.nil_append] at hx
      exact ⟨rest, hx, hrest⟩
  | true =>
    rw [if_pos rfl, List.singleton_append, LikeItem.fits_many]
    constructor
    · rintro ⟨front, text, hx, hfits⟩
      obtain ⟨rest, rfl, hrest⟩ := (htext text).1 hfits
      exact ⟨front, rest, hx, fun h => Bool.noConfusion h, hrest⟩
    · rintro ⟨front, rest, hx, -, hrest⟩
      exact ⟨front, _, hx, (htext _).2 ⟨rest, rfl, hrest⟩⟩

/-! ### The operand of a pattern -/

/-- The character that the operand's clause names, if it has a clause. -/
def clauseEscape (p : LikePattern) : Option Char := if p.text.toList.any isSpecial then some escapeChar else none

theorem reads_operand (p : LikePattern) (d : Dialect) :
    (d.tokens? (p.operand d)).bind LikeOperand.ofTokens? = some ⟨p.chars, p.clauseEscape⟩ := by
  have hpattern := Reads.quote d (String.ofList p.chars)
  rw [String.toList_ofList] at hpattern
  unfold operand clauseEscape
  cases p.text.toList.any isSpecial with
  | false =>
    rw [if_neg Bool.false_ne_true, if_neg Bool.false_ne_true, String.append_empty, hpattern.tokens?]
    rfl
  | true =>
    have hchar := Reads.quote d "!"
    have hclause := hpattern.append_plain " ESCAPE ".toList (by decide) (by decide) hchar
    have htext : (d.quote (String.ofList p.chars) ++ " ESCAPE '!'").toList =
        (d.quote (String.ofList p.chars)).toList ++ " ESCAPE ".toList ++ (d.quote "!").toList := by
      cases d <;> simp [String.toList_append, Dialect.quote] <;> decide
    rw [← htext] at hclause
    rw [if_pos rfl, if_pos rfl, hclause.tokens?]
    rfl

theorem chars_eq_of_operand_eq {q : LikePattern} {d : Dialect} (h : p.operand d = q.operand d) : p.chars = q.chars := by
  have hread := reads_operand p d
  rw [h, reads_operand q d] at hread
  exact congrArg LikeOperand.pattern (Option.some.inj hread).symm

theorem holds?_eq (rules : LikeRules) (d : Dialect) (p : LikePattern) (x : String) :
    rules.holds? d (p.operand d) x =
      (rules.items? (p.clauseEscape <|> rules.escape) p.chars).map fun items => LikeItem.fits items x.toList := by
  have hread := reads_operand p d
  obtain ⟨tokens, htokens, hoperand⟩ := Option.bind_eq_some_iff.1 hread
  rw [LikeRules.holds?, htokens]
  simp only [Option.bind_eq_bind, Option.bind_some, hoperand]
  cases rules.items? (p.clauseEscape <|> rules.escape) p.chars <;> rfl

/-! ### Reading the pattern -/

theorem ofChar_of_not_special {c : Char} (h : isSpecial c = false) : LikeItem.ofChar c = .char c := by
  simp only [isSpecial, Bool.or_eq_false_iff, decide_eq_false_iff_not] at h
  rw [LikeItem.ofChar, if_neg h.1.1, if_neg h.1.2]

/-- The escaped text is read as the text where the clause names its escape character. -/
theorem items?_flatMap_escape (rules : LikeRules) (cs rest : List Char) :
    rules.items? (some escapeChar) (cs.flatMap escape ++ rest) =
      (rules.items? (some escapeChar) rest).map (cs.map .char ++ ·) := by
  induction cs with
  | nil => simp
  | cons c cs ih =>
    rw [List.flatMap_cons, List.append_assoc, escape]
    cases hc : isSpecial c with
    | true =>
      rw [if_pos rfl, List.cons_append, List.singleton_append, LikeRules.items?_escaped, ih, Option.map_map]
      rfl
    | false =>
      have hne : some c ≠ some escapeChar := by
        rintro h
        rw [Option.some.inj h] at hc
        cases hc
      rw [if_neg Bool.false_ne_true, List.singleton_append, LikeRules.items?_of_ne hne, ih, ofChar_of_not_special hc,
        Option.map_map]
      rfl

theorem flatMap_escape_of_not_special {cs : List Char} (h : cs.any isSpecial = false) : cs.flatMap escape = cs := by
  induction cs with
  | nil => rfl
  | cons c cs ih =>
    rw [List.any_cons, Bool.or_eq_false_iff] at h
    rw [List.flatMap_cons, ih h.2, escape, h.1]
    rfl

/-- What a text stands for where a backslash escapes the character after it, and whether the last backslash is left to
escape what follows the text. -/
def unescape : List Char → List Char × Bool
  | [] => ([], false)
  | [c] => if c = '\\' then ([], true) else ([c], false)
  | c :: x :: cs =>
    if c = '\\' then (x :: (unescape cs).1, (unescape cs).2)
    else (c :: (unescape (x :: cs)).1, (unescape (x :: cs)).2)

/-- A text without wildcards is read as what it stands for, and its last backslash with what follows. -/
theorem items?_unescape (rules : LikeRules) {cs : List Char} (h : cs.any isSpecial = false) (rest : List Char) :
    rules.items? (some '\\') (cs ++ rest) =
      (rules.items? (some '\\') ((if (unescape cs).2 then ['\\'] else []) ++ rest)).map
        ((unescape cs).1.map .char ++ ·) := by
  fun_induction unescape cs with
  | case1 => simp
  | case2 => simp
  | case3 c hc =>
    rw [List.any_cons, Bool.or_eq_false_iff] at h
    have hne : some c ≠ some '\\' := fun heq => hc (Option.some.inj heq)
    rw [List.singleton_append, LikeRules.items?_of_ne hne, ofChar_of_not_special h.1]
    simp
  | case4 x cs ih =>
    rw [List.any_cons, List.any_cons, Bool.or_eq_false_iff, Bool.or_eq_false_iff] at h
    rw [List.cons_append, List.cons_append, LikeRules.items?_escaped, ih h.2.2, Option.map_map]
    rfl
  | case5 c x cs hc ih =>
    rw [List.any_cons, Bool.or_eq_false_iff] at h
    have hne : some c ≠ some '\\' := fun heq => hc (Option.some.inj heq)
    rw [List.cons_append, LikeRules.items?_of_ne hne, ofChar_of_not_special h.1, ih h.2, Option.map_map]
    rfl

theorem items?_of_not_special (rules : LikeRules) {cs : List Char} (h : cs.any isSpecial = false) (rest : List Char) :
    rules.items? none (cs ++ rest) = (rules.items? none rest).map (cs.map .char ++ ·) := by
  induction cs with
  | nil => simp
  | cons c cs ih =>
    rw [List.any_cons, Bool.or_eq_false_iff] at h
    rw [List.cons_append, LikeRules.items?_of_ne (Option.some_ne_none c), ih h.2, ofChar_of_not_special h.1,
      Option.map_map]
    rfl

/-- A wildcard at the start is read as such, unless it is the escape character. -/
theorem items?_chars (rules : LikeRules) {escape : Option Char} (h : some '%' ≠ escape) (p : LikePattern) :
    rules.items? escape p.chars =
      (rules.items? escape (p.text.toList.flatMap LikePattern.escape ++ if p.openEnd then ['%'] else [])).map
        ((if p.openStart then [.many] else []) ++ ·) := by
  rw [chars, List.append_assoc]
  cases p.openStart with
  | false => simp
  | true =>
    rw [if_pos rfl, List.singleton_append, LikeRules.items?_of_ne h]
    rfl

theorem items?_end (rules : LikeRules) {escape : Option Char} (h : some '%' ≠ escape) (openEnd : Bool) :
    rules.items? escape (if openEnd then ['%'] else []) = some (if openEnd then [.many] else []) := by
  cases openEnd with
  | false => rfl
  | true =>
    rw [if_pos rfl, LikeRules.items?_of_ne h]
    rfl

/-- With a clause, or where nothing else gives an escape character, the pattern is read as it is meant. -/
theorem items?_clauseEscape (rules : LikeRules) (p : LikePattern) :
    rules.items? p.clauseEscape p.chars = some p.items := by
  unfold clauseEscape
  cases hs : p.text.toList.any isSpecial with
  | true =>
    rw [if_pos rfl, items?_chars rules (by decide), items?_flatMap_escape, items?_end rules (by decide)]
    rfl
  | false =>
    rw [if_neg Bool.false_ne_true, items?_chars rules (by decide), flatMap_escape_of_not_special hs,
      items?_of_not_special rules hs, items?_end rules (by decide)]
    rfl

end LikePattern

/-- The operand of a text matches what starts with it, ends with it, contains it or equals it, as the open ends say. The
literals of the operand are read by the rule of the dialect, and the pattern by the rules of standard SQL. -/
theorem operand_matches_literally (p : LikePattern) (d : Dialect) (x : String) :
    LikeRules.standard.holds? d (p.operand d) x = some (decide (p.Admits x)) := by
  have hescape : (p.clauseEscape <|> LikeRules.standard.escape) = p.clauseEscape := by
    cases p.clauseEscape <;> rfl
  rw [LikePattern.holds?_eq, hescape, LikePattern.items?_clauseEscape, Option.map_some, LikePattern.fits_items]

-- wildcards, quotes and backslashes together
example : LikeRules.standard.holds? .mysql (LikePattern.operand ⟨true, "100%_\\'!", false⟩ .mysql) "a 100%_\\'!" =
    some true := by decide

/-! ### Backslashes -/

namespace LikePattern

variable {p : LikePattern} {d : Dialect}

/-- The pattern that is matched where a backslash escapes the character after it. Before an open end it escapes the
wildcard. -/
def backslashed (p : LikePattern) (looseEnd : Bool) : Option LikePattern :=
  match unescape p.text.toList, p.openEnd, looseEnd with
  | (text, false), openEnd, _ => some ⟨p.openStart, String.ofList text, openEnd⟩
  | (text, true), true, _ => some ⟨p.openStart, String.ofList (text ++ ['%']), false⟩
  | (text, true), false, true => some ⟨p.openStart, String.ofList (text ++ ['\\']), false⟩
  | (_, true), false, false => none

/-- The pattern that a database of the dialect matches. -/
def takenBy (p : LikePattern) (d : Dialect) : Option LikePattern :=
  if d = .sqlite ∨ p.text.toList.any isSpecial = true then some p else p.backslashed d.likeRules.looseEnd

theorem items?_backslashed (rules : LikeRules) {p : LikePattern} (h : p.text.toList.any isSpecial = false) :
    rules.items? (some '\\') p.chars = (p.backslashed rules.looseEnd).map items := by
  have hwildcard : rules.items? (some '\\') ['\\', '%'] = some [.char '%'] := LikeRules.items?_escaped '\\' '%' []
  have hend : rules.items? (some '\\') ['\\'] = if rules.looseEnd then some [.char '\\'] else none := if_pos rfl
  unfold backslashed
  rw [items?_chars rules (by decide), flatMap_escape_of_not_special h, items?_unescape rules h]
  obtain ⟨text, left⟩ := unescape p.text.toList
  cases left with
  | false =>
    rw [if_neg Bool.false_ne_true, List.nil_append, items?_end rules (by decide)]
    simp [items]
  | true =>
    cases p.openEnd with
    | true => simp [hwildcard, items]
    | false => cases hloose : rules.looseEnd <;> simp [hend, hloose, items]

/-- A database of the dialect matches the pattern that it takes the operand for. -/
theorem holds?_takenBy (p : LikePattern) (d : Dialect) (x : String) :
    d.likeRules.holds? d (p.operand d) x = (p.takenBy d).map fun taken => decide (taken.Admits x) := by
  have hitems : d.likeRules.items? (p.clauseEscape <|> d.likeRules.escape) p.chars = (p.takenBy d).map items := by
    cases hs : p.text.toList.any isSpecial with
    | true =>
      have hescape : (p.clauseEscape <|> d.likeRules.escape) = p.clauseEscape := by
        rw [clauseEscape, hs]
        rfl
      rw [hescape, items?_clauseEscape, takenBy, if_pos (.inr hs)]
      rfl
    | false =>
      have hnone : p.clauseEscape = none := by
        rw [clauseEscape, hs]
        rfl
      by_cases hd : d = .sqlite
      · subst hd
        have hescape : (p.clauseEscape <|> Dialect.sqlite.likeRules.escape) = p.clauseEscape := by rw [hnone]; rfl
        rw [hescape, items?_clauseEscape, takenBy, if_pos (.inl rfl)]
        rfl
      · have hescape : (p.clauseEscape <|> d.likeRules.escape) = some '\\' := by
          rw [hnone]
          cases d with
          | sqlite => exact absurd rfl hd
          | _ => rfl
        rw [hescape, items?_backslashed _ hs, takenBy, if_neg (not_or.2 ⟨hd, by simp [hs]⟩)]
  rw [holds?_eq, hitems, Option.map_map]
  congr 1
  funext taken
  exact fits_items taken x

/-! ### Texts that are matched literally -/

theorem admits_self (p : LikePattern) : p.Admits p.text := admits_iff.2 ⟨[], [], by simp, fun _ => rfl, fun _ => rfl⟩

theorem length_le_of_admits {p : LikePattern} {x : String} (h : p.Admits x) :
    p.text.toList.length ≤ x.toList.length := by
  obtain ⟨front, rest, hx, -, -⟩ := admits_iff.1 h
  rw [hx, List.length_append, List.length_append]
  omega

/-- A text as long as the pattern's is admitted only if it is the pattern's. -/
theorem eq_of_admits {p : LikePattern} {x : String} (h : p.Admits x)
    (hlength : x.toList.length = p.text.toList.length) : x = p.text := by
  obtain ⟨front, rest, hx, -, -⟩ := admits_iff.1 h
  have hlengths := congrArg List.length hx
  rw [List.length_append, List.length_append] at hlengths
  have hfront : front = [] := List.eq_nil_of_length_eq_zero (by omega)
  have hrest : rest = [] := List.eq_nil_of_length_eq_zero (by omega)
  rw [hfront, hrest, List.nil_append, List.append_nil] at hx
  exact String.toList_inj.1 hx

theorem length_unescape_lt {cs : List Char} (h : '\\' ∈ cs.dropLast) :
    (unescape cs).1.length + (if (unescape cs).2 then 1 else 0) < cs.length := by
  have hle : ∀ cs : List Char, (unescape cs).1.length + (if (unescape cs).2 then 1 else 0) ≤ cs.length := by
    intro cs
    fun_induction unescape cs <;> simp_all <;> omega
  fun_induction unescape cs with
  | case1 => cases h
  | case2 | case3 => cases h
  | case4 x cs ih =>
    have := hle cs
    simp only [List.length_cons]
    omega
  | case5 c x cs hc ih =>
    have hrest : '\\' ∈ (x :: cs).dropLast := by
      rw [List.dropLast_cons_cons, List.mem_cons] at h
      exact h.resolve_left (Ne.symm hc)
    have := ih hrest
    simp only [List.length_cons] at this ⊢
    omega

theorem unescape_of_not_mem {cs : List Char} (h : '\\' ∉ cs.dropLast) :
    unescape cs = if cs.getLast? = some '\\' then (cs.dropLast, true) else (cs, false) := by
  fun_induction unescape cs with
  | case1 => rfl
  | case2 => rfl
  | case3 c hc => simp [hc]
  | case4 x cs ih => simp at h
  | case5 c x cs hc ih =>
    rw [List.dropLast_cons_cons, List.mem_cons, not_or] at h
    rw [ih h.2, List.getLast?_cons_cons, List.dropLast_cons_cons]
    split <;> rfl

theorem backslashed_of_not_mem (h : '\\' ∉ p.text.toList) (looseEnd : Bool) : p.backslashed looseEnd = some p := by
  have hdrop : '\\' ∉ p.text.toList.dropLast := fun hmem => h (List.mem_of_mem_dropLast hmem)
  have hlast : p.text.toList.getLast? ≠ some '\\' := fun hlast => h (List.mem_of_getLast? hlast)
  unfold backslashed
  rw [unescape_of_not_mem hdrop, if_neg hlast]
  simp

/-- A single backslash at the end escapes the wildcard after it, or stands for itself if it may. -/
theorem backslashed_of_last (hmem : '\\' ∈ p.text.toList) (hdrop : '\\' ∉ p.text.toList.dropLast) (looseEnd : Bool) :
    p.backslashed looseEnd =
      if p.openEnd then some ⟨p.openStart, String.ofList (p.text.toList.dropLast ++ ['%']), false⟩
      else if looseEnd then some p else none := by
  obtain ⟨front, last, htext⟩ := List.eq_nil_or_concat p.text.toList |>.resolve_left (List.ne_nil_of_mem hmem)
  rw [List.concat_eq_append] at htext
  rw [htext, List.dropLast_concat] at hdrop
  rw [htext, List.mem_append, List.mem_singleton] at hmem
  obtain rfl : '\\' = last := hmem.resolve_left hdrop
  have hunescape : unescape p.text.toList = (front, true) := by
    rw [unescape_of_not_mem (by rwa [htext, List.dropLast_concat]), htext, List.getLast?_concat, List.dropLast_concat]
    rfl
  have hself : String.ofList (front ++ ['\\']) = p.text := by rw [← htext, String.ofList_toList]
  unfold backslashed
  rw [hunescape, htext, List.dropLast_concat]
  obtain ⟨openStart, text, openEnd⟩ := p
  cases openEnd with
  | true => rfl
  | false =>
    cases looseEnd with
    | true => exact congrArg (fun text => some (LikePattern.mk openStart text false)) hself
    | false => rfl

/-- A database of the dialect reads the pattern as it is meant: it has no escape character of its own, a clause names
another one, or there is no backslash but one that stands for itself. -/
def IsLiteral (p : LikePattern) (d : Dialect) : Prop :=
  d = .sqlite ∨ p.text.toList.any isSpecial = true ∨ '\\' ∉ p.text.toList ∨
    d = .mysql ∧ p.openEnd = false ∧ '\\' ∉ p.text.toList.dropLast

theorem IsLiteral.takenBy_eq (h : p.IsLiteral d) : p.takenBy d = some p := by
  unfold takenBy
  split
  · rfl
  · next hcase =>
    rw [not_or] at hcase
    rcases h with h | h | h | ⟨rfl, hend, hdrop⟩
    · exact absurd h hcase.1
    · exact absurd h hcase.2
    · exact backslashed_of_not_mem h _
    · by_cases hmem : '\\' ∈ p.text.toList
      · rw [backslashed_of_last hmem hdrop, hend]
        rfl
      · exact backslashed_of_not_mem hmem _

/-- Otherwise the database refuses the pattern, or it matches a text that is not asked for. -/
theorem exists_misread (h : ¬ p.IsLiteral d) :
    p.takenBy d = none ∨ ∃ taken, p.takenBy d = some taken ∧ ¬ p.Admits taken.text := by
  simp only [IsLiteral, not_or, not_not] at h
  obtain ⟨hd, hs, hmem, hend⟩ := h
  have htaken : p.takenBy d = p.backslashed d.likeRules.looseEnd := if_neg (not_or.2 ⟨hd, hs⟩)
  rw [htaken]
  by_cases hdrop : '\\' ∈ p.text.toList.dropLast
  · -- what the pattern stands for is shorter than the text
    have hshorter := length_unescape_lt hdrop
    have hlong : ∀ x : String, x.toList.length < p.text.toList.length → ¬ p.Admits x :=
      fun x hx hadmits => absurd (length_le_of_admits hadmits) (by omega)
    unfold backslashed
    revert hshorter
    obtain ⟨text, left⟩ := unescape p.text.toList
    intro hshorter
    cases left with
    | false => exact .inr ⟨_, rfl, hlong _ (by simpa using hshorter)⟩
    | true =>
      cases p.openEnd with
      | true => exact .inr ⟨_, rfl, hlong _ (by simpa using hshorter)⟩
      | false =>
        cases d.likeRules.looseEnd with
        | true => exact .inr ⟨_, rfl, hlong _ (by simpa using hshorter)⟩
        | false => exact .inl rfl
  · rw [backslashed_of_last hmem hdrop]
    cases hopen : p.openEnd with
    | true =>
      -- the text that is matched is as long, but ends with the wildcard
      refine .inr ⟨_, if_pos rfl, fun hadmits => hs ?_⟩
      have hlength : (p.text.toList.dropLast ++ ['%']).length = p.text.toList.length := by
        rw [List.length_append, List.length_dropLast, List.length_singleton]
        have := List.length_pos_of_mem hmem
        omega
      have htext := eq_of_admits hadmits (by rwa [String.toList_ofList])
      rw [← htext]
      simp [isSpecial]
    | false =>
      cases d with
      | mysql => exact absurd ⟨rfl, hopen, hdrop⟩ hend
      | postgres => exact .inl rfl
      | sqlite => exact absurd rfl hd

end LikePattern

/-- A database of the dialect matches some pattern in the place of the one that is meant, and it matches every text as
that one does exactly if a clause names the escape character, or no backslash in the text is taken for one. -/
theorem operand_literal_iff (p : LikePattern) (d : Dialect) :
    (∀ x, d.likeRules.holds? d (p.operand d) x = (p.takenBy d).map fun taken => decide (taken.Admits x)) ∧
      ((∀ x, d.likeRules.holds? d (p.operand d) x = some (decide (p.Admits x))) ↔ p.IsLiteral d) := by
  refine ⟨p.holds?_takenBy d, ?_, ?_⟩
  · intro hall
    by_contra h
    rcases LikePattern.exists_misread h with hnone | ⟨taken, htaken, hnot⟩
    · have hread := (p.holds?_takenBy d p.text).symm.trans (hall p.text)
      rw [hnone] at hread
      cases hread
    · have hread := (p.holds?_takenBy d taken.text).symm.trans (hall taken.text)
      rw [htaken, Option.map_some, decide_eq_true taken.admits_self, decide_eq_false hnot] at hread
      cases hread
  · intro h x
    rw [p.holds?_takenBy d, h.takenBy_eq, Option.map_some]

/-- A path is not found by its start, and another text is. -/
theorem backslash_taken_for_escape :
    (∀ d ∈ [Dialect.mysql, .postgres],
      d.likeRules.holds? d (LikePattern.operand ⟨false, "C:\\new", true⟩ d) "C:\\new folder" = some false ∧
      d.likeRules.holds? d (LikePattern.operand ⟨false, "C:\\new", true⟩ d) "C:new folder" = some true) ∧
    LikePattern.Admits ⟨false, "C:\\new", true⟩ "C:\\new folder" ∧
    ¬ LikePattern.Admits ⟨false, "C:\\new", true⟩ "C:new folder" := by
  decide

end SqlQuery.Sql
