import Mathlib.Tactic.SplitIfs
import SqlQuery.Sql.Dialect

/-!
# SQL as a database reads it

A database reads a quoted literal as the text that it stands for: a doubled quote is a quote, and in the default dialect
a backslash and a character are one character, but for the two wildcards of patterns, which keep their backslash.
`Dialect.tokens?` reads SQL this way. A quoted text is read back whatever is in it (`Reads.quote`), and a text of
several parts by its parts (`Reads`).
-/

namespace SqlQuery.Sql

/-- A character outside of literals, or a literal with the text that it stands for. -/
inductive Token where
  | char (c : Char)
  | literal (text : List Char)
  deriving DecidableEq

namespace Dialect

/-- What is written after a backslash, and the character that it stands for. -/
def escapes : List (Char × Char) :=
  [('0', '\x00'), ('n', '\n'), ('r', '\r'), ('b', '\x08'), ('t', '\t'), ('Z', '\x1a'), ('\\', '\\'), ('\x27', '\x27'),
    ('"', '"')]

/-- A character is written as it is or after a backslash. -/
inductive Forms (c : Char) : List Char → Prop
  | plain (hb : c ≠ '\\') (hq : c ≠ '\x27') : Forms c [c]
  | escaped {e : Char} (h : (e, c) ∈ escapes) : Forms c ['\\', e]

theorem forms_backslashEscape (c : Char) : Forms c (backslashEscape c) := by
  have hescaped : ∀ {e x : Char}, (e, x) ∈ escapes → c = x → Forms c ['\\', e] := by
    rintro e x hx rfl
    exact .escaped hx
  refine iteInduction (hescaped (by decide)) fun _ => ?_
  refine iteInduction (hescaped (by decide)) fun _ => ?_
  refine iteInduction (hescaped (by decide)) fun _ => ?_
  refine iteInduction (hescaped (by decide)) fun _ => ?_
  refine iteInduction (hescaped (by decide)) fun _ => ?_
  refine iteInduction (hescaped (by decide)) fun _ => ?_
  refine iteInduction (fun hself => ?_) fun hself => ?_
  · rcases hself with rfl | rfl | rfl <;> exact .escaped (by decide)
  · rw [not_or, not_or] at hself
    exact .plain hself.1 hself.2.1

/-- What a backslash and a character stand for in a literal. -/
def unescaped (c : Char) : List Char :=
  if c = '0' then ['\x00']
  else if c = 'n' then ['\n']
  else if c = 'r' then ['\r']
  else if c = 'b' then ['\x08']
  else if c = 't' then ['\t']
  else if c = 'Z' then ['\x1a']
  else if c = '%' ∨ c = '_' then ['\\', c]
  else [c]

/-- Reads SQL. Inside of a literal, `text` is what it stands for so far; SQL that ends there is not read. -/
def readFrom? (d : Dialect) : Option (List Char) → List Char → Option (List Token)
  | none, [] => some []
  | some _, [] => none
  | none, c :: cs =>
    if c = '\x27' then readFrom? d (some []) cs else (readFrom? d none cs).map (.char c :: ·)
  | some text, '\x27' :: '\x27' :: cs => readFrom? d (some (text ++ ['\x27'])) cs
  | some text, '\x27' :: cs => (readFrom? d none cs).map (.literal text :: ·)
  | some text, '\\' :: c :: cs =>
    if d = .mysql then readFrom? d (some (text ++ unescaped c)) cs
    else readFrom? d (some (text ++ ['\\'])) (c :: cs)
  | some text, c :: cs => readFrom? d (some (text ++ [c])) cs

/-- The literals and other characters of SQL. -/
def tokens? (d : Dialect) (sql : String) : Option (List Token) := d.readFrom? none sql.toList

variable {d : Dialect}

theorem readFrom?_of_ne {c : Char} (hq : c ≠ '\x27') (hb : c ≠ '\\') (text rest : List Char) :
    d.readFrom? (some text) (c :: rest) = d.readFrom? (some (text ++ [c])) rest := by
  rw [readFrom?.eq_def]
  split <;> simp_all

theorem readFrom?_closing {rest : List Char} (h : rest.head? ≠ some '\x27') (text : List Char) :
    d.readFrom? (some text) ('\x27' :: rest) = (d.readFrom? none rest).map (.literal text :: ·) := by
  cases rest with
  | nil => rfl
  | cons c rest =>
    have hc : c ≠ '\x27' := by simpa using h
    simp [readFrom?, hc]

/-- A backslash and a character are read as one character, unless it is a wildcard. -/
theorem readFrom?_escaped {c e : Char} (h : unescaped e = [c]) (text rest : List Char) :
    readFrom? .mysql (some text) ('\\' :: e :: rest) = readFrom? .mysql (some (text ++ [c])) rest := by
  rw [readFrom?, if_pos rfl, h]

/-- Outside of the default dialect a backslash is a character like others. -/
theorem readFrom?_backslash (hd : d ≠ .mysql) (text rest : List Char) :
    d.readFrom? (some text) ('\\' :: rest) = d.readFrom? (some (text ++ ['\\'])) rest := by
  cases rest with
  | nil => rfl
  | cons c rest =>
    rw [readFrom?, if_neg hd]

theorem readFrom?_backslashEscape (c : Char) (text rest : List Char) :
    readFrom? .mysql (some text) (backslashEscape c ++ rest) = readFrom? .mysql (some (text ++ [c])) rest := by
  have hforms := forms_backslashEscape c
  generalize backslashEscape c = written at hforms ⊢
  cases hforms with
  | plain hb hq => exact readFrom?_of_ne hq hb text rest
  | escaped h =>
    have hunescaped : ∀ p ∈ escapes, unescaped p.1 = [p.2] := by decide
    exact readFrom?_escaped (hunescaped _ h) text rest

theorem readFrom?_doubledQuote (hd : d ≠ .mysql) (c : Char) (text rest : List Char) :
    d.readFrom? (some text) (doubledQuote c ++ rest) = d.readFrom? (some (text ++ [c])) rest := by
  unfold doubledQuote
  split_ifs with hq
  · rw [hq]
    rfl
  · by_cases hb : c = '\\'
    · rw [hb]
      exact readFrom?_backslash hd text rest
    · exact readFrom?_of_ne hq hb text rest

/-- What is written for a character is read as the character. -/
theorem readFrom?_escape (c : Char) (text rest : List Char) :
    d.readFrom? (some text) (d.escape c ++ rest) = d.readFrom? (some (text ++ [c])) rest := by
  cases d with
  | mysql => exact readFrom?_backslashEscape c text rest
  | postgres => exact readFrom?_doubledQuote (by decide) c text rest
  | sqlite => exact readFrom?_doubledQuote (by decide) c text rest

theorem readFrom?_flatMap_escape (cs text rest : List Char) :
    d.readFrom? (some text) (cs.flatMap d.escape ++ rest) = d.readFrom? (some (text ++ cs)) rest := by
  induction cs generalizing text with
  | nil => rw [List.append_nil, List.flatMap_nil, List.nil_append]
  | cons c cs ih =>
    rw [List.flatMap_cons, List.append_assoc, readFrom?_escape, ih, List.append_assoc, List.singleton_append]

end Dialect

/-- SQL is read as tokens, whatever follows it but for a quote, which would go on with a literal at its end. -/
def Reads (d : Dialect) (sql : List Char) (tokens : List Token) : Prop :=
  ∀ rest : List Char, rest.head? ≠ some '\x27' →
    d.readFrom? none (sql ++ rest) = (d.readFrom? none rest).map (tokens ++ ·)

namespace Reads

variable {d : Dialect} {sql : List Char} {tokens : List Token}

theorem tokens? {text : String} (h : Reads d text.toList tokens) : d.tokens? text = some tokens := by
  have hread := h [] (by simp)
  rw [List.append_nil] at hread
  rw [Dialect.tokens?, hread, Dialect.readFrom?, Option.map_some, List.append_nil]

theorem quote (d : Dialect) (s : String) : Reads d (d.quote s).toList [.literal s.toList] := by
  intro rest hrest
  rw [Dialect.quote, String.toList_ofList, List.cons_append, List.append_assoc, Dialect.readFrom?, if_pos rfl,
    Dialect.readFrom?_flatMap_escape, List.nil_append, List.singleton_append, Dialect.readFrom?_closing hrest]
  rfl

theorem nil (d : Dialect) : Reads d [] [] := by
  intro rest _
  rw [List.nil_append]
  simp

/-- Without quotes, characters are read one by one, also before a literal. -/
theorem readFrom?_plain {word : List Char} (h : '\x27' ∉ word) (rest : List Char) :
    d.readFrom? none (word ++ rest) = (d.readFrom? none rest).map (word.map .char ++ ·) := by
  induction word with
  | nil => simp
  | cons c word ih =>
    rw [List.mem_cons, not_or] at h
    rw [List.cons_append, Dialect.readFrom?, if_neg (Ne.symm h.1), ih h.2, Option.map_map]
    rfl

theorem plain {word : List Char} (h : '\x27' ∉ word) : Reads d word (word.map .char) :=
  fun rest _ => readFrom?_plain h rest

/-- A part without quotes parts a literal from the next. -/
theorem append_plain (h : Reads d sql tokens) (word : List Char) (hw : '\x27' ∉ word) (hne : word ≠ [])
    {next : List Char} {more : List Token} (hnext : Reads d next more) :
    Reads d (sql ++ word ++ next) (tokens ++ word.map .char ++ more) := by
  intro rest hrest
  have hhead : (word ++ (next ++ rest)).head? ≠ some '\x27' := by
    cases word with
    | nil => exact absurd rfl hne
    | cons c word =>
      intro hc
      have heq : c = '\x27' := by simpa using hc
      exact hw (heq ▸ List.mem_cons_self)
  rw [List.append_assoc, List.append_assoc, h _ hhead, readFrom?_plain hw, hnext rest hrest, Option.map_map,
    Option.map_map]
  congr 1
  funext ts
  simp

end Reads

end SqlQuery.Sql
