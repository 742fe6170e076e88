import Mathlib.Tactic.SplitIfs
import SqlQuery.Filter.Lexer
import SqlQuery.Proofs.LiteralReading
import SqlQuery.Sql.Expression

/-!
# Quoted literals read back

`quoted?_escape` reads one character of a literal back, whatever follows; `quoted?_flatMap_escape` is its
induction over the text, up to the closing quote. A dialect that only doubles quotes leaves a backslash as
it is, and filters read a backslash as the start of an escape, so a text with one reads back only where
backslashes are escaped too (`ReadsBack`).
-/

namespace SqlQuery.Filter

open SqlQuery.Sql (Dialect Formatter)
open SqlQuery.Text (byteLength isBlank)

/-- A filter reads the dialect's form of the character as that character. -/
def ReadsBack (d : Dialect) (c : Char) : Prop := d = .mysql ∨ c ≠ '\\'

theorem quoted?_cons {c : Char} (hq : c ≠ '\x27') (hb : c ≠ '\\') (rest : List Char) :
    quoted? (c :: rest) = (quoted? rest).map fun p => (c :: p.1, p.2 + 1) := by
  rw [quoted?.eq_def]
  split <;> simp_all

theorem quoted?_closing {rest : List Char} (h : rest.head? ≠ some '\x27') :
    quoted? ('\x27' :: rest) = some ([], 1) := by
  cases rest with
  | nil => rfl
  | cons c rest =>
    have hc : c ≠ '\x27' := by simpa using h
    simp [quoted?, hc]

/-- A backslash and a letter are the character that the letter stands for. -/
theorem quoted?_backslash {c e : Char} (h : unescape? c = some e) (rest : List Char) :
    quoted? ('\\' :: c :: rest) = (quoted? rest).map fun p => (e :: p.1, p.2 + 2) := by
  rw [quoted?.eq_def]
  simp [h]

theorem quoted?_backslashEscape (c : Char) (rest : List Char) :
    quoted? (Dialect.backslashEscape c ++ rest) =
      (quoted? rest).map fun p => (c :: p.1, p.2 + (Dialect.backslashEscape c).length) := by
  have hforms := Dialect.forms_backslashEscape c
  generalize Dialect.backslashEscape c = written at hforms ⊢
  cases hforms with
  | plain hb hq => exact quoted?_cons hq hb rest
  | escaped h =>
    have hunescape : ∀ p ∈ Dialect.escapes, unescape? p.1 = some p.2 := by decide
    exact quoted?_backslash (hunescape _ h) rest

theorem quoted?_doubledQuote {c : Char} (h : c ≠ '\\') (rest : List Char) :
    quoted? (Dialect.doubledQuote c ++ rest) =
      (quoted? rest).map fun p => (c :: p.1, p.2 + (Dialect.doubledQuote c).length) := by
  unfold Dialect.doubledQuote
  split_ifs with hq
  · rw [hq]; rfl
  · exact quoted?_cons hq h rest

/-- One character of a literal is read back and the rest is read on. -/
theorem quoted?_escape {d : Dialect} {c : Char} (h : ReadsBack d c) (rest : List Char) :
    quoted? (d.escape c ++ rest) = (quoted? rest).map fun p => (c :: p.1, p.2 + (d.escape c).length) := by
  rcases h with rfl | h
  · exact quoted?_backslashEscape c rest
  · cases d with
    | mysql => exact quoted?_backslashEscape c rest
    | postgres => exact quoted?_doubledQuote h rest
    | sqlite => exact quoted?_doubledQuote h rest

/-- A literal ends at its closing quote if no other quote follows. -/
theorem quoted?_flatMap_escape {d : Dialect} {text rest : List Char} (hd : ∀ c ∈ text, ReadsBack d c)
    (hr : rest.head? ≠ some '\x27') :
    quoted? (text.flatMap d.escape ++ '\x27' :: rest) = some (text, (text.flatMap d.escape).length + 1) := by
  induction text with
  | nil => exact quoted?_closing hr
  | cons c text ih =>
    rw [List.flatMap_cons, List.append_assoc, quoted?_escape (hd c (by simp)), ih fun x hx => hd x (by simp [hx])]
    simp only [Option.map_some, List.length_append]
    congr 2
    omega

/-- A quoted text is one string token, up to what follows it. -/
theorem scanLexeme_quote {d : Dialect} {s : String} {rest : List Char} (start : Nat)
    (hd : ∀ c ∈ s.toList, ReadsBack d c) (hr : rest.head? ≠ some '\x27') :
    scanLexeme start '\x27' (s.toList.flatMap d.escape ++ '\x27' :: rest) =
      (.ok (plainLiteral (.string s) .string), (s.toList.flatMap d.escape).length + 1) := by
  have h : quoted? (s.toList.flatMap d.escape ++ '\x27' :: rest) = _ := quoted?_flatMap_escape hd hr
  simp [scanLexeme, scanQuoted, h, taggedLiteral, QuoteTag.value?, QuoteTag.kind, plainLiteral]

/-! ### One token of a text -/

theorem Cursor.skipBlanks_of_not_blank (position : Nat) {c : Char} (cs : List Char) (h : isBlank c = false) :
    Cursor.skipBlanks ⟨position, c :: cs⟩ = ⟨position, c :: cs⟩ := by
  simp [Cursor.skipBlanks, Cursor.advance, h, byteLength]

/-- A lexeme that takes the characters up to some place is the token of these characters. -/
theorem Cursor.scan_eq_token {position : Nat} {c : Char} (cs rest : List Char) {lexeme : Lexeme}
    (hc : isBlank c = false) (h : scanLexeme position c (cs ++ rest) = (.ok lexeme, cs.length)) :
    Cursor.scan ⟨position, (c :: cs) ++ rest⟩ =
      .token ⟨position, position + byteLength (c :: cs), lexeme⟩ ⟨position + byteLength (c :: cs), rest⟩ := by
  have hskip := skipBlanks_of_not_blank position (cs ++ rest) hc
  simp [Cursor.scan, hskip, h, Cursor.advance]

/-- A string constant followed by anything but a quote is one token: the string, over exactly the
characters of the constant. -/
theorem scan_string_constant (f : Formatter) (s t : String) (position : Nat)
    (hs : f.dialect = .mysql ∨ '\\' ∉ s.toList) (ht : t.toList.head? ≠ some '\x27') :
    ∃ sql, f.constant (.string s) = .ok sql ∧
      Cursor.scan ⟨position, (sql ++ t).toList⟩ =
        .token ⟨position, position + byteLength sql.toList, .literal (.string s) .string .plain⟩
          ⟨position + byteLength sql.toList, t.toList⟩ := by
  have hd : ∀ c ∈ s.toList, ReadsBack f.dialect c := fun c hc =>
    hs.imp id fun hb hcb => hb (hcb ▸ hc)
  refine ⟨f.dialect.quote s, rfl, ?_⟩
  have hlex := scanLexeme_quote position hd ht
  have hquote : isBlank '\x27' = false := by decide
  have hscan := Cursor.scan_eq_token (s.toList.flatMap f.dialect.escape ++ ['\x27']) t.toList hquote
    (by simpa using hlex)
  simpa [Dialect.quote, plainLiteral] using hscan

theorem scan_string_constant_quotes :
    ∃ sql, Formatter.constant { dialect := .postgres } (.string "it's") = .ok sql ∧
      Cursor.scan ⟨0, (sql ++ " or 1=1").toList⟩ =
        .token ⟨0, 0 + byteLength sql.toList, .literal (.string "it's") .string .plain⟩
          ⟨0 + byteLength sql.toList, " or 1=1".toList⟩ :=
  scan_string_constant { dialect := .postgres } "it's" " or 1=1" 0 (.inr (by decide)) (by decide)

end SqlQuery.Filter
