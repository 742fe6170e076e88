import Mathlib.Data.List.Chain
import SqlQuery.Proofs.FilterPrinter
import SqlQuery.Proofs.QuotedLiteral

/-!
# Scanning printed symbols

A word, a number or a quoted text ends where a delimiter follows it. So symbols of which no two words or
literals touch (`Separated`) are scanned into their lexemes, one by one (`scanAll_symbolsText`).
-/

namespace SqlQuery.Filter

open SqlQuery.Text

/-! ### Delimiters -/

/-- The characters that end a word, a number and a quoted text. -/
def delimiters : List Char := [' ', '(', ')', '/', ',']

/-- What follows starts with a delimiter, or there is nothing. -/
def Delimited (rest : List Char) : Prop := ∀ c, rest.head? = some c → c ∈ delimiters

/-- A delimiter belongs to no word and to no number. -/
theorem of_mem_delimiters {c : Char} (h : c ∈ delimiters) :
    isWordChar c = false ∧ c.isDigit = false ∧ Suffix.ofChar? c = none := by
  have hall : delimiters.all (fun c =>
      isWordChar c = false ∧ c.isDigit = false ∧ Suffix.ofChar? c = none) = true := by
    decide
  exact of_decide_eq_true (List.all_eq_true.1 hall c h)

theorem Delimited.nil : Delimited [] := by simp [Delimited]

theorem Delimited.cons {c : Char} {cs : List Char} (h : c ∈ delimiters) : Delimited (c :: cs) := by
  simpa [Delimited] using h

theorem Delimited.head_ne {rest : List Char} (h : Delimited rest) {c : Char} (hc : c ∉ delimiters) :
    rest.head? ≠ some c := fun hr => hc (h c hr)

theorem takeWhile_eq_left {α : Type} {p : α → Bool} {cs rest : List α} (hp : cs.all p = true)
    (hr : ∀ c, rest.head? = some c → p c = false) : (cs ++ rest).takeWhile p = cs := by
  have hcs : ∀ c ∈ cs, p c = true := by simpa using hp
  rw [List.takeWhile_append_of_pos hcs]
  cases rest with
  | nil => simp
  | cons c rest => simp [hr c rfl]

/-! ### Blanks -/

theorem exists_range_of_contains {rs : Ranges} {n : Nat} (h : rs.contains n = true) :
    ∃ r ∈ rs, r.1 ≤ n ∧ n ≤ r.2 := by
  induction rs with
  | nil => exact absurd h Bool.false_ne_true
  | cons r rs ih =>
    rw [Ranges.contains] at h
    by_cases hl : n < r.1
    · simp [hl] at h
    · by_cases hr : n ≤ r.2
      · exact ⟨r, by simp, by omega, hr⟩
      · obtain ⟨s, hs, h⟩ := ih (by simpa [hl, hr] using h)
        exact ⟨s, by simp [hs], h⟩

theorem alphabetic_disjoint_blank {a b : Nat × Nat} (ha : a ∈ alphabeticRanges) (hb : b ∈ blankRanges) :
    a.2 < b.1 ∨ b.2 < a.1 := by
  have hall : (alphabeticRanges.all fun a => blankRanges.all fun b => Nat.blt a.2 b.1 || Nat.blt b.2 a.1) = true := by
    decide +kernel
  have hab := List.all_eq_true.1 (List.all_eq_true.1 hall a ha) b hb
  rwa [Bool.or_eq_true, Nat.blt_eq, Nat.blt_eq] at hab

theorem isBlank_eq_false_of_isWordStart {c : Char} (h : isWordStart c = true) : isBlank c = false := by
  refine Bool.eq_false_iff.2 fun hb => ?_
  simp only [isWordStart, Bool.or_eq_true, decide_eq_true_eq] at h
  rcases h with (ha | rfl) | rfl
  · obtain ⟨a, ha, hla, hra⟩ := exists_range_of_contains ha
    obtain ⟨b, hb, hlb, hrb⟩ := exists_range_of_contains hb
    have := alphabetic_disjoint_blank ha hb
    omega
  · exact absurd hb (by decide)
  · exact absurd hb (by decide)

theorem isBlank_eq_false_of_isDigit {c : Char} (h : c.isDigit = true) : isBlank c = false := by
  simp only [Char.isDigit, Bool.and_eq_true, decide_eq_true_eq] at h
  have hl : 48 ≤ c.toNat := h.1
  have hr : c.toNat ≤ 57 := h.2
  refine Bool.eq_false_iff.2 fun hb => ?_
  obtain ⟨b, hb, hlb, hrb⟩ := exists_range_of_contains hb
  have hout : ∀ b ∈ blankRanges, b.2 < 48 ∨ 57 < b.1 := by decide
  have := hout b hb
  omega

/-! ### Words -/

/-- Characters below the letters start a word only if they are the dollar sign. -/
theorem isWordStart_of_lt {c : Char} (h : c.toNat < 65) (hd : c ≠ '$') : isWordStart c = false := by
  have ha : isAlphabetic c = false := by
    unfold isAlphabetic alphabeticRanges
    rw [Ranges.contains, if_pos h]
  have hu : c ≠ '_' := by
    rintro rfl
    revert h
    decide
  simp [isWordStart, ha, hu, hd]

theorem isDigit_eq_false_of_isWordStart {c : Char} (h : isWordStart c = true) : c.isDigit = false := by
  refine Bool.eq_false_iff.2 fun hd => ?_
  have hle : c.toNat ≤ 57 := by
    simp only [Char.isDigit, Bool.and_eq_true, decide_eq_true_eq] at hd
    exact hd.2
  have hne : c ≠ '$' := by
    rintro rfl
    revert hd
    decide
  rw [isWordStart_of_lt (by omega) hne] at h
  exact Bool.false_ne_true h

theorem wordLexeme_eq_word {name x : String} (h : wordLexeme name = .word x) : wordLexeme name = .word name := by
  unfold wordLexeme at h ⊢
  simp only at h ⊢
  split_ifs at h ⊢ <;> simp_all [plainLiteral]

theorem isName_iff {name : String} : isName name = true ↔
    ∃ c cs, name.toList = c :: cs ∧ isWordStart c = true ∧ cs.all isWordChar = true ∧
      wordLexeme name = .word name := by
  unfold isName
  constructor
  · intro h
    split at h
    · next c cs x hn hw =>
      rw [Bool.and_eq_true] at h
      exact ⟨c, cs, hn, h.1, h.2, wordLexeme_eq_word hw⟩
    · exact absurd h Bool.false_ne_true
  · rintro ⟨c, cs, hn, hc, hcs, hw⟩
    rw [hn, hw]
    simp [hc, hcs]

/-- The scans that a character can start. -/
inductive Starts (c : Char) : (Nat → List Char → Scanning) → Prop where
  | punctuation {p : Punctuation} (h : c = p.char) : Starts c fun _ _ => (.ok (.punctuation p), 0)
  | minus (h : c = '-') : Starts c scanMinus
  | quote (h : c = '\x27') : Starts c fun start cs => scanQuoted start .plain cs
  | digit (h : c.isDigit = true) : Starts c fun start cs => scanNumber start c cs
  | word (h : isWordStart c = true) : Starts c fun start cs => scanWord start c cs
  | failure : Starts c fun start _ => (.error (.unexpectedCharacter c start), 0)

theorem exists_starts (c : Char) : ∃ scan, Starts c scan ∧ ∀ start cs, scanLexeme start c cs = scan start cs := by
  refine ⟨fun start cs => scanLexeme start c cs, ?_, fun _ _ => rfl⟩
  unfold scanLexeme
  by_cases hopen : c = '('
  · simp only [if_pos hopen]
    exact .punctuation (p := .parenOpen) hopen
  by_cases hclose : c = ')'
  · simp only [if_neg hopen, if_pos hclose]
    exact .punctuation (p := .parenClose) hclose
  by_cases hslash : c = '/'
  · simp only [if_neg hopen, if_neg hclose, if_pos hslash]
    exact .punctuation (p := .slash) hslash
  by_cases hcomma : c = ','
  · simp only [if_neg hopen, if_neg hclose, if_neg hslash, if_pos hcomma]
    exact .punctuation (p := .comma) hcomma
  simp only [if_neg hopen, if_neg hclose, if_neg hslash, if_neg hcomma]
  by_cases hminus : c = '-'
  · simp only [if_pos hminus]
    exact .minus hminus
  by_cases hquote : c = '\x27'
  · simp only [if_neg hminus, if_pos hquote]
    exact .quote hquote
  simp only [if_neg hminus, if_neg hquote]
  by_cases hdigit : c.isDigit = true
  · simp only [if_pos hdigit]
    exact .digit hdigit
  by_cases hword : isWordStart c = true
  · simp only [if_neg hdigit, if_pos hword]
    exact .word hword
  simp only [if_neg hdigit, if_neg hword]
  exact .failure

/-- What starts with a character of a word is a word. -/
theorem scanLexeme_wordStart {c : Char} (h : isWordStart c = true) (start : Nat) (cs : List Char) :
    scanLexeme start c cs = scanWord start c cs := by
  have hne : ∀ x, isWordStart x = false → c ≠ x := by
    rintro x hx rfl
    rw [h] at hx
    exact Bool.false_ne_true hx.symm
  simp [scanLexeme, hne '(' (by decide), hne ')' (by decide), hne '/' (by decide), hne ',' (by decide),
    hne '-' (by decide), hne '\x27' (by decide), isDigit_eq_false_of_isWordStart h, h]

/-- A word that a delimiter follows ends there; no quote makes it a tag. -/
theorem scanWord_eq {c : Char} {cs rest : List Char} (hcs : cs.all isWordChar = true) (hr : Delimited rest)
    (start : Nat) : scanWord start c (cs ++ rest) = (.ok (wordLexeme (String.ofList (c :: cs))), cs.length) := by
  have htake : (cs ++ rest).takeWhile isWordChar = cs :=
    takeWhile_eq_left hcs fun x hx => (of_mem_delimiters (hr x hx)).1
  unfold scanWord
  simp only [htake, List.drop_left]
  split
  · next later _ =>
    exact absurd rfl (hr.head_ne (by decide))
  · rfl

/-- A word tags the quoted text after it, or it ends where its characters do. -/
theorem scanWord_cases (start : Nat) (c : Char) (cs : List Char) :
    (∃ tag later n, scanWord start c cs = ((scanQuoted start tag later).1, n)) ∨
      scanWord start c cs =
        (.ok (wordLexeme (String.ofList (c :: cs.takeWhile isWordChar))), (cs.takeWhile isWordChar).length) := by
  unfold scanWord
  dsimp only
  split
  · exact .inl ⟨_, _, _, rfl⟩
  · exact .inr rfl

/-! ### Integers -/

theorem toDigits_all_isDigit (n : Nat) : (Nat.toDigits 10 n).all Char.isDigit = true :=
  List.all_eq_true.2 fun _ hc => Nat.isDigit_of_mem_toDigits (by decide) (by decide) hc

theorem readNat?_toDigits (n : Nat) : Decimal.readNat? (Nat.toDigits 10 n) = some n := by
  have hne : (Nat.toDigits 10 n).isEmpty = false := List.isEmpty_eq_false_iff.2 Nat.toDigits_ne_nil
  rw [Decimal.readNat?, hne, toDigits_all_isDigit, Nat.ofDigitChars_toDigits (by decide) (by decide)]
  rfl

theorem splitSign_toDigits (n : Nat) : Decimal.splitSign (Nat.toDigits 10 n) = (false, Nat.toDigits 10 n) := by
  have hd := toDigits_all_isDigit n
  unfold Decimal.splitSign
  split
  · next cs h => rw [h] at hd; exact absurd hd (by simp)
  · next cs h => rw [h] at hd; exact absurd hd (by simp)
  · rfl

/-- The digits of a number, after a minus sign if it is negative. -/
def signedDigits (negative : Bool) (m : Nat) : List Char := (if negative then ['-'] else []) ++ Nat.toDigits 10 m

/-- The integer of a sign and a size. -/
def signedInt (negative : Bool) (m : Nat) : Int := if negative then -m else m

theorem toList_intText (n : Int) : (Decimal.intText n).toList = signedDigits (n < 0) n.natAbs := by
  cases n with
  | ofNat k => exact String.toList_ofList
  | negSucc k =>
    have hminus : "-".toList = ['-'] := rfl
    have hdigits : (Decimal.natText (k + 1)).toList = Nat.toDigits 10 (k + 1) := String.toList_ofList
    rw [Decimal.intText, String.toList_append, hminus, hdigits, decide_eq_true (Int.negSucc_lt_zero k)]
    rfl

theorem signedInt_natAbs (n : Int) : signedInt (n < 0) n.natAbs = n := by
  rw [signedInt]
  split_ifs with h
  · have := of_decide_eq_true h
    omega
  · have := of_decide_eq_false (Bool.eq_false_iff.2 h)
    omega

theorem readInt?_signedDigits (negative : Bool) (m : Nat) :
    Decimal.readInt? (signedDigits negative m) = some (signedInt negative m) := by
  have hread := readNat?_toDigits m
  cases negative with
  | false =>
    change Decimal.readInt? (Nat.toDigits 10 m) = _
    rw [Decimal.readInt?, splitSign_toDigits]
    simp only [hread]
    rfl
  | true =>
    have hsign : Decimal.splitSign ('-' :: Nat.toDigits 10 m) = (true, Nat.toDigits 10 m) := rfl
    change Decimal.readInt? ('-' :: Nat.toDigits 10 m) = _
    rw [Decimal.readInt?, hsign]
    simp only [hread]
    rfl

theorem readInt?_intText (n : Int) : Decimal.readInt? (Decimal.intText n).toList = some n := by
  rw [toList_intText, readInt?_signedDigits, signedInt_natAbs]

/-- The text of a 64-bit integer is read as that integer. -/
theorem readInt64?_intText (n : Int64) : Decimal.readInt64? (Decimal.intText n.toInt).toList = some n := by
  rw [Decimal.readInt64?, readInt?_intText, Option.bind_some, Decimal.fitInt64?,
    if_pos ⟨n.minValue_le_toInt, n.toInt_le⟩, Int64.ofInt_toInt]

/-- Digits that a delimiter follows are all of a number. -/
theorem scanNumber_eq {c : Char} {ds rest : List Char} (hds : ds.all Char.isDigit = true) (hr : Delimited rest)
    (start : Nat) : scanNumber start c (ds ++ rest) =
      (intLiteral (c :: ds) (fun n => if fitsInt32 n then .int else .long) start, ds.length) := by
  have htake : (ds ++ rest).takeWhile Char.isDigit = ds :=
    takeWhile_eq_left hds fun x hx => (of_mem_delimiters (hr x hx)).2.1
  have hfraction : fractionText rest = [] := by
    unfold fractionText
    split
    · exact absurd rfl (hr.head_ne (by decide))
    · rfl
  have hexponent : exponentText rest = [] := by
    unfold exponentText
    split
    · next e cs =>
      have he : e ∈ delimiters := hr e rfl
      have : ¬(e = 'e' ∨ e = 'E') := by
        rintro (rfl | rfl) <;> exact absurd he (by decide)
      simp [this]
    · rfl
  have hsuffix : suffix? rest = none := by
    unfold suffix?
    split
    · rfl
    · next e cs => simp [(of_mem_delimiters (hr e rfl)).2.2]
  simp [scanNumber, htake, hfraction, hexponent, hsuffix, numberLiteral]

theorem scanLexeme_digit {c : Char} (h : c.isDigit = true) (start : Nat) (cs : List Char) :
    scanLexeme start c cs = scanNumber start c cs := by
  have hne : ∀ x, x.isDigit = false → c ≠ x := by
    rintro x hx rfl
    rw [h] at hx
    exact Bool.false_ne_true hx.symm
  simp [scanLexeme, hne '(' (by decide), hne ')' (by decide), hne '/' (by decide), hne ',' (by decide),
    hne '-' (by decide), hne '\x27' (by decide), h]

theorem scanLexeme_minus {d : Char} (h : d.isDigit = true) (start : Nat) (cs : List Char) :
    scanLexeme start '-' (d :: cs) = scanNumber start '-' (d :: cs) := by
  have hI : d ≠ 'I' := by
    rintro rfl
    exact absurd h (by decide)
  simp [scanLexeme, scanMinus, h, hI]

theorem exists_toDigits_eq_cons (n : Nat) :
    ∃ d ds, Nat.toDigits 10 n = d :: ds ∧ d.isDigit = true ∧ ds.all Char.isDigit = true := by
  obtain ⟨d, ds, h⟩ := List.exists_cons_of_ne_nil (Nat.toDigits_ne_nil (b := 10) (n := n))
  have hd := toDigits_all_isDigit n
  rw [h, List.all_cons, Bool.and_eq_true] at hd
  exact ⟨d, ds, h, hd⟩

theorem intLiteral_intText (n : Int64) (start : Nat) :
    intLiteral (Decimal.intText n.toInt).toList (fun n => if fitsInt32 n then .int else .long) start =
      .ok (plainLiteral (.int n) (literalKind (.int n))) := by
  rw [intLiteral, readInt64?_intText]
  rfl

/-- A sign and digits that a delimiter follows are scanned together. -/
theorem scanLexeme_signedDigits {rest : List Char} (negative : Bool) (m : Nat) (hr : Delimited rest) (start : Nat) :
    ∃ c cs, signedDigits negative m = c :: cs ∧ isBlank c = false ∧ scanLexeme start c (cs ++ rest) =
      (intLiteral (signedDigits negative m) (fun n => if fitsInt32 n then .int else .long) start, cs.length) := by
  obtain ⟨d, ds, hm, hd, hds⟩ := exists_toDigits_eq_cons m
  cases negative with
  | false =>
    have htext : signedDigits false m = d :: ds := hm
    refine ⟨d, ds, htext, isBlank_eq_false_of_isDigit hd, ?_⟩
    rw [scanLexeme_digit hd, scanNumber_eq hds hr, htext]
  | true =>
    have htext : signedDigits true m = '-' :: d :: ds := congrArg ('-' :: ·) hm
    have hall : (d :: ds).all Char.isDigit = true := by rw [List.all_cons, hd, hds]; rfl
    refine ⟨'-', d :: ds, htext, by decide, ?_⟩
    rw [List.cons_append, scanLexeme_minus hd, ← List.cons_append, scanNumber_eq hall hr, htext]

/-- The text of an integer that a delimiter follows is that integer. -/
theorem scanLexeme_intText {rest : List Char} (n : Int64) (hr : Delimited rest) (start : Nat) :
    ∃ c cs, (Decimal.intText n.toInt).toList = c :: cs ∧ isBlank c = false ∧
      scanLexeme start c (cs ++ rest) = (.ok (plainLiteral (.int n) (literalKind (.int n))), cs.length) := by
  rw [← intLiteral_intText n start, toList_intText]
  exact scanLexeme_signedDigits _ _ hr start

/-! ### Symbols -/

namespace Symbol

/-- The symbol is read as its lexeme. A minus sign is not, because it can start a number. -/
def Readable : Symbol → Prop
  | .word name => isName name = true
  | .literal value => isPlain value = true
  | .punctuation p => p ≠ .minus
  | .blank => True

/-- Words and literals need a delimiter after them. -/
def isOpen : Symbol → Bool
  | .word _ | .literal _ => true
  | _ => false

end Symbol

/-- No two words or literals touch. -/
def Separated (symbols : List Symbol) : Prop :=
  symbols.IsChain fun a b => a.isOpen = true → b.isOpen = false

theorem delimited_symbolsText {s : Symbol} {ss : List Symbol} (hs : s.isOpen = true)
    (hr : ∀ x ∈ ss, x.Readable) (h : Separated (s :: ss)) : Delimited (symbolsText ss) := by
  cases ss with
  | nil => exact .nil
  | cons b ss =>
    have hb : b.isOpen = false := (List.isChain_cons_cons.1 h).1 hs
    have hread : b.Readable := hr b (by simp)
    cases b with
    | word | literal => simp [Symbol.isOpen] at hb
    | blank => exact .cons (by decide)
    | punctuation p =>
      cases p with
      | minus => exact absurd rfl hread
      | _ => exact .cons (by decide)

/-- A literal that a delimiter follows is read back. -/
theorem scanLexeme_literal {value : Value} {rest : List Char} (hv : isPlain value = true) (hr : Delimited rest)
    (start : Nat) : ∃ c cs, (literalText value).toList = c :: cs ∧ isBlank c = false ∧
      scanLexeme start c (cs ++ rest) = (.ok (plainLiteral value (literalKind value)), cs.length) := by
  cases value with
  | null =>
    refine ⟨'N', ['U', 'L', 'L'], rfl, by decide, ?_⟩
    rw [scanLexeme_wordStart (by decide), scanWord_eq (by decide) hr]
    rfl
  | bool b =>
    cases b with
    | true =>
      refine ⟨'t', ['r', 'u', 'e'], rfl, by decide, ?_⟩
      rw [scanLexeme_wordStart (by decide), scanWord_eq (by decide) hr]
      rfl
    | false =>
      refine ⟨'f', ['a', 'l', 's', 'e'], rfl, by decide, ?_⟩
      rw [scanLexeme_wordStart (by decide), scanWord_eq (by decide) hr]
      rfl
  | int n => exact scanLexeme_intText n hr start
  | string s =>
    refine ⟨'\x27', s.toList.flatMap Sql.Dialect.mysql.escape ++ ['\x27'], by
      simp [literalText, Sql.Formatter.constant, Sql.Dialect.quote], by decide, ?_⟩
    have h := scanLexeme_quote (d := .mysql) (s := s) start (fun _ _ => .inl rfl) (hr.head_ne (by decide))
    simpa [literalKind] using h
  | float | date | array | object | ref => simp [isPlain] at hv

/-- A symbol other than a blank is scanned into its lexeme. -/
theorem scan_symbol {s : Symbol} {lexeme : Lexeme} {rest : List Char} (hs : s.lexeme? = some lexeme)
    (hread : s.Readable) (hr : s.isOpen = true → Delimited rest) (position : Nat) :
    Cursor.scan ⟨position, s.text ++ rest⟩ =
      .token ⟨position, position + byteLength s.text, lexeme⟩ ⟨position + byteLength s.text, rest⟩ := by
  cases s with
  | word name =>
    obtain ⟨c, cs, hn, hc, hcs, hw⟩ := isName_iff.1 hread
    obtain rfl : Lexeme.word name = lexeme := by simpa [Symbol.lexeme?] using hs
    rw [Symbol.text, hn]
    refine Cursor.scan_eq_token cs rest (isBlank_eq_false_of_isWordStart hc) ?_
    rw [scanLexeme_wordStart hc, scanWord_eq hcs (hr rfl), ← hn, String.ofList_toList, hw]
  | literal value =>
    obtain ⟨c, cs, htext, hc, hscan⟩ := scanLexeme_literal hread (hr rfl) position
    obtain rfl : plainLiteral value (literalKind value) = lexeme := by simpa [Symbol.lexeme?] using hs
    rw [Symbol.text, htext]
    exact Cursor.scan_eq_token cs rest hc hscan
  | punctuation p =>
    obtain rfl : Lexeme.punctuation p = lexeme := by simpa [Symbol.lexeme?] using hs
    cases p with
    | minus => exact absurd rfl hread
    | _ => exact Cursor.scan_eq_token [] rest (by decide) rfl
  | blank => simp [Symbol.lexeme?] at hs

/-! ### Texts -/

theorem scanAll_of_token {cursor after : Cursor} {t : Token} (h : cursor.scan = .token t after) :
    cursor.scanAll = ⟨t :: after.scanAll.tokens, after.scanAll.failure, after.scanAll.rest⟩ := by
  rw [Cursor.scanAll]
  split <;> simp_all

theorem scanAll_nil (position : Nat) : Cursor.scanAll ⟨position, []⟩ = ⟨[], none, []⟩ := by
  rw [Cursor.scanAll]
  rfl

theorem scan_blank (position : Nat) (rest : List Char) :
    Cursor.scan ⟨position, ' ' :: rest⟩ = Cursor.scan ⟨position + 1, rest⟩ := by
  have h : Cursor.skipBlanks ⟨position, ' ' :: rest⟩ = Cursor.skipBlanks ⟨position + 1, rest⟩ := by
    have hb : isBlank ' ' = true := by decide
    have hu : Char.utf8Size ' ' = 1 := rfl
    simp only [Cursor.skipBlanks, Cursor.advance, List.takeWhile_cons, hb, if_true, List.length_cons,
      List.take_succ_cons, List.drop_succ_cons, byteLength, List.foldr_cons, hu, Nat.add_assoc]
  simp only [Cursor.scan, h]

theorem scanAll_congr {a b : Cursor} (h : a.scan = b.scan) : a.scanAll = b.scanAll := by
  rw [Cursor.scanAll, Cursor.scanAll, h]

/-- Separated symbols are scanned into their lexemes. -/
theorem scanAll_symbolsText {symbols : List Symbol} (hread : ∀ s ∈ symbols, s.Readable)
    (hsep : Separated symbols) (position : Nat) :
    ∃ tokens, Cursor.scanAll ⟨position, symbolsText symbols⟩ = ⟨tokens, none, []⟩ ∧
      tokens.map Token.lexeme = lexemes symbols := by
  induction symbols generalizing position with
  | nil => exact ⟨[], scanAll_nil position, rfl⟩
  | cons s ss ih =>
    have hrest : ∀ x ∈ ss, x.Readable := fun x hx => hread x (by simp [hx])
    cases hs : s.lexeme? with
    | none =>
      cases s with
      | blank =>
        obtain ⟨tokens, hscan, hmap⟩ := ih hrest hsep.tail (position + 1)
        exact ⟨tokens, (scanAll_congr (scan_blank position _)).trans hscan, hmap⟩
      | _ => simp [Symbol.lexeme?] at hs
    | some lexeme =>
      have hd : s.isOpen = true → Delimited (symbolsText ss) := fun ho =>
        delimited_symbolsText ho hrest hsep
      have hscan := scan_symbol hs (hread s (by simp)) hd position
      obtain ⟨tokens, hall, hmap⟩ := ih hrest hsep.tail (position + byteLength s.text)
      refine ⟨⟨position, position + byteLength s.text, lexeme⟩ :: tokens, ?_, ?_⟩
      · exact (scanAll_of_token hscan).trans (by rw [hall])
      · rw [List.map_cons, hmap, lexemes, lexemes, List.filterMap_cons_some hs]

theorem tokenize_symbols {symbols : List Symbol} (hread : ∀ s ∈ symbols, s.Readable) (hsep : Separated symbols) :
    ∃ tokens, tokenize (String.ofList (symbolsText symbols)) = .ok tokens ∧
      tokens.map Token.lexeme = lexemes symbols := by
  obtain ⟨tokens, hscan, hmap⟩ := scanAll_symbolsText hread hsep 0
  refine ⟨tokens, ?_, hmap⟩
  simp [tokenize, scanText, hscan]

/-! ### Printed expressions -/

/-- The symbols are read as their lexemes when they are written one after the other. -/
def Scannable (symbols : List Symbol) : Prop := (∀ s ∈ symbols, s.Readable) ∧ Separated symbols

namespace Scannable

variable {xs ys : List Symbol} {y : Symbol}

theorem nil : Scannable [] := ⟨by simp, .nil⟩

theorem single (h : y.Readable) : Scannable [y] := ⟨by simpa using h, .singleton y⟩

/-- Anything can follow a symbol that needs no delimiter. -/
theorem cons (hr : y.Readable) (ho : y.isOpen = false) (h : Scannable ys) : Scannable (y :: ys) := by
  refine ⟨by simpa using ⟨hr, h.1⟩, List.isChain_cons.2 ⟨fun z _ hy => ?_, h.2⟩⟩
  rw [ho] at hy
  exact absurd hy Bool.false_ne_true

/-- A symbol that is a delimiter can follow anything. -/
theorem append (hx : Scannable xs) (hy : Scannable (y :: ys)) (ho : y.isOpen = false) :
    Scannable (xs ++ y :: ys) := by
  refine ⟨fun s hs => ?_, List.isChain_append.2 ⟨hx.2, hy.2, fun a _ b hb _ => ?_⟩⟩
  · rcases List.mem_append.1 hs with hs | hs
    · exact hx.1 s hs
    · exact hy.1 s hs
  · obtain rfl : y = b := by simpa using hb
    exact ho

theorem word {name : String} (hn : isName name = true) (h : Scannable (y :: ys)) (ho : y.isOpen = false) :
    Scannable (.word name :: y :: ys) :=
  append (single (y := .word name) hn) h ho

theorem wrapped (b : Bool) (h : Scannable xs) : Scannable (wrapped b xs) := by
  cases b with
  | false => exact h
  | true => exact cons (by simp [Symbol.Readable]) rfl (append h (single (by simp [Symbol.Readable])) rfl)

end Scannable

theorem Scannable.operator {op : BinaryOp} {xs ys : List Symbol} (ho : op ∈ BinaryOp.words.map Prod.snd)
    (hx : Scannable xs) (hy : Scannable ys) : Scannable (xs ++ operatorSymbols op ++ ys) := by
  rw [List.append_assoc]
  exact hx.append (.cons trivial rfl (.word (word_of_mem_words op ho).1 (.cons trivial rfl hy) rfl)) rfl

theorem Scannable.segments {names : List String} {xs : List Symbol} (h : names.all isName = true) (hx : Scannable xs) :
    Scannable (xs ++ names.flatMap fun name => [Symbol.punctuation .slash, Symbol.word name]) := by
  induction names generalizing xs with
  | nil => rwa [List.flatMap_nil, List.append_nil]
  | cons name names ih =>
    rw [List.all_cons, Bool.and_eq_true] at h
    have hname : Scannable [.word name] := .single (y := .word name) h.1
    have hslash : Scannable [.punctuation .slash, .word name] := .cons (by simp [Symbol.Readable]) rfl hname
    rw [List.flatMap_cons, ← List.append_assoc]
    exact ih h.2 (hx.append hslash rfl)

theorem scannable_pathSymbols {names : List String} (h : names.all isName = true) :
    Scannable (pathSymbols names) := by
  cases names with
  | nil => exact .nil
  | cons name names =>
    rw [List.all_cons, Bool.and_eq_true] at h
    exact .segments h.2 (.single (y := .word name) h.1)

theorem scannable_printOperands {style : Parens} {op : LogicalOp} {args : List Expr} {xs : List Symbol}
    (ho : op = .and ∨ op = .or) (hx : Scannable xs) (ha : ∀ e ∈ args, Scannable (print style e)) :
    Scannable (xs ++ printOperands style op args) := by
  induction args generalizing xs with
  | nil => simpa [printOperands] using hx
  | cons e args ih =>
    have he := Scannable.operator (logical_mem_words ho) hx
      ((ha e (by simp)).wrapped (style.wraps ((BinaryOp.logical op).strength + 1) (strength e)))
    have := ih he fun x hx => ha x (by simp [hx])
    simpa [printOperands, List.append_assoc] using this

theorem scannable_printMoreArguments {style : Parens} {args : List Expr} {xs : List Symbol} (hx : Scannable xs)
    (ha : ∀ e ∈ args, Scannable (print style e)) : Scannable (xs ++ printMoreArguments style args) := by
  induction args generalizing xs with
  | nil => simpa [printMoreArguments] using hx
  | cons e args ih =>
    have he := (ha e (by simp)).wrapped (style.wraps 0 (strength e))
    have hcomma := hx.append (.cons (y := .punctuation .comma) (by simp [Symbol.Readable]) rfl
      (.cons (y := .blank) trivial rfl he)) rfl
    simpa [printMoreArguments] using ih hcomma fun x hx => ha x (by simp [hx])

theorem scannable_printArguments {style : Parens} {args : List Expr}
    (ha : ∀ e ∈ args, Scannable (print style e)) : Scannable (printArguments style args) := by
  cases args with
  | nil => simpa [printArguments] using Scannable.nil
  | cons e args =>
    rw [printArguments]
    exact scannable_printMoreArguments ((ha e (by simp)).wrapped _) fun x hx => ha x (by simp [hx])

theorem scannable_literalSymbols {values : List Value} (h : values.all isPlain = true) :
    Scannable (literalSymbols values) := by
  rw [literalSymbols_eq]
  refine scannable_printArguments fun e he => ?_
  obtain ⟨v, hv, rfl⟩ := List.mem_map.1 he
  rw [print]
  exact .single (y := .literal v) (List.all_eq_true.1 h v hv)

theorem scannable_print (style : Parens) {e : Expr} (h : Printable e) : Scannable (print style e) := by
  induction h with
  | member hn hf => simpa [print] using scannable_pathSymbols hn
  | literal hv => simpa [print] using Scannable.single (y := .literal _) hv
  | arithmetic ho hl hr ihl ihr =>
    rw [print]
    exact .operator (arithmetic_mem_words ho) (ihl.wrapped _) (ihr.wrapped _)
  | comparison ho hl hr ihl ihr =>
    rw [print_comparison ho.1]
    exact .operator (ofComparison_mem_words ho.2) (ihl.wrapped _) (ihr.wrapped _)
  | membership hl hv ihl =>
    rw [print]
    exact .operator (ofComparison_mem_words (by simp)) (ihl.wrapped _) ((scannable_literalSymbols hv).wrapped true)
  | @chain op first second rest ho hf ha iha =>
    rw [print_chain (by rcases ho with rfl | rfl <;> simp)]
    exact scannable_printOperands ho ((iha first (by simp)).wrapped _) fun e he =>
      iha e (List.mem_cons_of_mem _ he)
  | negation ha iha =>
    rw [print]
    exact .word (by decide) (.cons trivial rfl (iha.wrapped _)) rfl
  | call hm hc ha iha =>
    rw [print]
    exact .word (methodWord_of_mem _ hm).1 ((scannable_printArguments iha).wrapped true) rfl

end SqlQuery.Filter
