import Mathlib
import SqlQuery.Proofs.FilterScanning

/-!
# Tokens and the white space between them

The tokens of a text follow one another in it, with nothing but white space around them (`Covers`). A scan looks at
what comes after its token only to see that the token does not go on. So a token is the same before any white space
(`Settles`), and the tokens' sources with white space between them are read as the same lexemes (`scanAll_sources`).
-/

namespace SqlQuery.Filter

open SqlQuery.Text

/-! ### White space ends a token -/

/-- What follows starts with white space, or there is nothing. -/
def Spaced (rest : List Char) : Prop := ∀ c, rest.head? = some c → isBlank c = true

theorem Spaced.nil : Spaced [] := by simp [Spaced]

theorem Spaced.of_blanks {gap : List Char} (hne : gap ≠ []) (h : gap.all isBlank = true) (rest : List Char) :
    Spaced (gap ++ rest) := by
  obtain ⟨b, gap, rfl⟩ := List.exists_cons_of_ne_nil hne
  rw [List.all_cons, Bool.and_eq_true] at h
  intro c hc
  obtain rfl : b = c := by simpa using hc
  exact h.1

theorem Spaced.head_eq_false {rest : List Char} (h : Spaced rest) {p : Char → Bool}
    (hp : ∀ c, p c = true → isBlank c = false) (c : Char) (hc : rest.head? = some c) : p c = false := by
  refine Bool.eq_false_iff.2 fun hpc => ?_
  have hblank := hp c hpc
  rw [h c hc] at hblank
  exact absurd hblank (by decide)

theorem Spaced.head_ne {rest : List Char} (h : Spaced rest) {c : Char} (hc : isBlank c = false) :
    rest.head? ≠ some c := by
  intro hr
  rw [h c hr] at hc
  exact absurd hc (by decide)

theorem isBlank_eq_false_of_isWordChar {c : Char} (h : isWordChar c = true) : isBlank c = false := by
  rw [isWordChar, Bool.or_eq_true] at h
  exact h.elim isBlank_eq_false_of_isWordStart isBlank_eq_false_of_isDigit

theorem wordGoesOn_of_spaced {rest : List Char} (h : Spaced rest) : wordGoesOn rest = false := by
  cases rest with
  | nil => rfl
  | cons c rest => exact h.head_eq_false (fun _ => isBlank_eq_false_of_isWordChar) c rfl

/-! ### What continues a number -/

/-- Characters taken from the front that do not reach into the rest are taken before any rest that stops them. -/
theorem takeWhile_settles {α : Type} {p : α → Bool} {xs rest after : List α}
    (h : ((xs ++ rest).takeWhile p).length ≤ xs.length) (hafter : ∀ c, after.head? = some c → p c = false) :
    (xs ++ after).takeWhile p = (xs ++ rest).takeWhile p := by
  induction xs with
  | nil =>
    have hrest : rest.takeWhile p = [] := List.length_eq_zero_iff.1 (Nat.le_zero.1 h)
    exact (takeWhile_eq_left rfl hafter).trans hrest.symm
  | cons x xs ih =>
    by_cases hx : p x = true
    · simp only [List.cons_append, List.takeWhile_cons, hx, if_true, List.length_cons, Nat.add_le_add_iff_right] at h ⊢
      rw [ih h]
    · simp [hx]

theorem fractionText_point (d : Char) (cs : List Char) :
    fractionText ('.' :: d :: cs) = if d.isDigit then '.' :: d :: cs.takeWhile Char.isDigit else [] := rfl

theorem fractionText_of_head_ne {cs : List Char} (h : cs.head? ≠ some '.') : fractionText cs = [] := by
  unfold fractionText
  split
  · exact absurd rfl h
  · rfl

theorem fractionText_of_not_digit {cs : List Char} (h : ∀ c, cs.head? = some c → c.isDigit = false) :
    fractionText ('.' :: cs) = [] := by
  cases cs with
  | nil => rfl
  | cons c cs => rw [fractionText_point, h c rfl, if_neg Bool.false_ne_true]

theorem length_fractionText_le (cs : List Char) : (fractionText cs).length ≤ cs.length := by
  unfold fractionText
  split
  · next d cs =>
    split
    · have := (List.takeWhile_sublist (p := Char.isDigit) (l := cs)).length_le
      simp only [List.length_cons]
      omega
    · exact Nat.zero_le _
  · exact Nat.zero_le _

theorem fractionText_settles {xs rest after : List Char} (h : (fractionText (xs ++ rest)).length ≤ xs.length)
    (hafter : Spaced after) : fractionText (xs ++ after) = fractionText (xs ++ rest) := by
  have hdigit := hafter.head_eq_false fun _ => isBlank_eq_false_of_isDigit
  rcases xs with _ | ⟨x, xs⟩
  · have hnone : fractionText rest = [] := List.length_eq_zero_iff.1 (Nat.le_zero.1 h)
    exact (fractionText_of_head_ne (hafter.head_ne (by decide))).trans hnone.symm
  · by_cases hx : x = '.'
    · subst hx
      rcases xs with _ | ⟨d, xs⟩
      · -- the point alone is in front: a fraction would reach into the rest
        refine (fractionText_of_not_digit hdigit).trans (Eq.symm ?_)
        refine fractionText_of_not_digit fun c hc => Bool.eq_false_iff.2 fun hd => ?_
        obtain ⟨cs, rfl⟩ : ∃ cs, rest = c :: cs := ⟨rest.tail, (List.cons_head?_tail hc).symm⟩
        simp [fractionText_point, hd] at h
      · simp only [List.cons_append, fractionText_point] at h ⊢
        by_cases hd : d.isDigit = true
        · rw [if_pos hd] at h
          simp only [List.length_cons, Nat.add_le_add_iff_right] at h
          rw [if_pos hd, if_pos hd, takeWhile_settles h hdigit]
        · rw [if_neg hd, if_neg hd]
    · have hne (tail : List Char) : fractionText (x :: xs ++ tail) = [] :=
        fractionText_of_head_ne (by simpa using hx)
      rw [hne, hne]

theorem exponentSign_cons (x : Char) (xs ys : List Char) : exponentSign (x :: xs) = exponentSign (x :: ys) := by
  unfold exponentSign
  split <;> split <;> simp_all

theorem exponentSign_of_spaced {rest : List Char} (h : Spaced rest) : exponentSign rest = [] := by
  unfold exponentSign
  split
  · exact absurd rfl (h.head_ne (by decide))
  · exact absurd rfl (h.head_ne (by decide))
  · rfl

theorem length_exponentSign_le (cs : List Char) : (exponentSign cs).length ≤ cs.length := by
  unfold exponentSign
  split <;> simp

/-- The digits after the letter of an exponent. -/
def exponentDigits (cs : List Char) : List Char := (cs.drop (exponentSign cs).length).takeWhile Char.isDigit

theorem exponentText_cons (e : Char) (cs : List Char) : exponentText (e :: cs) =
    if (e = 'e' ∨ e = 'E') ∧ exponentDigits cs ≠ [] then e :: (exponentSign cs ++ exponentDigits cs) else [] := rfl

theorem length_exponentDigits_le (cs : List Char) :
    (exponentSign cs).length + (exponentDigits cs).length ≤ cs.length := by
  have hsign := length_exponentSign_le cs
  have hdigits : (exponentDigits cs).length ≤ (cs.drop (exponentSign cs).length).length :=
    (List.takeWhile_sublist _).length_le
  rw [List.length_drop] at hdigits
  omega

theorem length_exponentText_le (cs : List Char) : (exponentText cs).length ≤ cs.length := by
  cases cs with
  | nil => exact Nat.le_refl _
  | cons e cs =>
    rw [exponentText_cons]
    split_ifs
    · have := length_exponentDigits_le cs
      simp only [List.length_cons, List.length_append]
      omega
    · exact Nat.zero_le _

/-- The sign and the digits of an exponent that do not reach into the rest are there before white space. -/
theorem exponentDigits_settles {xs rest after : List Char} (hafter : Spaced after)
    (h : exponentDigits (xs ++ rest) ≠ [] →
      (exponentSign (xs ++ rest)).length + (exponentDigits (xs ++ rest)).length ≤ xs.length) :
    exponentDigits (xs ++ after) = exponentDigits (xs ++ rest) ∧
      (exponentDigits (xs ++ rest) ≠ [] → exponentSign (xs ++ after) = exponentSign (xs ++ rest)) := by
  have hdigit := hafter.head_eq_false fun _ => isBlank_eq_false_of_isDigit
  cases xs with
  | nil =>
    have hnone : exponentDigits rest = [] := by
      by_contra hne
      have := h hne
      have := List.length_pos_of_ne_nil hne
      simp only [List.nil_append, List.length_nil] at *
      omega
    refine ⟨?_, fun hne => absurd hnone hne⟩
    rw [List.nil_append, List.nil_append, hnone, exponentDigits, exponentSign_of_spaced hafter, ← List.nil_append after]
    exact takeWhile_eq_left rfl hdigit
  | cons x xs =>
    have hsign (tail : List Char) : exponentSign (x :: xs ++ tail) = exponentSign (x :: xs) :=
      exponentSign_cons x (xs ++ tail) xs
    have hle := length_exponentSign_le (x :: xs)
    have hdigits (tail : List Char) : exponentDigits (x :: xs ++ tail) =
        ((x :: xs).drop (exponentSign (x :: xs)).length ++ tail).takeWhile Char.isDigit := by
      rw [exponentDigits, hsign, List.drop_append_of_le_length hle]
    refine ⟨?_, fun _ => by rw [hsign, hsign]⟩
    rw [hdigits, hdigits]
    refine takeWhile_settles ?_ hdigit
    rw [← hdigits, List.length_drop]
    by_cases hne : exponentDigits (x :: xs ++ rest) = []
    · rw [hne]
      exact Nat.zero_le _
    · have := h hne
      rw [hsign] at this
      omega

theorem exponentText_settles {xs rest after : List Char} (h : (exponentText (xs ++ rest)).length ≤ xs.length)
    (hafter : Spaced after) : exponentText (xs ++ after) = exponentText (xs ++ rest) := by
  cases xs with
  | nil =>
    have hnone : exponentText rest = [] := List.length_eq_zero_iff.1 (Nat.le_zero.1 h)
    rw [List.nil_append, List.nil_append, hnone]
    cases after with
    | nil => rfl
    | cons e after =>
      have he (c : Char) (hc : isBlank c = false) : e ≠ c := by simpa using hafter.head_ne hc
      rw [exponentText_cons, if_neg]
      simp [he 'e' (by decide), he 'E' (by decide)]
  | cons e xs =>
    simp only [List.cons_append, exponentText_cons] at h ⊢
    by_cases he : e = 'e' ∨ e = 'E'
    · have hreach (hne : exponentDigits (xs ++ rest) ≠ []) :
          (exponentSign (xs ++ rest)).length + (exponentDigits (xs ++ rest)).length ≤ xs.length := by
        rw [if_pos ⟨he, hne⟩] at h
        simpa using h
      obtain ⟨hdigits, hsign⟩ := exponentDigits_settles hafter hreach
      rw [hdigits]
      split_ifs with hne
      · rw [hsign hne.2]
      · rfl
    · simp [he]

theorem suffix?_of_spaced {rest : List Char} (h : Spaced rest) : suffix? rest = none := by
  cases rest with
  | nil => rfl
  | cons c rest =>
    have hc (x : Char) (hx : isBlank x = false) : c ≠ x := by simpa using h.head_ne hx
    have hnone : Suffix.ofChar? c = none := by
      simp [Suffix.ofChar?, hc 'L' (by decide), hc 'l' (by decide), hc 'M' (by decide), hc 'm' (by decide),
        hc 'F' (by decide), hc 'f' (by decide), hc 'D' (by decide), hc 'd' (by decide)]
    rw [suffix?, hnone, ite_self]

/-- The characters that a suffix takes. -/
def suffixLength (suffix : Option Suffix) : Nat := if suffix.isSome then 1 else 0

theorem suffixLength_suffix?_le (cs : List Char) : suffixLength (suffix? cs) ≤ cs.length := by
  cases cs with
  | nil => exact Nat.le_refl _
  | cons c cs =>
    rw [suffixLength, List.length_cons]
    split_ifs <;> omega

theorem suffix?_settles {xs rest after : List Char} (h : suffixLength (suffix? (xs ++ rest)) = xs.length)
    (hafter : Spaced after) : suffix? (xs ++ after) = suffix? (xs ++ rest) := by
  rcases xs with _ | ⟨x, _ | ⟨y, xs⟩⟩
  · have hnone : suffix? rest = none := by
      cases hs : suffix? rest with
      | none => rfl
      | some s =>
        rw [List.nil_append, hs] at h
        cases h
    exact (suffix?_of_spaced hafter).trans hnone.symm
  · have hgoes : wordGoesOn rest = false := by
      refine Bool.eq_false_iff.2 fun hw => ?_
      rw [List.singleton_append, suffix?, if_pos hw] at h
      cases h
    rw [List.singleton_append, List.singleton_append, suffix?, suffix?, wordGoesOn_of_spaced hafter, hgoes]
  · rw [suffixLength] at h
    split_ifs at h
    all_goals simp at h

/-! ### Tokens before white space -/

/-- A lexeme of all the characters in front is the same wherever they stand and whatever white space follows. -/
def Settles (scan : Nat → List Char → Scanning) : Prop :=
  ∀ ⦃start : Nat⦄ ⦃xs rest : List Char⦄ ⦃lexeme : Lexeme⦄, scan start (xs ++ rest) = (.ok lexeme, xs.length) →
    ∀ (position : Nat) ⦃after : List Char⦄, Spaced after → scan position (xs ++ after) = (.ok lexeme, xs.length)

theorem intLiteral_position {text : List Char} {kind : Int64 → LiteralKind} {p : Nat} {lexeme : Lexeme}
    (h : intLiteral text kind p = .ok lexeme) (q : Nat) : intLiteral text kind q = .ok lexeme := by
  unfold intLiteral at h ⊢
  split at h
  · exact h
  · cases h

theorem floatLiteral_position {text : List Char} {kind : LiteralKind} {p : Nat} {lexeme : Lexeme}
    (h : floatLiteral text kind p = .ok lexeme) (q : Nat) : floatLiteral text kind q = .ok lexeme := by
  unfold floatLiteral at h ⊢
  split at h
  · exact h
  · cases h

/-- The place of a number is told only in a failure. -/
theorem numberLiteral_position {text : List Char} {isFloat : Bool} {suffix : Option Suffix} {p : Nat}
    {lexeme : Lexeme} (h : numberLiteral text isFloat suffix p = .ok lexeme) (q : Nat) :
    numberLiteral text isFloat suffix q = .ok lexeme := by
  cases suffix with
  | none =>
    cases isFloat with
    | true => exact floatLiteral_position h q
    | false => exact intLiteral_position h q
  | some s =>
    cases s with
    | long => exact intLiteral_position h q
    | decimal | single | double => exact floatLiteral_position h q

theorem taggedLiteral_position {tag : QuoteTag} {text : String} {p : Nat} {lexeme : Lexeme}
    (h : taggedLiteral tag text p = .ok lexeme) (q : Nat) : taggedLiteral tag text q = .ok lexeme := by
  unfold taggedLiteral at h ⊢
  split at h
  · exact h
  · cases h

theorem scanNumber_of_parts {cs whole fraction exponent : List Char} {suffix : Option Suffix}
    (hw : cs.takeWhile Char.isDigit = whole) (hf : fractionText (cs.drop whole.length) = fraction)
    (he : exponentText (cs.drop (whole.length + fraction.length)) = exponent)
    (hs : suffix? (cs.drop (whole ++ fraction ++ exponent).length) = suffix) (start : Nat) (c : Char) :
    scanNumber start c cs =
      (numberLiteral (c :: (whole ++ fraction ++ exponent)) (!fraction.isEmpty || !exponent.isEmpty) suffix start,
        (whole ++ fraction ++ exponent).length + suffixLength suffix) := by
  subst hw hf he hs
  rfl

theorem scanNumber_le (start : Nat) (c : Char) (cs : List Char) : (scanNumber start c cs).2 ≤ cs.length := by
  rw [scanNumber_of_parts rfl rfl rfl rfl]
  have hw := (List.takeWhile_sublist (p := Char.isDigit) (l := cs)).length_le
  have hf := length_fractionText_le (cs.drop (cs.takeWhile Char.isDigit).length)
  have he := length_exponentText_le (cs.drop ((cs.takeWhile Char.isDigit).length +
    (fractionText (cs.drop (cs.takeWhile Char.isDigit).length)).length))
  refine (Nat.add_le_add_left (suffixLength_suffix?_le _) _).trans ?_
  simp only [List.length_append, List.length_drop] at hf he ⊢
  omega

theorem settles_scanNumber (c : Char) : Settles fun start cs => scanNumber start c cs := by
  intro start xs rest lexeme h position after hafter
  dsimp only at h ⊢
  obtain ⟨whole, hw⟩ : ∃ whole, (xs ++ rest).takeWhile Char.isDigit = whole := ⟨_, rfl⟩
  obtain ⟨fraction, hf⟩ : ∃ fraction, fractionText ((xs ++ rest).drop whole.length) = fraction := ⟨_, rfl⟩
  obtain ⟨exponent, he⟩ : ∃ exponent,
    exponentText ((xs ++ rest).drop (whole.length + fraction.length)) = exponent := ⟨_, rfl⟩
  obtain ⟨suffix, hs⟩ : ∃ suffix,
    suffix? ((xs ++ rest).drop (whole ++ fraction ++ exponent).length) = suffix := ⟨_, rfl⟩
  rw [scanNumber_of_parts hw hf he hs] at h
  obtain ⟨hliteral, hlength⟩ := Prod.mk.inj h
  have hbody : (whole ++ fraction ++ exponent).length = whole.length + fraction.length + exponent.length := by
    simp only [List.length_append]
  -- each part ends in the characters in front, so that it is the same before white space
  have hdrop {n : Nat} (hn : n ≤ xs.length) (tail : List Char) : (xs ++ tail).drop n = xs.drop n ++ tail :=
    List.drop_append_of_le_length hn
  have hw' : (xs ++ after).takeWhile Char.isDigit = whole := by
    have hle : ((xs ++ rest).takeWhile Char.isDigit).length ≤ xs.length := by
      rw [hw]
      omega
    exact (takeWhile_settles hle (hafter.head_eq_false fun _ => isBlank_eq_false_of_isDigit)).trans hw
  have hf' : fractionText ((xs ++ after).drop whole.length) = fraction := by
    rw [hdrop (by omega)] at hf ⊢
    refine (fractionText_settles ?_ hafter).trans hf
    rw [hf, List.length_drop]
    omega
  have he' : exponentText ((xs ++ after).drop (whole.length + fraction.length)) = exponent := by
    rw [hdrop (by omega)] at he ⊢
    refine (exponentText_settles ?_ hafter).trans he
    rw [he, List.length_drop]
    omega
  have hs' : suffix? ((xs ++ after).drop (whole ++ fraction ++ exponent).length) = suffix := by
    rw [hdrop (by omega)] at hs ⊢
    refine (suffix?_settles ?_ hafter).trans hs
    rw [hs, List.length_drop]
    omega
  rw [scanNumber_of_parts hw' hf' he' hs', numberLiteral_position hliteral, hlength]

theorem exists_of_map_read {e : Char} {k n : Nat} {text : List Char} {read : Option (List Char × Nat)}
    (h : (read.map fun p => (e :: p.1, p.2 + k)) = some (text, n)) :
    ∃ t m, read = some (t, m) ∧ text = e :: t ∧ n = m + k := by
  obtain ⟨⟨t, m⟩, hread, hp⟩ := Option.map_eq_some_iff.1 h
  obtain ⟨rfl, rfl⟩ := Prod.mk.inj hp
  exact ⟨t, m, hread, rfl, rfl⟩

/-- A quoted text ends within what is read, and ends there before anything but another quote. -/
theorem quoted?_take {cs text : List Char} {n : Nat} (h : quoted? cs = some (text, n)) :
    0 < n ∧ n ≤ cs.length ∧ ∀ after : List Char, after.head? ≠ some '\x27' →
      quoted? (cs.take n ++ after) = some (text, n) := by
  fun_induction quoted? cs generalizing text n with
  | case1 => cases h
  | case2 cs ih =>
    obtain ⟨t, m, hm, rfl, rfl⟩ := exists_of_map_read h
    obtain ⟨hpos, hle, hread⟩ := ih hm
    refine ⟨by omega, by simpa using hle, fun after ha => ?_⟩
    have hquotes : quoted? ('\x27' :: '\x27' :: (cs.take m ++ after)) =
        (quoted? (cs.take m ++ after)).map fun p => ('\x27' :: p.1, p.2 + 2) := rfl
    simpa [hread after ha] using hquotes
  | case3 cs =>
    obtain ⟨rfl, rfl⟩ := Prod.mk.inj (Option.some.inj h)
    exact ⟨Nat.one_pos, by simp, fun after ha => by simpa using quoted?_closing ha⟩
  | case4 => cases h
  | case5 c cs e he ih =>
    obtain ⟨t, m, hm, rfl, rfl⟩ := exists_of_map_read h
    obtain ⟨hpos, hle, hread⟩ := ih hm
    refine ⟨by omega, by simpa using hle, fun after ha => ?_⟩
    simpa [hread after ha] using quoted?_backslash he (cs.take m ++ after)
  | case6 c cs he ih =>
    obtain ⟨t, m, hm, rfl, rfl⟩ := exists_of_map_read h
    obtain ⟨hpos, hle, hread⟩ := ih hm
    refine ⟨by omega, by simpa using hle, fun after ha => ?_⟩
    obtain ⟨m, rfl⟩ := Nat.exists_eq_succ_of_ne_zero (Nat.ne_of_gt hpos)
    have hlone : quoted? ('\\' :: c :: (cs.take m ++ after)) =
        (quoted? (c :: (cs.take m ++ after))).map fun p => ('\\' :: p.1, p.2 + 1) := by
      rw [quoted?.eq_def]
      simp [he]
    have hnext := hread after ha
    simp only [Nat.succ_eq_add_one, List.take_succ_cons, List.cons_append] at hnext ⊢
    rw [hlone, hnext]
    rfl
  | case7 c cs _ hquote hend hback ih =>
    obtain ⟨t, m, hm, rfl, rfl⟩ := exists_of_map_read h
    obtain ⟨hpos, hle, hread⟩ := ih hm
    have hc : c ≠ '\\' := by
      rintro rfl
      cases cs with
      | nil => exact hend rfl rfl
      | cons d cs => exact hback d cs rfl rfl
    refine ⟨by omega, by simpa using hle, fun after ha => ?_⟩
    simpa [hread after ha] using quoted?_cons hquote hc (cs.take m ++ after)

theorem scanQuoted_le (start : Nat) (tag : QuoteTag) (cs : List Char) : (scanQuoted start tag cs).2 ≤ cs.length := by
  unfold scanQuoted
  split
  · next text n h => exact (quoted?_take h).2.1
  · exact Nat.le_refl _

theorem settles_scanQuoted (tag : QuoteTag) : Settles fun start cs => scanQuoted start tag cs := by
  intro start xs rest lexeme h position after hafter
  dsimp only at h ⊢
  unfold scanQuoted at h
  split at h
  · next text n hread =>
    obtain ⟨hliteral, rfl⟩ := Prod.mk.inj h
    have hagain := (quoted?_take hread).2.2 after (hafter.head_ne (by decide))
    rw [List.take_left] at hagain
    rw [scanQuoted, hagain]
    exact congrArg (·, xs.length) (taggedLiteral_position hliteral position)
  · cases (Prod.mk.inj h).1

theorem scanWord_tagged {c : Char} {cs more later : List Char} {tag : QuoteTag}
    (hmore : cs.takeWhile isWordChar = more) (htag : QuoteTag.ofWord? (String.ofList (c :: more)) = some tag)
    (hlater : cs.drop more.length = '\x27' :: later) (start : Nat) :
    scanWord start c cs = ((scanQuoted start tag later).1, more.length + 1 + (scanQuoted start tag later).2) := by
  subst hmore
  unfold scanWord
  simp only [htag, hlater]

theorem scanWord_untagged {c : Char} {cs more : List Char} (hmore : cs.takeWhile isWordChar = more)
    (h : ∀ tag later, QuoteTag.ofWord? (String.ofList (c :: more)) = some tag →
      cs.drop more.length ≠ '\x27' :: later) (start : Nat) :
    scanWord start c cs = (.ok (wordLexeme (String.ofList (c :: more))), more.length) := by
  subst hmore
  unfold scanWord
  dsimp only
  split
  · next tag later htag hlater => exact absurd hlater (h tag later htag)
  · rfl

theorem scanWord_le (start : Nat) (c : Char) (cs : List Char) : (scanWord start c cs).2 ≤ cs.length := by
  have hmore := (List.takeWhile_sublist (p := isWordChar) (l := cs)).length_le
  by_cases h : ∀ tag later, QuoteTag.ofWord? (String.ofList (c :: cs.takeWhile isWordChar)) = some tag →
      cs.drop (cs.takeWhile isWordChar).length ≠ '\x27' :: later
  · rw [scanWord_untagged rfl h]
    exact hmore
  · push Not at h
    obtain ⟨tag, later, htag, hlater⟩ := h
    have hquoted := scanQuoted_le start tag later
    have hlength := congrArg List.length hlater
    rw [List.length_drop, List.length_cons] at hlength
    rw [scanWord_tagged rfl htag hlater]
    dsimp only
    omega

theorem settles_scanWord (c : Char) : Settles fun start cs => scanWord start c cs := by
  intro start xs rest lexeme h position after hafter
  dsimp only at h ⊢
  obtain ⟨more, hmore⟩ : ∃ more, (xs ++ rest).takeWhile isWordChar = more := ⟨_, rfl⟩
  have hmore' (hle : more.length ≤ xs.length) : (xs ++ after).takeWhile isWordChar = more := by
    rw [← hmore] at hle
    exact (takeWhile_settles hle (hafter.head_eq_false fun _ => isBlank_eq_false_of_isWordChar)).trans hmore
  by_cases htags : ∀ tag later, QuoteTag.ofWord? (String.ofList (c :: more)) = some tag →
      (xs ++ rest).drop more.length ≠ '\x27' :: later
  · rw [scanWord_untagged hmore htags] at h
    obtain ⟨hlexeme, hlength⟩ := Prod.mk.inj h
    rw [scanWord_untagged (hmore' (Nat.le_of_eq hlength)), hlexeme, hlength]
    intro tag later _ hlater
    rw [hlength, List.drop_left] at hlater
    have hquote : after.head? ≠ some '\x27' := hafter.head_ne (by decide)
    rw [hlater] at hquote
    exact hquote rfl
  · push Not at htags
    obtain ⟨tag, later, htag, hlater⟩ := htags
    rw [scanWord_tagged hmore htag hlater] at h
    obtain ⟨hlexeme, hlength⟩ := Prod.mk.inj h
    -- the opening quote is among the characters in front, and the quoted text is what is left of them
    have hle : more.length ≤ xs.length := by omega
    rw [List.drop_append_of_le_length hle] at hlater
    obtain ⟨ys, hys⟩ : ∃ ys, xs.drop more.length = '\x27' :: ys := by
      cases hdrop : xs.drop more.length with
      | nil =>
        have := congrArg List.length hdrop
        rw [List.length_drop, List.length_nil] at this
        omega
      | cons y ys =>
        rw [hdrop] at hlater
        exact ⟨ys, by rw [(List.cons.inj hlater).1]⟩
    obtain rfl : ys ++ rest = later := by
      rw [hys] at hlater
      exact (List.cons.inj hlater).2
    have hys_length : more.length + 1 + ys.length = xs.length := by
      have := congrArg List.length hys
      rw [List.length_drop, List.length_cons] at this
      omega
    have hquoted : scanQuoted start tag (ys ++ rest) = (.ok lexeme, ys.length) := Prod.ext hlexeme (by omega)
    have hagain : scanQuoted position tag (ys ++ after) = _ := settles_scanQuoted tag hquoted position hafter
    have hlater' : (xs ++ after).drop more.length = '\x27' :: (ys ++ after) := by
      rw [List.drop_append_of_le_length hle, hys]
      rfl
    rw [scanWord_tagged (hmore' hle) htag hlater', hagain, hys_length]

theorem scanMinus_of_ne {cs : List Char} (hI : cs.head? ≠ some 'I')
    (hdigit : ∀ c, cs.head? = some c → c.isDigit = false) (start : Nat) :
    scanMinus start cs = (.ok (.punctuation .minus), 0) := by
  unfold scanMinus
  split
  · exact absurd rfl hI
  · next c _ _ => rw [hdigit c rfl, if_neg Bool.false_ne_true]
  · rfl

theorem scanMinus_digit {c : Char} (h : c.isDigit = true) (cs : List Char) (start : Nat) :
    scanMinus start (c :: cs) = scanNumber start '-' (c :: cs) := by
  have hI : c ≠ 'I' := by
    rintro rfl
    exact absurd h (by decide)
  simp [scanMinus, hI, h]

/-- What a minus sign starts, by the length of what it takes. -/
theorem scanMinus_cases (start : Nat) (cs : List Char) :
    scanMinus start cs = (.ok (.punctuation .minus), 0) ∨
      (∃ rest, cs = 'I' :: 'N' :: 'F' :: rest ∧ wordGoesOn rest = false) ∨
      ∃ c rest, cs = c :: rest ∧ c.isDigit = true := by
  unfold scanMinus
  split
  · next rest =>
    cases hw : wordGoesOn rest with
    | true => exact .inl rfl
    | false => exact .inr (.inl ⟨rest, rfl, hw⟩)
  · next c rest _ =>
    cases hc : c.isDigit with
    | true => exact .inr (.inr ⟨c, rest, rfl, hc⟩)
    | false => exact .inl rfl
  · exact .inl rfl

theorem scanMinus_infinity {rest : List Char} (h : wordGoesOn rest = false) (start : Nat) :
    scanMinus start ('I' :: 'N' :: 'F' :: rest) = (.ok (plainLiteral (.float (-(1 / 0))) .double), 3) := by
  rw [scanMinus, h]
  rfl

theorem scanMinus_le (start : Nat) (cs : List Char) : (scanMinus start cs).2 ≤ cs.length := by
  rcases scanMinus_cases start cs with h | ⟨rest, rfl, h⟩ | ⟨c, rest, rfl, hc⟩
  · rw [h]
    exact Nat.zero_le _
  · rw [scanMinus_infinity h]
    simp
  · rw [scanMinus_digit hc]
    exact scanNumber_le ..

theorem scanNumber_pos {d : Char} (h : d.isDigit = true) (start : Nat) (c : Char) (cs : List Char) :
    0 < (scanNumber start c (d :: cs)).2 := by
  rw [scanNumber_of_parts rfl rfl rfl rfl]
  simp only [List.takeWhile_cons, h, if_true, List.length_append, List.length_cons]
  omega

theorem settles_scanMinus : Settles scanMinus := by
  intro start xs rest lexeme h position after hafter
  rcases scanMinus_cases start (xs ++ rest) with hminus | ⟨tail, htail, hword⟩ | ⟨c, tail, htail, hc⟩
  · obtain ⟨hlexeme, hlength⟩ := Prod.mk.inj (hminus.symm.trans h)
    obtain rfl : xs = [] := List.length_eq_zero_iff.1 hlength.symm
    rw [← hlexeme]
    exact scanMinus_of_ne (hafter.head_ne (by decide))
      (hafter.head_eq_false fun _ => isBlank_eq_false_of_isDigit) position
  · rw [htail, scanMinus_infinity hword] at h
    obtain ⟨hlexeme, hlength⟩ := Prod.mk.inj h
    obtain rfl : xs = ['I', 'N', 'F'] := by
      have := congrArg (List.take xs.length) htail
      rw [List.take_left, ← hlength] at this
      exact this
    rw [← hlexeme]
    exact scanMinus_infinity (wordGoesOn_of_spaced hafter) position
  · have hpos : 0 < xs.length := by
      have := scanNumber_pos hc start '-' tail
      rw [← scanMinus_digit hc, ← htail, h] at this
      exact this
    obtain ⟨x, xs, rfl⟩ := List.exists_cons_of_length_pos hpos
    obtain rfl : x = c := (List.cons.inj htail).1
    have hnumber : scanNumber start '-' (x :: xs ++ rest) = (.ok lexeme, (x :: xs).length) :=
      (scanMinus_digit hc ..).symm.trans h
    exact (scanMinus_digit hc ..).trans (settles_scanNumber '-' hnumber position hafter)

/-- The scan of punctuation takes nothing more. -/
theorem settles_of_eq {lexeme : Lexeme} {scan : Nat → List Char → Scanning}
    (h : ∀ start cs, scan start cs = (.ok lexeme, 0)) : Settles scan := by
  intro start xs rest l hl position after _
  rw [h] at hl ⊢
  exact hl

/-- A token is the same before any white space. -/
theorem settles_scanLexeme (c : Char) : Settles fun start cs => scanLexeme start c cs := by
  obtain ⟨scan, hstarts, hscan⟩ := exists_starts c
  rw [funext₂ hscan]
  cases hstarts with
  | punctuation => exact settles_of_eq fun _ _ => rfl
  | minus => exact settles_scanMinus
  | quote => exact settles_scanQuoted .plain
  | digit => exact settles_scanNumber c
  | word => exact settles_scanWord c
  | failure =>
    intro start xs rest lexeme h
    cases (Prod.mk.inj h).1

theorem scanLexeme_le (start : Nat) (c : Char) (cs : List Char) : (scanLexeme start c cs).2 ≤ cs.length := by
  obtain ⟨scan, hstarts, hscan⟩ := exists_starts c
  rw [hscan]
  cases hstarts with
  | punctuation | failure => exact Nat.zero_le _
  | minus => exact scanMinus_le start cs
  | quote => exact scanQuoted_le start .plain cs
  | digit => exact scanNumber_le start c cs
  | word => exact scanWord_le start c cs

/-! ### Slices of a text -/

theorem byteLength_append (xs ys : List Char) : byteLength (xs ++ ys) = byteLength xs + byteLength ys := by
  induction xs with
  | nil => exact (Nat.zero_add _).symm
  | cons x xs ih =>
    change x.utf8Size + byteLength (xs ++ ys) = x.utf8Size + byteLength xs + byteLength ys
    rw [ih, Nat.add_assoc]

/-- The characters up to a byte offset and those from there on. There are none if the offset is beyond the text or
inside a character. -/
def splitBytes? : Nat → List Char → Option (List Char × List Char)
  | 0, cs => some ([], cs)
  | _ + 1, [] => none
  | n + 1, c :: cs =>
    if c.utf8Size ≤ n + 1 then (splitBytes? (n + 1 - c.utf8Size) cs).map fun p => (c :: p.1, p.2) else none

/-- The characters between two byte offsets. There are none if one of the offsets is no boundary of a character, or if
the second comes before the first. -/
def slice? (text : List Char) (start stop : Nat) : Option (List Char) :=
  if start ≤ stop then (splitBytes? start text).bind fun p => (splitBytes? (stop - start) p.2).map Prod.fst else none

theorem splitBytes?_append (xs ys : List Char) : splitBytes? (byteLength xs) (xs ++ ys) = some (xs, ys) := by
  induction xs with
  | nil =>
    cases ys <;> rfl
  | cons x xs ih =>
    have hsize : byteLength (x :: xs) = x.utf8Size + byteLength xs := rfl
    have hpos := x.utf8Size_pos
    obtain ⟨n, hn⟩ := Nat.exists_eq_succ_of_ne_zero (n := byteLength (x :: xs)) (by omega)
    rw [hn, List.cons_append, splitBytes?, if_pos (by omega), show n + 1 - x.utf8Size = byteLength xs by omega, ih]
    rfl

theorem slice?_append (xs ys zs : List Char) :
    slice? (xs ++ (ys ++ zs)) (byteLength xs) (byteLength xs + byteLength ys) = some ys := by
  rw [slice?, if_pos (Nat.le_add_right ..), splitBytes?_append, Option.bind_some, Nat.add_sub_cancel_left,
    splitBytes?_append]
  rfl

/-- The characters of a token. -/
def Token.source? (text : String) (t : Token) : Option String :=
  (slice? text.toList t.start t.stop).map String.ofList

/-- From a byte offset on a text is made of the tokens, none of them empty, with nothing but white space before each of
them and after the last. -/
inductive Covers (text : List Char) : Nat → List Token → Prop
  | finished {position : Nat} {gap : List Char} (hgap : slice? text position (byteLength text) = some gap)
      (hblank : gap.all isBlank = true) : Covers text position []
  | token {position : Nat} {gap source : List Char} {t : Token} {tokens : List Token}
      (hgap : slice? text position t.start = some gap) (hblank : gap.all isBlank = true)
      (hsource : slice? text t.start t.stop = some source) (hne : source ≠ []) (hlater : Covers text t.stop tokens) :
      Covers text position (t :: tokens)

/-! ### One token -/

/-- Before white space the characters are read as the lexeme. -/
def Standing (source : List Char) (lexeme : Lexeme) : Prop :=
  ∀ (position : Nat) (rest : List Char), Spaced rest → Cursor.scan ⟨position, source ++ rest⟩ =
    .token ⟨position, position + byteLength source, lexeme⟩ ⟨position + byteLength source, rest⟩

/-- What the scan of one token passes: white space and the characters of the token. -/
structure TokenStep (cursor after : Cursor) (t : Token) (gap source : List Char) : Prop where
  rest_eq : cursor.rest = gap ++ (source ++ after.rest)
  blank : gap.all isBlank = true
  ne_nil : source ≠ []
  start_eq : t.start = cursor.position + byteLength gap
  stop_eq : t.stop = t.start + byteLength source
  position_eq : after.position = t.stop
  standing : Standing source t.lexeme

theorem scan_blanks {gap : List Char} (h : gap.all isBlank = true) (position : Nat) (rest : List Char) :
    Cursor.scan ⟨position, gap ++ rest⟩ = Cursor.scan ⟨position + byteLength gap, rest⟩ := by
  have hskip : Cursor.skipBlanks ⟨position, gap ++ rest⟩ = Cursor.skipBlanks ⟨position + byteLength gap, rest⟩ := by
    have htake : (gap ++ rest).takeWhile isBlank = gap ++ rest.takeWhile isBlank :=
      List.takeWhile_append_of_pos (List.all_eq_true.1 h)
    simp only [Cursor.skipBlanks, Cursor.advance, htake, List.length_append, List.take_length_add_append,
      List.drop_length_add_append, byteLength_append, Nat.add_assoc]
  simp only [Cursor.scan, hskip]

theorem scan_of_lexeme {c : Char} {cs : List Char} {lexeme : Lexeme} {position n : Nat} (hc : isBlank c = false)
    (h : scanLexeme position c cs = (.ok lexeme, n)) : Cursor.scan ⟨position, c :: cs⟩ =
      .token ⟨position, position + byteLength ((c :: cs).take (n + 1)), lexeme⟩
        ⟨position + byteLength ((c :: cs).take (n + 1)), (c :: cs).drop (n + 1)⟩ := by
  simp only [Cursor.scan, Cursor.skipBlanks_of_not_blank position cs hc, h, Cursor.advance]

theorem scan_of_failure {c : Char} {cs : List Char} {cause : LexError} {position n : Nat} (hc : isBlank c = false)
    (h : scanLexeme position c cs = (.error cause, n)) :
    ∃ after, Cursor.scan ⟨position, c :: cs⟩ = .failed cause after := by
  simp only [Cursor.scan, Cursor.skipBlanks_of_not_blank position cs hc, h]
  exact ⟨_, rfl⟩

/-- After the white space there is nothing, or a character to start a token. -/
theorem exists_blanks (cursor : Cursor) :
    ∃ gap rest, cursor.rest = gap ++ rest ∧ gap.all isBlank = true ∧
      cursor.scan = Cursor.scan ⟨cursor.position + byteLength gap, rest⟩ ∧
      (rest = [] ∨ ∃ c cs, rest = c :: cs ∧ isBlank c = false) := by
  have hsplit := (List.takeWhile_append_dropWhile (p := isBlank) (l := cursor.rest)).symm
  refine ⟨_, _, hsplit, List.all_takeWhile, ?_, ?_⟩
  · have hcursor : cursor = ⟨cursor.position, cursor.rest.takeWhile isBlank ++ cursor.rest.dropWhile isBlank⟩ := by
      rw [← hsplit]
    exact (congrArg Cursor.scan hcursor).trans (scan_blanks List.all_takeWhile ..)
  · cases hrest : cursor.rest.dropWhile isBlank with
    | nil => exact .inl rfl
    | cons c cs =>
      have hhead := List.head?_dropWhile_not isBlank cursor.rest
      rw [hrest] at hhead
      exact .inr ⟨c, cs, rfl, by simpa using hhead⟩

theorem standing_of_scanLexeme {c : Char} {cs : List Char} {lexeme : Lexeme} {start n : Nat} (hc : isBlank c = false)
    (h : scanLexeme start c cs = (.ok lexeme, n)) (hn : n ≤ cs.length) : Standing (c :: cs.take n) lexeme := by
  intro position after hafter
  have hlength : (cs.take n).length = n := List.length_take_of_le hn
  have hread : scanLexeme start c (cs.take n ++ cs.drop n) = (.ok lexeme, (cs.take n).length) := by
    rw [List.take_append_drop, hlength, h]
  exact Cursor.scan_eq_token _ after hc (settles_scanLexeme c hread position hafter)

/-- What a scan can do: there is only white space left, or it fails, or it passes white space and a token. -/
theorem scan_cases (cursor : Cursor) :
    (cursor.scan = .finished ∧ cursor.rest.all isBlank = true) ∨
      (∃ cause after, cursor.scan = .failed cause after) ∨
      ∃ t after gap source, cursor.scan = .token t after ∧ TokenStep cursor after t gap source := by
  obtain ⟨gap, rest, hrest, hblank, hscan, rfl | ⟨c, cs, rfl, hc⟩⟩ := exists_blanks cursor
  · rw [List.append_nil] at hrest
    exact .inl ⟨hscan, hrest ▸ hblank⟩
  · rcases hlexeme : scanLexeme (cursor.position + byteLength gap) c cs with ⟨cause | lexeme, n⟩
    · obtain ⟨after, hfailed⟩ := scan_of_failure hc hlexeme
      exact .inr (.inl ⟨cause, after, hscan.trans hfailed⟩)
    · have hn : n ≤ cs.length := by
        have := scanLexeme_le (cursor.position + byteLength gap) c cs
        rwa [hlexeme] at this
      refine .inr (.inr ⟨_, _, gap, c :: cs.take n, hscan.trans (scan_of_lexeme hc hlexeme), ?_⟩)
      exact ⟨by simpa using hrest, hblank, List.cons_ne_nil _ _, rfl, rfl, rfl, standing_of_scanLexeme hc hlexeme hn⟩

/-! ### All tokens -/

theorem scanAll_of_finished {cursor : Cursor} (h : cursor.scan = .finished) : cursor.scanAll = ⟨[], none, []⟩ := by
  rw [Cursor.scanAll]
  split <;> simp_all

theorem scanAll_of_failed {cursor after : Cursor} {cause : LexError} (h : cursor.scan = .failed cause after) :
    cursor.scanAll = ⟨[], some cause, after.rest⟩ := by
  rw [Cursor.scanAll]
  split <;> simp_all

/-- The slice of a text from which a token was read. -/
def IsSource (text : List Char) (t : Token) (source : List Char) : Prop :=
  slice? text t.start t.stop = some source ∧ Standing source t.lexeme

/-- A token covers the text up to its end, if the ones after it do so from there on. -/
theorem TokenStep.covers {cursor after : Cursor} {t : Token} {gap source text before : List Char}
    (h : TokenStep cursor after t gap source) (htext : text = before ++ cursor.rest)
    (hposition : cursor.position = byteLength before) {tokens : List Token}
    (hlater : Covers text after.position tokens) :
    Covers text cursor.position (t :: tokens) ∧ IsSource text t source := by
  have hgap : slice? text cursor.position t.start = some gap := by
    rw [htext, h.rest_eq, h.start_eq, hposition]
    exact slice?_append ..
  have hsource : slice? text t.start t.stop = some source := by
    rw [htext, h.rest_eq, h.stop_eq, h.start_eq, hposition, ← byteLength_append, ← List.append_assoc]
    exact slice?_append ..
  exact ⟨.token hgap h.blank hsource h.ne_nil (h.position_eq ▸ hlater), hsource, h.standing⟩

/-- From any place in a text on, the tokens cover it, and each of them has a slice from which it was read. -/
theorem covers_scanAll {text : List Char} {cursor : Cursor} {before : List Char} (htext : text = before ++ cursor.rest)
    (hposition : cursor.position = byteLength before) (hok : cursor.scanAll.failure = none) :
    Covers text cursor.position cursor.scanAll.tokens ∧ ∃ sources, List.Forall₂ (IsSource text)
      cursor.scanAll.tokens sources := by
  induction hlength : cursor.rest.length using Nat.strong_induction_on generalizing cursor before with
  | h n ih =>
    rcases scan_cases cursor with ⟨hscan, hblank⟩ | ⟨cause, after, hscan⟩ | ⟨t, after, gap, source, hscan, hstep⟩
    · rw [scanAll_of_finished hscan]
      have hgap := slice?_append before cursor.rest []
      rw [List.append_nil, ← htext, ← byteLength_append, ← htext, ← hposition] at hgap
      exact ⟨.finished hgap hblank, [], .nil⟩
    · rw [scanAll_of_failed hscan] at hok
      cases hok
    · rw [scanAll_of_token hscan] at hok ⊢
      have hlater : text = before ++ gap ++ source ++ after.rest := by
        rw [htext, hstep.rest_eq, List.append_assoc, List.append_assoc]
      have hend : after.position = byteLength (before ++ gap ++ source) := by
        rw [hstep.position_eq, hstep.stop_eq, hstep.start_eq, hposition, byteLength_append, byteLength_append]
      obtain ⟨hcovers, sources, hsources⟩ := ih _ (hlength ▸ scan_length_lt hscan) hlater hend hok rfl
      obtain ⟨hcovers, hsource⟩ := hstep.covers htext hposition hcovers
      exact ⟨hcovers, source :: sources, .cons hsource hsources⟩

/-- Sources with white space between them are read as their lexemes. -/
theorem scanAll_sources {sources : List String} {lexemes : List Lexeme}
    (h : List.Forall₂ (fun s l => Standing s.toList l) sources lexemes) {separator : String} (hne : separator ≠ "")
    (hblank : isBlankText separator = true) (position : Nat) :
    ∃ tokens, Cursor.scanAll ⟨position, (joinWith separator sources).toList⟩ = ⟨tokens, none, []⟩ ∧
      tokens.map Token.lexeme = lexemes := by
  induction h generalizing position with
  | nil => exact ⟨[], scanAll_nil position, rfl⟩
  | @cons s l ss ls hs hmore ih =>
    cases hmore with
    | nil =>
      have hscan := hs position [] .nil
      rw [List.append_nil] at hscan
      exact ⟨_, (scanAll_of_token hscan).trans (by rw [scanAll_nil]), rfl⟩
    | @cons t m ss ls ht hmore =>
      have htext : (joinWith separator (s :: t :: ss)).toList =
          s.toList ++ (separator.toList ++ (joinWith separator (t :: ss)).toList) := by
        rw [joinWith, String.toList_append, String.toList_append, List.append_assoc]
      have hscan := hs position _
        (.of_blanks (mt String.toList_eq_nil_iff.1 hne) hblank (joinWith separator (t :: ss)).toList)
      have hskip := scanAll_congr (scan_blanks hblank (position + byteLength s.toList)
        (joinWith separator (t :: ss)).toList)
      obtain ⟨tokens, hall, hmap⟩ := ih (position + byteLength s.toList + byteLength separator.toList)
      refine ⟨⟨position, position + byteLength s.toList, l⟩ :: tokens, ?_, congrArg (l :: ·) hmap⟩
      rw [htext, scanAll_of_token hscan, hskip, hall]

/-- The tokens of a text cover it, with nothing but white space around them, and their sources with any white space
between them, such as single spaces, are tokenized into the same lexemes. -/
theorem tokenize_independent_of_spacing {text : String} {tokens : List Token} (h : tokenize text = .ok tokens) :
    Covers text.toList 0 tokens ∧
      ∃ sources : List String, tokens.map (Token.source? text) = sources.map some ∧
        ∀ separator : String, separator ≠ "" → isBlankText separator = true →
          ∃ again, tokenize (joinWith separator sources) = .ok again ∧
            again.map Token.lexeme = tokens.map Token.lexeme := by
  have hok : (scanText text).failure = none ∧ (scanText text).tokens = tokens := by
    unfold tokenize at h
    dsimp only at h
    split at h
    · next hnone => exact ⟨hnone, Except.ok.inj h⟩
    · cases h
  obtain ⟨hfailure, rfl⟩ := hok
  obtain ⟨hcovers, sources, hsources⟩ := covers_scanAll (List.nil_append text.toList).symm rfl hfailure
  refine ⟨hcovers, sources.map String.ofList, ?_, fun separator hne hblank => ?_⟩
  · rw [← List.forall₂_eq_eq_eq, List.map_map, List.forall₂_map_left_iff, List.forall₂_map_right_iff]
    exact hsources.imp fun t source ht => by rw [Token.source?, ht.1]; rfl
  · have hstanding : List.Forall₂ (fun s l => Standing s.toList l) (sources.map String.ofList)
        ((scanText text).tokens.map Token.lexeme) := by
      rw [List.forall₂_map_left_iff, List.forall₂_map_right_iff]
      exact hsources.flip.imp fun source t ht => by rw [String.toList_ofList]; exact ht.2
    obtain ⟨again, hscan, hmap⟩ := scanAll_sources hstanding hne hblank 0
    exact ⟨again, by rw [tokenize, scanText, hscan], hmap⟩

theorem tokenize_independent_of_spacing_touching :
    tokenize "a in(X'0f',-1L)" = .ok [⟨0, 1, .word "a"⟩, ⟨2, 4, .word "in"⟩, ⟨4, 5, .punctuation .parenOpen⟩,
        ⟨5, 10, .literal (.string "0F") .binary .binary⟩, ⟨10, 11, .punctuation .comma⟩,
        ⟨11, 14, .literal (.int (-1)) .long .plain⟩, ⟨14, 15, .punctuation .parenClose⟩] ∧
      ∃ again, tokenize "a in ( X'0f' , -1L )" = .ok again ∧
        again.map Token.lexeme = [.word "a", .word "in", .punctuation .parenOpen,
          .literal (.string "0F") .binary .binary, .punctuation .comma, .literal (.int (-1)) .long .plain,
          .punctuation .parenClose] := by
  have htokens : tokenize "a in(X'0f',-1L)" = .ok [⟨0, 1, .word "a"⟩, ⟨2, 4, .word "in"⟩,
      ⟨4, 5, .punctuation .parenOpen⟩, ⟨5, 10, .literal (.string "0F") .binary .binary⟩,
      ⟨10, 11, .punctuation .comma⟩, ⟨11, 14, .literal (.int (-1)) .long .plain⟩,
      ⟨14, 15, .punctuation .parenClose⟩] := by
    with_unfolding_all rfl
  obtain ⟨_, sources, hsources, hagain⟩ := tokenize_independent_of_spacing htokens
  obtain rfl : ["a", "in", "(", "X'0f'", ",", "-1L", ")"] = sources :=
    List.map_injective_iff.2 (Option.some_injective _) hsources
  exact ⟨htokens, hagain " " (by decide) (by decide)⟩

end SqlQuery.Filter
