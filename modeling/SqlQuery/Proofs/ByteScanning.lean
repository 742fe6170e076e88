import SqlQuery.Proofs.TokenSpacing

/-!
# Scanning with a byte offset

The scanner of filters cuts its text by number of characters, and none of its cuts can miss. Here is the other way to
scan, with an offset that counts bytes: every look at the text cuts it at the offset, and a cut within a character or
behind the end has no outcome. Neither has a loop that takes more rounds than it is given, which are as many as there
are characters in the text and one more.

`Takes` relates such a program to the characters that the scanner takes. It follows that the programs always end, and
that they give the tokens of the scanner (`tokenize_eq`).
-/

namespace SqlQuery.Filter

open SqlQuery.Text

/-- A program that moves a byte offset. -/
abbrev ByteScan (α : Type) := StateT Nat Option α

namespace ByteScan

variable {α : Type} (text : List Char)

/-- No outcome. -/
def stop : ByteScan α := fun _ => none

/-- The offset. -/
def offset : ByteScan Nat := fun i => some (i, i)

/-- Moves the offset on. -/
def skip (bytes : Nat) : ByteScan Unit := fun i => some ((), i + bytes)

/-- The text from the offset on. -/
def remaining : ByteScan (List Char) := fun i => (splitBytes? i text).map fun p => (p.2, i)

/-- The text from another offset up to the present one. -/
def textSince (start : Nat) : ByteScan (List Char) := fun i => (slice? text start i).map fun source => (source, i)

/-- What is left of a text behind so many bytes. -/
def cut (bytes : Nat) (rest : List Char) : ByteScan (List Char) := fun i =>
  (splitBytes? bytes rest).map fun p => (p.2, i)

/-- The character so many places on. -/
def peekAt (n : Nat) : ByteScan (Option Char) := do
  let rest ← remaining text
  return rest[n]?

/-- The character that comes next. -/
def peek : ByteScan (Option Char) := peekAt text 0

/-- Reads a character if there is one. -/
def pop : ByteScan (Option Char) := do
  match ← peek text with
  | none => return none
  | some c =>
    skip c.utf8Size
    return some c

/-- Reads a character if it is the one given. -/
def consume (c : Char) : ByteScan Bool := do
  if (← peek text) = some c then
    skip c.utf8Size
    return true
  else return false

/-- Reads a word if it does not go on. -/
def consumeWord (word : List Char) : ByteScan Bool := do
  let rest ← remaining text
  if word.isPrefixOf rest then
    let behind ← cut (byteLength word) rest
    if wordGoesOn behind then return false
    else
      skip (byteLength word)
      return true
  else return false

/-- Reads characters of a class as long as there are any, in so many rounds. -/
def consumeWhileFor (p : Char → Bool) : Nat → ByteScan Unit
  | 0 => stop
  | rounds + 1 => do
    match ← peek text with
    | none => return ()
    | some c =>
      if p c then
        skip c.utf8Size
        consumeWhileFor p rounds
      else return ()

/-- Reads characters of a class as long as there are any. -/
def consumeWhile (p : Char → Bool) : ByteScan Unit := consumeWhileFor text p (text.length + 1)

/-- Reads a point with digits behind it, and whether there was one. The point is one byte. -/
def consumeFraction : ByteScan Bool := do
  if (← peek text) = some '.' then
    if (← peekAt text 1).any Char.isDigit then
      skip 1
      consumeWhile text Char.isDigit
      return true
    else return false
  else return false

/-- Reads an exponent, and whether there was one. The letter and the sign are one byte each. -/
def consumeExponent : ByteScan Bool := do
  let c? ← peek text
  if c? = some 'e' ∨ c? = some 'E' then
    let sign? ← peekAt text 1
    let digitAt := if sign? = some '+' ∨ sign? = some '-' then 2 else 1
    if (← peekAt text digitAt).any Char.isDigit then
      skip digitAt
      consumeWhile text Char.isDigit
      return true
    else return false
  else return false

/-- Reads the suffix of a number. The letter is one byte. -/
def consumeSuffix : ByteScan (Option Suffix) := do
  match (← peek text).bind Suffix.ofChar? with
  | none => return none
  | some suffix =>
    if (← peekAt text 1).any isWordChar then return none
    else
      skip 1
      return some suffix

/-- The number that starts at an offset, of which the first character has been read. -/
def number (start : Nat) : ByteScan (Except LexError Lexeme) := do
  consumeWhile text Char.isDigit
  let hasFraction ← consumeFraction text
  let hasExponent ← consumeExponent text
  let source ← textSince text start
  let suffix ← consumeSuffix text
  return numberLiteral source (hasFraction || hasExponent) suffix start

/-- A quoted text up to its closing quote, after some that has been read, in so many rounds. -/
def quotedFor (start : Nat) : Nat → List Char → ByteScan (Except LexError (List Char))
  | 0, _ => stop
  | rounds + 1, body => do
    match ← pop text with
    | none => return .error (.unterminatedString start)
    | some c =>
      if c = '\x27' then
        if ← consume text '\x27' then quotedFor start rounds (body ++ ['\x27']) else return .ok body
      else if c = '\\' then
        match ← peek text with
        | none => return .error (.unterminatedString start)
        | some letter =>
          match unescape? letter with
          | none => quotedFor start rounds (body ++ ['\\'])
          | some e =>
            let _ ← pop text
            quotedFor start rounds (body ++ [e])
      else quotedFor start rounds (body ++ [c])

/-- The literal of a tag, of which the opening quote has been read. -/
def literal (start : Nat) (tag : QuoteTag) : ByteScan (Except LexError Lexeme) := do
  match ← quotedFor text start (text.length + 1) [] with
  | .error cause => return .error cause
  | .ok body => return taggedLiteral tag (String.ofList body) start

/-- The literal that a word tags, or the word. -/
def tagged (start : Nat) (source : List Char) : ByteScan (Except LexError Lexeme) :=
  match QuoteTag.ofWord? (String.ofList source) with
  | none => return .ok (wordLexeme (String.ofList source))
  | some tag => do
    if (← peek text) = some '\x27' then
      let _ ← pop text
      literal text start tag
    else return .ok (wordLexeme (String.ofList source))

/-- The word that starts at an offset, or the literal that it tags. -/
def word (start : Nat) : ByteScan (Except LexError Lexeme) := do
  consumeWhile text isWordChar
  let source ← textSince text start
  tagged text start source

/-- What a minus sign starts. -/
def minus (start : Nat) : ByteScan (Except LexError Lexeme) := do
  if (← peek text).any Char.isDigit then number text start
  else if ← consumeWord text ['I', 'N', 'F'] then return .ok (plainLiteral (.float (-(1 / 0))) .double)
  else return .ok (.punctuation .minus)

/-- What starts with a character that has been read. -/
def lexeme (start : Nat) (c : Char) : ByteScan (Except LexError Lexeme) :=
  if c = '(' then return .ok (.punctuation .parenOpen)
  else if c = ')' then return .ok (.punctuation .parenClose)
  else if c = '/' then return .ok (.punctuation .slash)
  else if c = ',' then return .ok (.punctuation .comma)
  else if c = '-' then minus text start
  else if c = '\x27' then literal text start .plain
  else if c.isDigit then number text start
  else if isWordStart c then word text start
  else return .error (.unexpectedCharacter c start)

/-- The next token after any white space. -/
def nextToken : ByteScan (Except LexError (Option Token)) := do
  consumeWhile text isBlank
  let start ← offset
  match ← pop text with
  | none => return .ok none
  | some c =>
    match ← lexeme text start c with
    | .error cause => return .error cause
    | .ok lexeme =>
      let stop ← offset
      return .ok (some ⟨start, stop, lexeme⟩)

/-- All tokens, after some that have been read, in so many rounds. -/
def tokensFor : Nat → List Token → ByteScan (Except LexError (List Token))
  | 0, _ => stop
  | rounds + 1, read => do
    match ← nextToken text with
    | .error cause => return .error cause
    | .ok none => return .ok read
    | .ok (some t) => tokensFor rounds (read ++ [t])

/-- The tokens of a text, if scanning it has an outcome. -/
def tokenize (text : String) : Option (Except LexError (List Token)) :=
  (tokensFor text.toList (text.toList.length + 1) [] 0).map Prod.fst

/-! ### Places in a text -/

end ByteScan

theorem Cursor.advance_advance (c : Cursor) (n k : Nat) : (c.advance n).advance k = c.advance (n + k) := by
  simp only [Cursor.advance, List.drop_drop, List.take_add, byteLength_append, Nat.add_assoc]

theorem Cursor.rest_advance_one {c : Cursor} {a : Char} {rest : List Char} (h : c.rest = a :: rest) :
    (c.advance 1).rest = rest := by
  rw [Cursor.advance, h]
  rfl

/-- The place is one of the text: its position is the number of bytes before it. -/
def Cursor.Within (text : List Char) (c : Cursor) : Prop :=
  ∃ before, text = before ++ c.rest ∧ c.position = byteLength before

namespace Cursor.Within

variable {text : List Char} {c : Cursor}

theorem start (text : List Char) : Within text ⟨0, text⟩ := ⟨[], rfl, rfl⟩

theorem length_le (h : Within text c) : c.rest.length ≤ text.length := by
  obtain ⟨before, htext, -⟩ := h
  rw [htext, List.length_append]
  exact Nat.le_add_left ..

theorem advance (h : Within text c) (n : Nat) : Within text (c.advance n) := by
  obtain ⟨before, htext, hposition⟩ := h
  refine ⟨before ++ c.rest.take n, ?_, ?_⟩
  · rw [htext, List.append_assoc]
    exact congrArg (before ++ ·) (List.take_append_drop n c.rest).symm
  · rw [byteLength_append, ← hposition]
    rfl

end Cursor.Within

namespace ByteScan

variable {text : List Char} {c : Cursor} {α β : Type}

/-- From a place on, a program takes so many characters and gives an answer. -/
def Takes (m : ByteScan α) (c : Cursor) (n : Nat) (a : α) : Prop := m c.position = some (a, (c.advance n).position)

namespace Takes

variable {m : ByteScan α} {f : α → ByteScan β} {n k : Nat} {a : α} {b : β}

theorem pure (a : α) : Takes (Pure.pure a) c 0 a := rfl

theorem bind (h : Takes m c n a) (hf : Takes (f a) (c.advance n) k b) : Takes (m >>= f) c (n + k) b := by
  have hrun : (m >>= f) c.position = (m c.position).bind fun p => f p.1 p.2 := rfl
  unfold Takes
  rw [hrun, show m c.position = _ from h, Option.bind_some, show f a (c.advance n).position = _ from hf,
    Cursor.advance_advance]

theorem bind_look (h : Takes m c 0 a) (hf : Takes (f a) c n b) : Takes (m >>= f) c n b := by
  have hbind : Takes (m >>= f) c (0 + n) b := h.bind hf
  rwa [Nat.zero_add] at hbind

theorem bind_pure (h : Takes m c n a) (b : β) (hf : f a = Pure.pure b) : Takes (m >>= f) c n b :=
  h.bind (k := 0) (hf ▸ pure b)

/-- A choice of programs beside one of what they take and give. -/
theorem ite {p : Prop} [Decidable p] {x y : ByteScan α} {s t : α × Nat} (hx : p → Takes x c s.2 s.1)
    (hy : ¬ p → Takes y c t.2 t.1) :
    Takes (if p then x else y) c (if p then s else t).2 (if p then s else t).1 := by
  by_cases hp : p
  · simp only [if_pos hp]
    exact hx hp
  · simp only [if_neg hp]
    exact hy hp

end Takes

/-! ### Steps -/

theorem offset_takes : Takes offset c 0 c.position := rfl

theorem skip_takes {n bytes : Nat} (h : byteLength (c.rest.take n) = bytes) : Takes (skip bytes) c n () := by
  rw [Takes, skip, ← h]
  rfl

theorem byteLength_singleton (a : Char) : byteLength [a] = a.utf8Size := rfl

theorem skip_head {a : Char} {rest : List Char} (h : c.rest = a :: rest) : Takes (skip a.utf8Size) c 1 () :=
  skip_takes (by rw [h, List.take_succ_cons, List.take_zero, byteLength_singleton])

section Looks

variable (h : c.Within text)
include h

theorem remaining_takes : Takes (remaining text) c 0 c.rest := by
  obtain ⟨before, htext, hposition⟩ := h
  rw [Takes, remaining, htext, hposition, splitBytes?_append]
  exact congrArg (fun i => some (c.rest, i)) hposition.symm

theorem textSince_takes (n : Nat) : Takes (textSince text c.position) (c.advance n) 0 (c.rest.take n) := by
  obtain ⟨before, htext, hposition⟩ := h
  have hstop : (c.advance n).position = byteLength before + byteLength (c.rest.take n) := by
    rw [← hposition]
    rfl
  have hslice := slice?_append before (c.rest.take n) (c.rest.drop n)
  rw [List.take_append_drop, ← htext, ← hstop, ← hposition] at hslice
  rw [Takes, textSince, hslice]
  rfl

theorem peekAt_takes (n : Nat) : Takes (peekAt text n) c 0 c.rest[n]? :=
  (remaining_takes h).bind_pure _ rfl

theorem peek_takes : Takes (peek text) c 0 c.rest.head? := by
  rw [List.head?_eq_getElem?]
  exact peekAt_takes h 0

theorem peek_nil (hc : c.rest = []) : Takes (peek text) c 0 none := by
  have hpeek := peek_takes h
  rwa [hc] at hpeek

theorem peek_cons {a : Char} {rest : List Char} (hc : c.rest = a :: rest) : Takes (peek text) c 0 (some a) := by
  have hpeek := peek_takes h
  rwa [hc] at hpeek

theorem pop_nil (hc : c.rest = []) : Takes (pop text) c 0 none := (peek_nil h hc).bind_pure _ rfl

theorem pop_cons {a : Char} {rest : List Char} (hc : c.rest = a :: rest) : Takes (pop text) c 1 (some a) :=
  (peek_cons h hc).bind_look ((skip_head hc).bind_pure _ rfl)

theorem consume_of_head {a : Char} {rest : List Char} (hc : c.rest = a :: rest) : Takes (consume text a) c 1 true := by
  refine (peek_cons h hc).bind_look ?_
  rw [if_pos rfl]
  exact (skip_head hc).bind_pure _ rfl

theorem consume_of_head_ne {a : Char} (hc : c.rest.head? ≠ some a) : Takes (consume text a) c 0 false := by
  refine (peek_takes h).bind_pure _ ?_
  rw [if_neg hc]

theorem consumeWhileFor_takes (p : Char → Bool) {rounds : Nat} (hr : c.rest.length ≤ rounds) :
    Takes (consumeWhileFor text p (rounds + 1)) c (c.rest.takeWhile p).length () := by
  obtain ⟨rest, hc⟩ : ∃ rest, c.rest = rest := ⟨_, rfl⟩
  rw [hc] at hr ⊢
  induction rest generalizing c rounds with
  | nil =>
    rw [consumeWhileFor]
    exact (peek_nil h hc).bind_pure _ rfl
  | cons a rest ih =>
    obtain ⟨rounds, rfl⟩ := Nat.exists_eq_succ_of_ne_zero (Nat.ne_zero_of_lt hr)
    rw [consumeWhileFor]
    refine (peek_cons h hc).bind_look ?_
    dsimp only
    by_cases ha : p a = true
    · rw [if_pos ha, List.takeWhile_cons_of_pos ha, List.length_cons, Nat.add_comm (List.length _)]
      have hlater := ih (h.advance 1) (Nat.le_of_succ_le_succ hr) (Cursor.rest_advance_one hc)
      exact (skip_head hc).bind hlater
    · rw [if_neg ha, List.takeWhile_cons_of_neg ha]
      exact .pure ()

theorem consumeWhile_takes (p : Char → Bool) : Takes (consumeWhile text p) c (c.rest.takeWhile p).length () :=
  consumeWhileFor_takes h p h.length_le

end Looks

/-! ### Numbers -/

theorem takeWhile_eq_nil_iff_head {p : Char → Bool} {cs : List Char} :
    cs.takeWhile p = [] ↔ cs.head?.any p = false := by
  cases cs with
  | nil => simp
  | cons d cs => by_cases hd : p d = true <;> simp [hd]

theorem fraction_takes (h : c.Within text) :
    Takes (consumeFraction text) c (fractionText c.rest).length (!(fractionText c.rest).isEmpty) := by
  by_cases hpoint : c.rest.head? = some '.'
  · obtain ⟨rest, hc⟩ : ∃ rest, c.rest = '.' :: rest := ⟨c.rest.tail, (List.cons_head?_tail hpoint).symm⟩
    refine (peek_cons h hc).bind_look ?_
    rw [if_pos rfl]
    refine (peekAt_takes h 1).bind_look ?_
    rw [hc]
    cases rest with
    | nil => exact .pure false
    | cons d rest =>
      rw [fractionText_point]
      by_cases hd : d.isDigit = true
      · rw [if_pos hd, if_pos (by simpa using hd)]
        have hdigits := consumeWhile_takes (h.advance 1) Char.isDigit
        rw [Cursor.rest_advance_one hc, List.takeWhile_cons_of_pos hd] at hdigits
        have hskip : Takes (skip 1) c 1 () := skip_takes (by rw [hc]; rfl)
        rw [List.length_cons, Nat.add_comm]
        exact hskip.bind (hdigits.bind_pure true rfl)
      · rw [if_neg hd, if_neg (by simpa using hd)]
        exact .pure false
  · refine (peek_takes h).bind_look ?_
    rw [if_neg hpoint, fractionText_of_head_ne hpoint]
    exact .pure false

/-- The sign of an exponent is one byte if there is one. -/
theorem byteLength_exponentSign (cs : List Char) : byteLength (exponentSign cs) = (exponentSign cs).length := by
  unfold exponentSign
  split <;> rfl

theorem length_exponentSign (cs : List Char) :
    (exponentSign cs).length = if cs[0]? = some '+' ∨ cs[0]? = some '-' then 1 else 0 := by
  cases cs with
  | nil => rfl
  | cons x xs =>
    unfold exponentSign
    split <;> simp_all

theorem take_length_exponentSign (cs : List Char) : cs.take (exponentSign cs).length = exponentSign cs := by
  unfold exponentSign
  split <;> rfl

theorem exponent_takes (h : c.Within text) :
    Takes (consumeExponent text) c (exponentText c.rest).length (!(exponentText c.rest).isEmpty) := by
  obtain ⟨rest, hc⟩ : ∃ rest, c.rest = rest := ⟨_, rfl⟩
  cases rest with
  | nil =>
    refine (peek_nil h hc).bind_look ?_
    rw [hc]
    exact .pure false
  | cons e rest =>
    refine (peek_cons h hc).bind_look ?_
    rw [hc, exponentText_cons]
    by_cases he : e = 'e' ∨ e = 'E'
    · rw [if_pos (by simpa using he)]
      refine (peekAt_takes h 1).bind_look ?_
      -- the letter and the sign
      obtain ⟨n, hn⟩ : ∃ n, 1 + (exponentSign rest).length = n := ⟨_, rfl⟩
      have hsign : (if c.rest[1]? = some '+' ∨ c.rest[1]? = some '-' then 2 else 1) = n := by
        rw [← hn, length_exponentSign, hc, List.getElem?_cons_succ]
        split_ifs <;> rfl
      dsimp only
      rw [hsign]
      refine (peekAt_takes h n).bind_look ?_
      have hdigit : (c.rest[n]?.any Char.isDigit = true) ↔ exponentDigits rest ≠ [] := by
        rw [exponentDigits, Ne, takeWhile_eq_nil_iff_head, Bool.not_eq_false, hc, ← hn, Nat.add_comm,
          List.getElem?_cons_succ, List.head?_drop]
      by_cases hd : exponentDigits rest = []
      · rw [if_neg (mt hdigit.1 (not_not.2 hd)), if_neg (fun hand => hand.2 hd)]
        exact .pure false
      · rw [if_pos (hdigit.2 hd), if_pos ⟨he, hd⟩]
        have hskip : Takes (skip n) c n () := by
          refine skip_takes ?_
          rw [hc, ← hn, Nat.add_comm, List.take_succ_cons, take_length_exponentSign]
          change e.utf8Size + byteLength (exponentSign rest) = _
          rw [byteLength_exponentSign, Nat.add_comm]
          rcases he with rfl | rfl <;> rfl
        have hdigits := consumeWhile_takes (h.advance n) Char.isDigit
        have hrest : (c.advance n).rest = rest.drop (exponentSign rest).length := by
          change c.rest.drop n = _
          rw [hc, ← hn, Nat.add_comm, List.drop_succ_cons]
        rw [hrest] at hdigits
        have hlength : (e :: (exponentSign rest ++ exponentDigits rest)).length = n + (exponentDigits rest).length := by
          rw [List.length_cons, List.length_append, ← hn]
          omega
        rw [hlength]
        exact hskip.bind (hdigits.bind_pure true rfl)
    · rw [if_neg (by simpa using he), if_neg (fun hand => he hand.1)]
      exact .pure false

theorem utf8Size_eq_one_of_suffix {a : Char} {suffix : Suffix} (h : Suffix.ofChar? a = some suffix) :
    a.utf8Size = 1 := by
  unfold Suffix.ofChar? at h
  rcases ite_eq_iff.1 h with ⟨rfl | rfl, -⟩ | ⟨-, h⟩
  · rfl
  · rfl
  rcases ite_eq_iff.1 h with ⟨rfl | rfl, -⟩ | ⟨-, h⟩
  · rfl
  · rfl
  rcases ite_eq_iff.1 h with ⟨rfl | rfl, -⟩ | ⟨-, h⟩
  · rfl
  · rfl
  rcases ite_eq_iff.1 h with ⟨rfl | rfl, -⟩ | ⟨-, h⟩
  · rfl
  · rfl
  · cases h

theorem suffix_takes (h : c.Within text) :
    Takes (consumeSuffix text) c (suffixLength (suffix? c.rest)) (suffix? c.rest) := by
  obtain ⟨rest, hc⟩ : ∃ rest, c.rest = rest := ⟨_, rfl⟩
  cases rest with
  | nil =>
    refine (peek_nil h hc).bind_look ?_
    rw [hc]
    exact .pure none
  | cons a rest =>
    refine (peek_cons h hc).bind_look ?_
    rw [hc, suffix?]
    cases hs : Suffix.ofChar? a with
    | none =>
      rw [Option.bind_some, hs, ite_self]
      exact .pure none
    | some suffix =>
      rw [Option.bind_some, hs]
      refine (peekAt_takes h 1).bind_look ?_
      have hgoes : c.rest[1]?.any isWordChar = wordGoesOn rest := by
        rw [hc]
        cases rest <;> rfl
      rw [hgoes]
      by_cases hw : wordGoesOn rest = true
      · rw [if_pos hw, if_pos hw]
        exact .pure none
      · rw [if_neg hw, if_neg hw]
        have hskip := skip_head hc
        rw [utf8Size_eq_one_of_suffix hs] at hskip
        exact hskip.bind_pure _ rfl

/-- The texts that continue a number stand in front of what they are read from. -/
theorem fractionText_isPrefix (cs : List Char) : fractionText cs <+: cs := by
  unfold fractionText
  split
  · split
    · exact (List.prefix_cons_inj _).2 ((List.prefix_cons_inj _).2 (List.takeWhile_prefix _))
    · exact List.nil_prefix
  · exact List.nil_prefix

theorem exponentText_isPrefix (cs : List Char) : exponentText cs <+: cs := by
  cases cs with
  | nil => exact List.nil_prefix
  | cons e cs =>
    rw [exponentText_cons]
    by_cases he : (e = 'e' ∨ e = 'E') ∧ exponentDigits cs ≠ []
    · rw [if_pos he, List.prefix_cons_inj]
      conv_rhs => rw [← List.take_append_drop (exponentSign cs).length cs, take_length_exponentSign]
      exact (List.prefix_append_right_inj _).2 (List.takeWhile_prefix _)
    · rw [if_neg he]
      exact List.nil_prefix

/-- The parts of a number stand at the front of what it is read from. -/
theorem take_number {cs whole fraction exponent : List Char} (hw : cs.takeWhile Char.isDigit = whole)
    (hf : fractionText (cs.drop whole.length) = fraction)
    (he : exponentText (cs.drop (whole.length + fraction.length)) = exponent) :
    cs.take (whole.length + fraction.length + exponent.length) = whole ++ fraction ++ exponent := by
  have hw' := List.prefix_iff_eq_take.1 (List.takeWhile_prefix (l := cs) Char.isDigit)
  have hf' := List.prefix_iff_eq_take.1 (fractionText_isPrefix (cs.drop whole.length))
  have he' := List.prefix_iff_eq_take.1 (exponentText_isPrefix (cs.drop (whole.length + fraction.length)))
  rw [hw] at hw'
  rw [hf] at hf'
  rw [he] at he'
  rw [List.take_add, List.take_add, ← hw', ← hf', ← he']

theorem number_takes {a : Char} {cs : List Char} (h : c.Within text) (hc : c.rest = a :: cs) :
    Takes (number text c.position) (c.advance 1) (scanNumber c.position a cs).2 (scanNumber c.position a cs).1 := by
  obtain ⟨whole, hw⟩ : ∃ whole, cs.takeWhile Char.isDigit = whole := ⟨_, rfl⟩
  obtain ⟨fraction, hf⟩ : ∃ fraction, fractionText (cs.drop whole.length) = fraction := ⟨_, rfl⟩
  obtain ⟨exponent, he⟩ : ∃ exponent, exponentText (cs.drop (whole.length + fraction.length)) = exponent := ⟨_, rfl⟩
  obtain ⟨suffix, hs⟩ : ∃ suffix, suffix? (cs.drop (whole ++ fraction ++ exponent).length) = suffix := ⟨_, rfl⟩
  have hrest (n : Nat) : (c.advance (1 + n)).rest = cs.drop n := by
    change c.rest.drop (1 + n) = _
    rw [hc, Nat.add_comm, List.drop_succ_cons]
  have hwhole : Takes (consumeWhile text Char.isDigit) (c.advance 1) whole.length () := by
    have hdigits := consumeWhile_takes (h.advance 1) Char.isDigit
    rwa [Cursor.rest_advance_one hc, hw] at hdigits
  have hfraction : Takes (consumeFraction text) (c.advance (1 + whole.length)) fraction.length (!fraction.isEmpty) := by
    rw [← hf, ← hrest]
    exact fraction_takes (h.advance _)
  have hexponent : Takes (consumeExponent text) (c.advance (1 + (whole.length + fraction.length))) exponent.length
      (!exponent.isEmpty) := by
    rw [← he, ← hrest]
    exact exponent_takes (h.advance _)
  have hsource : Takes (textSince text c.position)
      (c.advance (1 + (whole.length + fraction.length + exponent.length))) 0 (a :: (whole ++ fraction ++ exponent)) := by
    have hsince := textSince_takes h (1 + (whole.length + fraction.length + exponent.length))
    rwa [hc, Nat.add_comm 1, List.take_succ_cons, take_number hw hf he, Nat.add_comm _ 1] at hsince
  have hsuffix : Takes (consumeSuffix text) (c.advance (1 + (whole.length + fraction.length + exponent.length)))
      (suffixLength suffix) suffix := by
    rw [List.length_append, List.length_append] at hs
    rw [← hs, ← hrest]
    exact suffix_takes (h.advance _)
  rw [scanNumber_of_parts hw hf he hs, List.length_append, List.length_append, Nat.add_assoc, Nat.add_assoc]
  refine hwhole.bind ?_
  rw [Cursor.advance_advance]
  refine hfraction.bind ?_
  rw [Cursor.advance_advance, Nat.add_assoc]
  refine hexponent.bind ?_
  rw [Cursor.advance_advance, Nat.add_assoc]
  exact hsource.bind_look (hsuffix.bind_pure _ rfl)

/-! ### Quoted texts and words -/

/-- A quoted text after some that has been read, and how many characters are read for it. -/
def quotedOutcome (start : Nat) (body cs : List Char) : Except LexError (List Char) × Nat :=
  match quoted? cs with
  | some (more, n) => (.ok (body ++ more), n)
  | none => (.error (.unterminatedString start), cs.length)

theorem quotedOutcome_step {start k : Nat} {body cs rest : List Char} {e : Char}
    (hread : quoted? cs = (quoted? rest).map fun p => (e :: p.1, p.2 + k)) (hlength : cs.length = rest.length + k) :
    quotedOutcome start body cs =
      ((quotedOutcome start (body ++ [e]) rest).1, k + (quotedOutcome start (body ++ [e]) rest).2) := by
  unfold quotedOutcome
  rw [hread, hlength]
  cases quoted? rest with
  | none => exact congrArg (Prod.mk _) (Nat.add_comm ..)
  | some p => simp [Nat.add_comm]

theorem quotedFor_takes (h : c.Within text) (start : Nat) {rounds : Nat} (hr : c.rest.length ≤ rounds)
    (body : List Char) :
    Takes (quotedFor text start (rounds + 1) body) c (quotedOutcome start body c.rest).2
      (quotedOutcome start body c.rest).1 := by
  obtain ⟨rest, hc⟩ : ∃ rest, c.rest = rest := ⟨_, rfl⟩
  rw [hc] at hr ⊢
  induction rest using quoted?.induct generalizing c body rounds with
  | case1 =>
    rw [quotedFor]
    exact (pop_nil h hc).bind_pure _ rfl
  | case2 rest ih =>
    obtain ⟨rounds, rfl⟩ := Nat.exists_eq_succ_of_ne_zero (Nat.ne_zero_of_lt hr)
    have hlater := ih (h.advance 2) (body ++ ['\x27']) (Nat.le_of_lt (Nat.le_of_succ_le_succ hr))
      (by rw [Cursor.advance, hc]; rfl)
    have hread : quoted? ('\x27' :: '\x27' :: rest) = (quoted? rest).map fun p => ('\x27' :: p.1, p.2 + 2) := rfl
    rw [quotedOutcome_step hread rfl, quotedFor]
    change Takes _ c (1 + 1 + _) _
    rw [Nat.add_assoc]
    refine (pop_cons h hc).bind ?_
    dsimp only
    rw [if_pos rfl]
    refine (consume_of_head (h.advance 1) (Cursor.rest_advance_one hc)).bind ?_
    rw [if_pos rfl, Cursor.advance_advance]
    exact hlater
  | case3 rest hne =>
    have hquote : rest.head? ≠ some '\x27' := fun hhead => hne _ (List.cons_head?_tail hhead).symm
    rw [quotedOutcome, quoted?_closing hquote, quotedFor]
    refine (pop_cons h hc).bind (k := 0) ?_
    dsimp only
    rw [if_pos rfl]
    have hconsume : Takes (consume text '\x27') (c.advance 1) 0 false :=
      consume_of_head_ne (h.advance 1) (by rwa [Cursor.rest_advance_one hc])
    refine hconsume.bind_look ?_
    rw [List.append_nil]
    exact .pure _
  | case4 =>
    rw [quotedFor]
    refine (pop_cons h hc).bind (k := 0) ?_
    dsimp only
    rw [if_neg (by decide), if_pos rfl]
    exact (peek_nil (h.advance 1) (Cursor.rest_advance_one hc)).bind_pure _ rfl
  | case5 letter rest e he ih =>
    obtain ⟨rounds, rfl⟩ := Nat.exists_eq_succ_of_ne_zero (Nat.ne_zero_of_lt hr)
    have hlater := ih (h.advance 2) (body ++ [e]) (Nat.le_of_lt (Nat.le_of_succ_le_succ hr))
      (by rw [Cursor.advance, hc]; rfl)
    rw [quotedOutcome_step (quoted?_backslash he rest) rfl, quotedFor]
    change Takes _ c (1 + 1 + _) _
    rw [Nat.add_assoc]
    refine (pop_cons h hc).bind ?_
    dsimp only
    rw [if_neg (by decide), if_pos rfl]
    refine (peek_cons (h.advance 1) (Cursor.rest_advance_one hc)).bind_look ?_
    dsimp only
    rw [he]
    refine (pop_cons (h.advance 1) (Cursor.rest_advance_one hc)).bind ?_
    rw [Cursor.advance_advance]
    exact hlater
  | case6 letter rest he ih =>
    obtain ⟨rounds, rfl⟩ := Nat.exists_eq_succ_of_ne_zero (Nat.ne_zero_of_lt hr)
    have hlater := ih (h.advance 1) (body ++ ['\\']) (Nat.le_of_succ_le_succ hr) (Cursor.rest_advance_one hc)
    have hread : quoted? ('\\' :: letter :: rest) = (quoted? (letter :: rest)).map fun p => ('\\' :: p.1, p.2 + 1) := by
      rw [quoted?.eq_def]
      simp [he]
    rw [quotedOutcome_step hread rfl, quotedFor]
    refine (pop_cons h hc).bind ?_
    dsimp only
    rw [if_neg (by decide), if_pos rfl]
    refine (peek_cons (h.advance 1) (Cursor.rest_advance_one hc)).bind_look ?_
    dsimp only
    rw [he]
    exact hlater
  | case7 a rest _ hquote hend hback ih =>
    obtain ⟨rounds, rfl⟩ := Nat.exists_eq_succ_of_ne_zero (Nat.ne_zero_of_lt hr)
    have hlater := ih (h.advance 1) (body ++ [a]) (Nat.le_of_succ_le_succ hr) (Cursor.rest_advance_one hc)
    have ha : a ≠ '\\' := by
      rintro rfl
      cases rest with
      | nil => exact hend rfl rfl
      | cons d rest => exact hback d rest rfl rfl
    rw [quotedOutcome_step (quoted?_cons hquote ha rest) rfl, quotedFor]
    refine (pop_cons h hc).bind ?_
    dsimp only
    rw [if_neg hquote, if_neg ha]
    exact hlater

theorem literal_takes (h : c.Within text) (start : Nat) (tag : QuoteTag) :
    Takes (literal text start tag) c (scanQuoted start tag c.rest).2 (scanQuoted start tag c.rest).1 := by
  have hquoted := quotedFor_takes h start h.length_le []
  unfold quotedOutcome at hquoted
  unfold scanQuoted
  cases hread : quoted? c.rest with
  | none =>
    rw [hread] at hquoted
    exact hquoted.bind_pure _ rfl
  | some p =>
    rw [hread] at hquoted
    exact hquoted.bind_pure _ rfl

/-- Behind a word, what is scanned for it and for what follows. -/
theorem tagged_takes (start : Nat) (a : Char) {cs more : List Char} (h : c.Within text)
    (hmore : cs.takeWhile isWordChar = more) (hc : c.rest = cs.drop more.length) :
    ∃ n, (scanWord start a cs).2 = more.length + n ∧
      Takes (tagged text start (a :: more)) c n (scanWord start a cs).1 := by
  unfold tagged
  cases htag : QuoteTag.ofWord? (String.ofList (a :: more)) with
  | none =>
    have huntagged : ∀ tag later, QuoteTag.ofWord? (String.ofList (a :: more)) = some tag →
        cs.drop more.length ≠ '\x27' :: later := by
      intro tag later hsome
      rw [htag] at hsome
      cases hsome
    rw [scanWord_untagged hmore huntagged]
    exact ⟨0, rfl, .pure _⟩
  | some tag =>
    by_cases hquote : c.rest.head? = some '\x27'
    · obtain ⟨later, hlater⟩ : ∃ later, c.rest = '\x27' :: later := ⟨_, (List.cons_head?_tail hquote).symm⟩
      have hliteral := literal_takes (h.advance 1) start tag
      rw [Cursor.rest_advance_one hlater] at hliteral
      rw [scanWord_tagged hmore htag (hc.symm.trans hlater)]
      refine ⟨1 + (scanQuoted start tag later).2, Nat.add_assoc .., ?_⟩
      refine (peek_cons h hlater).bind_look ?_
      rw [if_pos rfl]
      exact (pop_cons h hlater).bind hliteral
    · have huntagged : ∀ tag later, QuoteTag.ofWord? (String.ofList (a :: more)) = some tag →
          cs.drop more.length ≠ '\x27' :: later := by
        rintro _ later - hlater
        rw [hc, hlater] at hquote
        exact hquote rfl
      rw [scanWord_untagged hmore huntagged]
      refine ⟨0, rfl, (peek_takes h).bind_look ?_⟩
      rw [if_neg hquote]
      exact .pure _

theorem word_takes {a : Char} {cs : List Char} (h : c.Within text) (hc : c.rest = a :: cs) :
    Takes (word text c.position) (c.advance 1) (scanWord c.position a cs).2 (scanWord c.position a cs).1 := by
  obtain ⟨more, hmore⟩ : ∃ more, cs.takeWhile isWordChar = more := ⟨_, rfl⟩
  have hletters : Takes (consumeWhile text isWordChar) (c.advance 1) more.length () := by
    have hwhile := consumeWhile_takes (h.advance 1) isWordChar
    rwa [Cursor.rest_advance_one hc, hmore] at hwhile
  have hsource : Takes (textSince text c.position) (c.advance (1 + more.length)) 0 (a :: more) := by
    have htake : cs.take more.length = more := by
      rw [← hmore]
      exact (List.prefix_iff_eq_take.1 (List.takeWhile_prefix isWordChar)).symm
    have hsince := textSince_takes h (1 + more.length)
    rwa [hc, Nat.add_comm 1, List.take_succ_cons, htake, Nat.add_comm _ 1] at hsince
  have hrest : (c.advance (1 + more.length)).rest = cs.drop more.length := by
    change c.rest.drop (1 + more.length) = _
    rw [hc, Nat.add_comm, List.drop_succ_cons]
  obtain ⟨n, hn, htagged⟩ := tagged_takes c.position a (h.advance (1 + more.length)) hmore hrest
  rw [hn]
  refine hletters.bind ?_
  rw [Cursor.advance_advance]
  exact hsource.bind_look htagged

/-- A word that comes next is read unless it goes on. -/
theorem consumeWord_append {w rest : List Char} (h : c.Within text) (hc : c.rest = w ++ rest) :
    Takes (consumeWord text w) c (if wordGoesOn rest then 0 else w.length) (!wordGoesOn rest) := by
  refine (remaining_takes h).bind_look ?_
  rw [if_pos (by rw [hc]; exact List.isPrefixOf_iff_prefix.2 (List.prefix_append w rest))]
  have hcut : Takes (cut (byteLength w) c.rest) c 0 rest := by
    rw [Takes, cut, hc, splitBytes?_append]
    rfl
  refine hcut.bind_look ?_
  cases wordGoesOn rest with
  | true => exact .pure false
  | false =>
    have hskip : Takes (skip (byteLength w)) c w.length () := skip_takes (by rw [hc, List.take_left])
    exact hskip.bind_pure true rfl

theorem consumeWord_of_not_isPrefix {w : List Char} (h : c.Within text) (hw : ¬ w <+: c.rest) :
    Takes (consumeWord text w) c 0 false := by
  refine (remaining_takes h).bind_look ?_
  rw [if_neg (mt List.isPrefixOf_iff_prefix.1 hw)]
  exact .pure false

theorem minus_takes {cs : List Char} (h : c.Within text) (hc : c.rest = '-' :: cs) :
    Takes (minus text c.position) (c.advance 1) (scanMinus c.position cs).2 (scanMinus c.position cs).1 := by
  have hrest := Cursor.rest_advance_one hc
  refine (peek_takes (h.advance 1)).bind_look ?_
  rw [hrest]
  by_cases hdigit : cs.head?.any Char.isDigit = true
  · rw [if_pos hdigit]
    obtain ⟨d, hhead, hd⟩ := (Option.any_eq_true ..).1 hdigit
    obtain ⟨cs, rfl⟩ : ∃ tail, cs = d :: tail := ⟨_, (List.cons_head?_tail hhead).symm⟩
    rw [scanMinus_digit hd]
    exact number_takes h hc
  rw [if_neg hdigit]
  by_cases hword : ['I', 'N', 'F'] <+: cs
  · obtain ⟨rest, rfl⟩ := hword
    have hconsume := consumeWord_append (h.advance 1) hrest
    change Takes _ _ (scanMinus c.position ('I' :: 'N' :: 'F' :: rest)).2
      (scanMinus c.position ('I' :: 'N' :: 'F' :: rest)).1
    rw [scanMinus]
    cases hgoes : wordGoesOn rest with
    | true =>
      rw [hgoes] at hconsume
      exact hconsume.bind_pure _ rfl
    | false =>
      rw [hgoes] at hconsume
      exact hconsume.bind_pure _ rfl
  · have hconsume : Takes (consumeWord text ['I', 'N', 'F']) (c.advance 1) 0 false :=
      consumeWord_of_not_isPrefix (h.advance 1) (by rwa [hrest])
    rcases scanMinus_cases c.position cs with hminus | ⟨rest, rfl, -⟩ | ⟨d, rest, rfl, hd⟩
    · rw [hminus]
      exact hconsume.bind_pure _ rfl
    · exact absurd (List.prefix_append ['I', 'N', 'F'] rest) hword
    · exact absurd hd hdigit

/-! ### Tokens -/

theorem lexeme_takes {a : Char} {cs : List Char} (h : c.Within text) (hc : c.rest = a :: cs) :
    Takes (lexeme text c.position a) (c.advance 1) (scanLexeme c.position a cs).2 (scanLexeme c.position a cs).1 := by
  have hliteral := literal_takes (h.advance 1) c.position .plain
  rw [Cursor.rest_advance_one hc] at hliteral
  unfold lexeme scanLexeme
  refine .ite (fun _ => .pure _) fun _ => .ite (fun _ => .pure _) fun _ => ?_
  refine .ite (fun _ => .pure _) fun _ => .ite (fun _ => .pure _) fun _ => ?_
  refine .ite (fun hminus => minus_takes h (hminus ▸ hc)) fun _ => .ite (fun _ => hliteral) fun _ => ?_
  exact .ite (fun _ => number_takes h hc) fun _ => .ite (fun _ => word_takes h hc) fun _ => .pure _

/-- What a scan gives. -/
def answer : Scan → Except LexError (Option Token)
  | .finished => .ok none
  | .token t _ => .ok (some t)
  | .failed cause _ => .error cause

theorem nextToken_takes (h : c.Within text) : ∃ n, Takes (nextToken text) c n (answer c.scan) ∧
    ∀ t after, c.scan = .token t after → after = c.advance n := by
  obtain ⟨blanks, hblanks⟩ : ∃ blanks, (c.rest.takeWhile isBlank).length = blanks := ⟨_, rfl⟩
  have hskip : Takes (consumeWhile text isBlank) c blanks () := hblanks ▸ consumeWhile_takes h isBlank
  have hstart : c.skipBlanks = c.advance blanks := by rw [Cursor.skipBlanks, hblanks]
  have hwithin := h.advance blanks
  unfold Cursor.scan
  dsimp only
  rw [hstart]
  cases hrest : (c.advance blanks).rest with
  | nil =>
    refine ⟨blanks, hskip.bind (k := 0) (offset_takes.bind_look ((pop_nil hwithin hrest).bind_pure _ rfl)), ?_⟩
    rintro t after ⟨⟩
  | cons a cs =>
    obtain ⟨r, n, hlexeme⟩ : ∃ r n, scanLexeme (c.advance blanks).position a cs = (r, n) := ⟨_, _, rfl⟩
    have htakes := lexeme_takes hwithin hrest
    rw [hlexeme] at htakes
    dsimp only
    rw [hlexeme]
    refine ⟨blanks + (1 + n), ?_, ?_⟩
    · refine hskip.bind (offset_takes.bind_look ((pop_cons hwithin hrest).bind ?_))
      dsimp only
      cases r with
      | error cause => exact htakes.bind_pure _ rfl
      | ok l =>
        refine htakes.bind (k := 0) (offset_takes.bind_pure _ ?_)
        rw [Cursor.advance_advance, Nat.add_comm 1]
        rfl
    · intro t after hscan
      cases r with
      | error cause => cases hscan
      | ok l =>
        obtain ⟨-, rfl⟩ := Scan.token.inj hscan
        rw [Cursor.advance_advance, Nat.add_comm 1]

/-- The outcome of a scan of all tokens, after some that have been read. -/
def outcome (read : List Token) (scanned : Scanned) : Except LexError (List Token) :=
  match scanned.failure with
  | none => .ok (read ++ scanned.tokens)
  | some cause => .error cause

theorem outcome_cons (read : List Token) (t : Token) (later : Scanned) :
    outcome read ⟨t :: later.tokens, later.failure, later.rest⟩ = outcome (read ++ [t]) later := by
  rw [outcome, outcome, List.append_assoc]
  rfl

theorem tokensFor_takes (h : c.Within text) {rounds : Nat} (hr : c.rest.length < rounds) (read : List Token) :
    ∃ n, Takes (tokensFor text rounds read) c n (outcome read c.scanAll) := by
  induction rounds generalizing c read with
  | zero => exact absurd hr (Nat.not_lt_zero _)
  | succ rounds ih =>
    obtain ⟨n, hnext, hafter⟩ := nextToken_takes h
    rw [tokensFor]
    cases hscan : c.scan with
    | finished =>
      rw [hscan] at hnext
      rw [scanAll_of_finished hscan, outcome, List.append_nil]
      exact ⟨n, hnext.bind_pure _ rfl⟩
    | failed cause after =>
      rw [hscan] at hnext
      rw [scanAll_of_failed hscan]
      exact ⟨n, hnext.bind_pure _ rfl⟩
    | token t after =>
      rw [hscan] at hnext
      obtain rfl := hafter t after hscan
      have hlt := Nat.lt_of_lt_of_le (scan_length_lt hscan) (Nat.le_of_lt_succ hr)
      obtain ⟨k, hlater⟩ := ih (h.advance n) hlt (read ++ [t])
      rw [scanAll_of_token hscan, outcome_cons]
      exact ⟨n + k, hnext.bind hlater⟩

/-- Scanning with a byte offset ends for every text, and gives its tokens. -/
theorem tokenize_eq (text : String) : tokenize text = some (Filter.tokenize text) := by
  obtain ⟨n, hn⟩ := tokensFor_takes (Cursor.Within.start text.toList) (Nat.lt_succ_self _) []
  rw [tokenize, show tokensFor text.toList (text.toList.length + 1) [] 0 = _ from hn]
  rfl

end ByteScan

end SqlQuery.Filter
