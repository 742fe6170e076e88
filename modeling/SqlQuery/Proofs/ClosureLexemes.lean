import SqlQuery.Closure.Basic
import SqlQuery.Proofs.FilterScanning
import SqlQuery.Proofs.Utf8RoundTrip

/-!
# Words, numbers and strings of closures

`Scans text lexemes rest` says that bytes give some tokens when the rest stands after them, and that scanning goes on
with the rest. A word or a number is scanned if what follows is no part of it (`Delimited`), a string before anything.
Scanning goes by bytes: those of a character outside of ASCII are all parts of words, and none of them is a quote or a
backslash.
-/

namespace SqlQuery.Closure

open SqlQuery.Text.Utf8 (utf8EncodeChar_of_ascii le_of_mem_utf8EncodeChar decode_encode)

/-- The bytes of characters. -/
def bytes (cs : List Char) : List UInt8 := cs.flatMap String.utf8EncodeChar

theorem bytes_append (cs ds : List Char) : bytes (cs ++ ds) = bytes cs ++ bytes ds := List.flatMap_append

/-- What a token is and the bytes that it is read from. -/
def Token.lexeme (t : Token) : TokenKind × List UInt8 := (t.kind, t.bytes)

/-! ### Steps of the scanner -/

/-- The bytes before the rest give the tokens, and the rest is scanned after them. -/
def Scans (text : List UInt8) (lexemes : List (TokenKind × List UInt8)) (rest : List UInt8) : Prop :=
  ∀ position, ∃ tokens position', tokens.map Token.lexeme = lexemes ∧
    scanFrom position (text ++ rest) =
      ⟨tokens ++ (scanFrom position' rest).tokens, (scanFrom position' rest).failure,
        (scanFrom position' rest).finished⟩

theorem Scans.append {text text' rest : List UInt8} {lexemes lexemes' : List (TokenKind × List UInt8)}
    (h : Scans text lexemes (text' ++ rest)) (h' : Scans text' lexemes' rest) :
    Scans (text ++ text') (lexemes ++ lexemes') rest := by
  intro position
  obtain ⟨tokens, position₁, hmap, hscan⟩ := h position
  obtain ⟨tokens', position₂, hmap', hscan'⟩ := h' position₁
  refine ⟨tokens ++ tokens', position₂, by rw [List.map_append, hmap, hmap'], ?_⟩
  rw [List.append_assoc, hscan, hscan', List.append_assoc]

theorem scans_nil (rest : List UInt8) : Scans [] [] rest := fun position => ⟨[], position, rfl, rfl⟩

theorem scanFrom_isBlank {b : UInt8} (hb : isBlank b = true) (position : Nat) (rest : List UInt8) :
    scanFrom position (b :: rest) = scanFrom (position + 1) rest := by
  have hdrop : (b :: rest).dropWhile isBlank = rest.dropWhile isBlank := List.dropWhile_cons_of_pos hb
  have hstart : position + ((b :: rest).takeWhile isBlank).length = position + 1 + (rest.takeWhile isBlank).length := by
    rw [List.takeWhile_cons_of_pos hb, List.length_cons]
    omega
  rw [scanFrom, scanFrom, hdrop, hstart]

theorem scans_isBlank {b : UInt8} (hb : isBlank b = true) (rest : List UInt8) : Scans [b] [] rest :=
  fun position => ⟨[], position + 1, rfl, scanFrom_isBlank hb position rest⟩

theorem scans_blank (rest : List UInt8) : Scans [0x20] [] rest := scans_isBlank rfl rest

theorem scanFrom_token {b : UInt8} {more rest : List UInt8} {kind : TokenKind} (hb : isBlank b = false)
    (h : lexeme b (more ++ rest) = .token kind more.length) (position : Nat) :
    scanFrom position (b :: (more ++ rest)) =
      ⟨⟨kind, position, position + 1 + more.length, b :: more⟩ :: (scanFrom (position + 1 + more.length) rest).tokens,
        (scanFrom (position + 1 + more.length) rest).failure, (scanFrom (position + 1 + more.length) rest).finished⟩ := by
  have hdrop : (b :: (more ++ rest)).dropWhile isBlank = b :: (more ++ rest) := by
    rw [List.dropWhile_cons, hb]
    rfl
  have htake : ((b :: (more ++ rest)).takeWhile isBlank).length = 0 := by
    rw [List.takeWhile_cons, hb]
    rfl
  rw [scanFrom]
  split
  · next hnil =>
    rw [hdrop] at hnil
    cases hnil
  · next b' rest' hcons =>
    rw [hdrop] at hcons
    cases hcons
    rw [h]
    simp [htake]

theorem scans_token {b : UInt8} {more rest : List UInt8} {kind : TokenKind} (hb : isBlank b = false)
    (h : lexeme b (more ++ rest) = .token kind more.length) : Scans (b :: more) [(kind, b :: more)] rest :=
  fun position => ⟨[⟨kind, position, position + 1 + more.length, b :: more⟩], position + 1 + more.length, rfl,
    scanFrom_token hb h position⟩

/-! ### Characters and bytes -/

theorem isAlpha_bounds {c : Char} (h : c.isAlpha = true) : 57 < c.toNat ∧ c.toNat < 128 := by
  have hcases : (c.isUpper || c.isLower) = true := h
  rcases Bool.or_eq_true_iff.1 hcases with hupper | hlower
  · have hbounds : 'A'.toNat ≤ c.toNat ∧ c.toNat ≤ 'Z'.toNat := of_decide_eq_true hupper
    exact ⟨Nat.lt_of_lt_of_le (by decide) hbounds.1, Nat.lt_of_le_of_lt hbounds.2 (by decide)⟩
  · have hle : 'a'.toNat ≤ c.toNat := of_decide_eq_true (Bool.and_eq_true_iff.1 hlower).1
    have hge : c.toNat ≤ 'z'.toNat := of_decide_eq_true (Bool.and_eq_true_iff.1 hlower).2
    exact ⟨Nat.lt_of_lt_of_le (by decide) hle, Nat.lt_of_le_of_lt hge (by decide)⟩

theorem isDigit_lt {c : Char} (h : c.isDigit = true) : c.toNat < 128 := by
  simp only [Char.isDigit, Bool.and_eq_true, decide_eq_true_eq] at h
  have hz : c.toNat ≤ '9'.toNat := h.2
  exact Nat.lt_of_le_of_lt hz (by decide)

/-- The byte of a character of ASCII. -/
def byte (c : Char) : UInt8 := UInt8.ofNat c.toNat

theorem bytes_cons_of_ascii {c : Char} (h : c.toNat < 128) (cs : List Char) : bytes (c :: cs) = byte c :: bytes cs := by
  rw [bytes, List.flatMap_cons, utf8EncodeChar_of_ascii h]
  rfl

theorem toNat_asChar (b : UInt8) : (asChar b).toNat = b.toNat := by
  have hvalid : b.toNat.isValidChar := .inl (Nat.lt_trans b.toNat_lt (by decide))
  rw [asChar, Char.ofNat, dif_pos hvalid]
  rfl

theorem byte_asChar (b : UInt8) : byte (asChar b) = b := by
  rw [byte, toNat_asChar, UInt8.ofNat_toNat]

theorem toNat_byte {c : Char} (h : c.toNat < 128) : (byte c).toNat = c.toNat :=
  UInt8.toNat_ofNat_of_lt' (Nat.lt_trans h (by decide))

theorem asChar_byte {c : Char} (h : c.toNat < 128) : asChar (byte c) = c := by
  rw [asChar, toNat_byte h, Char.ofNat_toNat]

theorem follows_of_head_ne {c : Char} {rest : List UInt8} (h : rest.head? ≠ some (byte c)) : follows c rest = 0 := by
  cases rest with
  | nil => rfl
  | cons b rest =>
    refine if_neg fun hb => h ?_
    rw [← hb, byte_asChar, List.head?_cons]

/-- The byte is the first one of a token that is longer than it, and which is no string. -/
def leads (b : UInt8) : Bool := !isBlank b && (singles.lookup (asChar b)).isNone

theorem leads_iff {b : UInt8} : leads b = true ↔ isBlank b = false ∧ singles.lookup (asChar b) = none := by
  simp [leads]

/-- The blanks and the tokens of one character. -/
def lone : List Char := [' ', '\t', '\n', '\x0c', '\r'] ++ singles.map Prod.fst

theorem leads_of_not_mem {b : UInt8} (h : asChar b ∉ lone) : leads b = true := by
  refine leads_iff.2 ⟨Bool.eq_false_iff.2 fun hb => h ?_, List.lookup_eq_none_iff.2 fun p hp => bne_iff_ne.2 ?_⟩
  · simp only [isBlank, Bool.or_eq_true, decide_eq_true_eq] at hb
    rcases hb with (((rfl | rfl) | rfl) | rfl) | rfl <;> decide
  · intro heq
    exact h (heq ▸ List.mem_append_right _ (List.mem_map_of_mem hp))

theorem ascii_of_isAlphanum {c : Char} (h : (c.isAlphanum || c = '_') = true) : c.toNat < 128 := by
  simp only [Char.isAlphanum, Bool.or_eq_true, decide_eq_true_eq] at h
  rcases h with (h | h) | rfl
  · exact (isAlpha_bounds h).2
  · exact isDigit_lt h
  · decide

theorem leads_byte {c : Char} (h : (c.isAlphanum || c = '_') = true) : leads (byte c) = true := by
  have hlone : (lone.any fun c => c.isAlphanum || c = '_') = false := by decide
  refine leads_of_not_mem fun hmem => ?_
  rw [asChar_byte (ascii_of_isAlphanum h)] at hmem
  exact List.any_eq_false.1 hlone c hmem h

theorem isDigit_byte {c : Char} (h : c.toNat < 128) : isDigit (byte c) = c.isDigit := by
  have hdigit : c.isDigit = (decide (48 ≤ c.toNat) && decide (c.toNat ≤ 57)) := rfl
  simp only [isDigit, hdigit, UInt8.le_iff_toNat_le, toNat_byte h]
  rfl

theorem isWordStart_byte {c : Char} (h : (c.isAlpha || c = '_') = true) :
    c.toNat < 128 ∧ leads (byte c) = true ∧ isWordStart (byte c) = true ∧ isDigit (byte c) = false := by
  rcases Bool.or_eq_true_iff.1 h with halpha | hc
  · obtain ⟨hlarge, hlt⟩ := isAlpha_bounds halpha
    refine ⟨hlt, leads_byte ?_, ?_, ?_⟩
    · simp only [Char.isAlphanum, halpha, Bool.true_or]
    · simp only [isWordStart, asChar_byte hlt, halpha, Bool.true_or]
    · rw [isDigit_byte hlt]
      exact Bool.and_eq_false_imp.2 fun _ => decide_eq_false (Nat.not_le_of_lt hlarge)
  · rw [of_decide_eq_true hc]
    decide

theorem isWordByte_byte {c : Char} (h : (c.isAlphanum || c = '_') = true) : isWordByte (byte c) = true := by
  have hcases : ((c.isAlpha || c.isDigit) || c = '_') = true := h
  rw [Bool.or_right_comm] at hcases
  rcases Bool.or_eq_true_iff.1 hcases with hstart | hdigit
  · rw [isWordByte, (isWordStart_byte hstart).2.2.1, Bool.true_or]
  · rw [isWordByte, isDigit_byte (isDigit_lt hdigit), hdigit, Bool.or_true]

theorem isNumberByte_byte {c : Char} (h : c.isDigit = true) :
    leads (byte c) = true ∧ isDigit (byte c) = true ∧ isNumberByte (byte c) = true := by
  have hdigit : isDigit (byte c) = true := (isDigit_byte (isDigit_lt h)).trans h
  refine ⟨leads_byte ?_, hdigit, ?_⟩
  · simp only [Char.isAlphanum, h, Bool.or_true, Bool.true_or]
  · rw [isNumberByte, hdigit, Bool.true_or]

/-! ### Words and numbers -/

/-- What follows is no part of a word or of a number. -/
structure Delimited (rest : List UInt8) : Prop where
  not_word : ∀ b, rest.head? = some b → isWordByte b = false
  not_fraction : ∀ b d later, rest = b :: d :: later → asChar b = '.' → isDigit d = false

theorem Delimited.cons {b : UInt8} (hb : isWordByte b = false) (hdot : asChar b ≠ '.') (later : List UInt8) :
    Delimited (b :: later) := by
  constructor
  · intro b' hb'
    cases hb'
    exact hb
  · intro b' d later' heq hdot'
    cases heq
    exact absurd hdot' hdot

theorem Delimited.not_number {rest : List UInt8} (h : Delimited rest) (b : UInt8) (hb : rest.head? = some b) :
    isNumberByte b = false := by
  have hword := h.not_word b hb
  simp only [isWordByte, isWordStart, Bool.or_eq_false_iff] at hword
  simp only [isNumberByte, hword.1.1.2, hword.2, Bool.or_self]

/-- A word starts with a letter, an underscore or any character outside of ASCII. -/
def startsWord (c : Char) : Bool := (c.isAlpha || c = '_') || 128 ≤ c.toNat

/-- After its first character a word can have digits too. -/
def continuesWord (c : Char) : Bool := (c.isAlphanum || c = '_') || 128 ≤ c.toNat

/-- The words of closures. -/
def isWord (name : String) : Bool :=
  match name.toList with
  | c :: cs => startsWord c && cs.all continuesWord
  | [] => false

/-- Bytes outside of ASCII are parts of words. -/
theorem isWordStart_of_le {b : UInt8} (h : 128 ≤ b.toNat) :
    leads b = true ∧ isWordStart b = true ∧ isDigit b = false ∧ isWordByte b = true := by
  have hlone : (lone.any fun c => 128 ≤ c.toNat) = false := by decide
  have hstart : isWordStart b = true := Bool.or_eq_true_iff.2 (.inr (decide_eq_true (UInt8.le_iff_toNat_le.2 h)))
  refine ⟨leads_of_not_mem fun hmem => ?_, hstart, ?_, ?_⟩
  · exact List.any_eq_false.1 hlone _ hmem (decide_eq_true (toNat_asChar b ▸ h))
  · refine Bool.and_eq_false_imp.2 fun _ => decide_eq_false fun hle => ?_
    exact Nat.not_lt_of_le (Nat.le_trans h (UInt8.le_iff_toNat_le.1 hle)) (by decide)
  · rw [isWordByte, hstart, Bool.true_or]

theorem isWordByte_of_continuesWord {c : Char} (h : continuesWord c = true) :
    ∀ b ∈ String.utf8EncodeChar c, isWordByte b = true := by
  intro b hb
  rcases Bool.or_eq_true_iff.1 h with hascii | hlarge
  · rw [utf8EncodeChar_of_ascii (ascii_of_isAlphanum hascii), List.mem_singleton] at hb
    exact hb ▸ isWordByte_byte hascii
  · exact (isWordStart_of_le (le_of_mem_utf8EncodeChar (of_decide_eq_true hlarge) b hb)).2.2.2

theorem utf8EncodeChar_of_startsWord {c : Char} (h : startsWord c = true) :
    ∃ b more, String.utf8EncodeChar c = b :: more ∧ leads b = true ∧ isWordStart b = true ∧ isDigit b = false ∧
      more.all isWordByte = true := by
  rcases Bool.or_eq_true_iff.1 h with hascii | hlarge
  · obtain ⟨hlt, hleads, hstart, hdigit⟩ := isWordStart_byte hascii
    exact ⟨byte c, [], utf8EncodeChar_of_ascii hlt, hleads, hstart, hdigit, rfl⟩
  · have hbytes := le_of_mem_utf8EncodeChar (of_decide_eq_true hlarge)
    obtain ⟨b, more, hmore⟩ := List.exists_cons_of_ne_nil (String.utf8EncodeChar_ne_nil (c := c))
    rw [hmore] at hbytes
    obtain ⟨hb, hlater⟩ := List.forall_mem_cons.1 hbytes
    obtain ⟨hleads, hstart, hdigit, -⟩ := isWordStart_of_le hb
    exact ⟨b, more, hmore, hleads, hstart, hdigit,
      List.all_eq_true.2 fun b' hb' => (isWordStart_of_le (hlater b' hb')).2.2.2⟩

theorem bytes_of_isWord {name : String} (h : isWord name = true) :
    ∃ b more, bytes name.toList = b :: more ∧ leads b = true ∧ isWordStart b = true ∧ isDigit b = false ∧
      more.all isWordByte = true := by
  unfold isWord at h
  split at h
  · next c cs hname =>
    obtain ⟨hc, hcs⟩ := Bool.and_eq_true_iff.1 h
    obtain ⟨b, more, hb, hleads, hstart, hdigit, hmore⟩ := utf8EncodeChar_of_startsWord hc
    refine ⟨b, more ++ bytes cs, by rw [hname, bytes, List.flatMap_cons, hb]; rfl, hleads, hstart, hdigit, ?_⟩
    rw [List.all_append, hmore, Bool.true_and]
    refine List.all_eq_true.2 fun b' hb' => ?_
    obtain ⟨c', hc', hb'⟩ := List.mem_flatMap.1 hb'
    exact isWordByte_of_continuesWord (List.all_eq_true.1 hcs c' hc') b' hb'
  · cases h

theorem scans_word {name : String} {rest : List UInt8} (hn : isWord name = true) (hr : Delimited rest) :
    Scans (bytes name.toList) [(.word, bytes name.toList)] rest := by
  obtain ⟨b, more, hbytes, hleads, hstart, hdigit, hmore⟩ := bytes_of_isWord hn
  obtain ⟨hblank, hsingle⟩ := leads_iff.1 hleads
  rw [hbytes]
  refine scans_token hblank ?_
  rw [lexeme, hsingle]
  simp only [hdigit, hstart, if_true, Bool.false_eq_true, if_false]
  rw [Filter.takeWhile_eq_left hmore hr.not_word]

theorem numberLength_append {more rest : List UInt8} (hm : more.all isNumberByte = true) (hr : Delimited rest) :
    numberLength (more ++ rest) = more.length := by
  rw [numberLength, Filter.takeWhile_eq_left hm hr.not_number, List.drop_left]
  split
  · next point d later =>
    rw [if_neg]
    rintro ⟨hpoint, hd⟩
    rw [hr.not_fraction point d later rfl hpoint] at hd
    cases hd
  · rfl

/-- A point belongs to a number if a digit follows it. -/
theorem numberLength_fraction {more places rest : List UInt8} {d : UInt8} (hm : more.all isNumberByte = true)
    (hd : isDigit d = true) (hp : places.all isNumberByte = true) (hr : Delimited rest) :
    numberLength (more ++ 0x2E :: d :: places ++ rest) = (more ++ 0x2E :: d :: places).length := by
  have hwhole : (more ++ 0x2E :: d :: (places ++ rest)).takeWhile isNumberByte = more := by
    refine Filter.takeWhile_eq_left hm fun b hb => ?_
    cases hb
    decide
  have hplaces : ((d :: places) ++ rest).takeWhile isNumberByte = d :: places := by
    refine Filter.takeWhile_eq_left ?_ hr.not_number
    rw [List.all_cons, hp, isNumberByte, hd]
    rfl
  have hpoint : asChar 0x2E = '.' ∧ isDigit d = true := ⟨by decide, hd⟩
  rw [List.append_assoc, List.cons_append, List.cons_append, numberLength, hwhole, List.drop_left]
  dsimp only
  rw [if_pos hpoint, ← List.cons_append, hplaces]
  simp only [List.length_append, List.length_cons]
  omega

theorem scans_numeral {b : UInt8} {more rest : List UInt8} (hb : leads b = true) (hd : isDigit b = true)
    (h : numberLength (more ++ rest) = more.length) : Scans (b :: more) [(.number, b :: more)] rest := by
  obtain ⟨hblank, hsingle⟩ := leads_iff.1 hb
  refine scans_token hblank ?_
  rw [lexeme, hsingle]
  simp only [hd, if_true]
  rw [h]

/-! ### Strings -/

theorem stringLength?_append {quote : UInt8} {plain : List UInt8} (rest : List UInt8)
    (h : ∀ b ∈ plain, b ≠ 0x5C ∧ b ≠ quote) :
    stringLength? quote (plain ++ rest) = (stringLength? quote rest).map (· + plain.length) := by
  have hcons : ∀ (b : UInt8) (rest : List UInt8), b ≠ 0x5C → b ≠ quote →
      stringLength? quote (b :: rest) = (stringLength? quote rest).map (· + 1) := by
    intro b rest hslash hquote
    cases rest with
    | nil => simp [stringLength?, hquote]
    | cons c rest => rw [stringLength?, if_neg hslash, if_neg hquote]
  induction plain with
  | nil => simp
  | cons b plain ih =>
    obtain ⟨hb, hplain⟩ := List.forall_mem_cons.1 h
    rw [List.cons_append, hcons b _ hb.1 hb.2, ih hplain, Option.map_map]
    rfl

/-- The quotes of a string. -/
inductive Quote where
  | double | single

namespace Quote

def char : Quote → Char
  | .double => '"'
  | .single => '\x27'

def kind : Quote → TokenKind
  | .double => .doubleQuoted
  | .single => .singleQuoted

end Quote

/-- What a string is written of: characters that stand for themselves, and any character after a backslash. -/
inductive StringPart (q : Quote) where
  | plain (c : Char) (h : c ≠ '\\' ∧ c ≠ q.char)
  | escaped (c : Char)

namespace StringPart

variable {q : Quote}

def text : StringPart q → List Char
  | .plain c _ => [c]
  | .escaped c => ['\\', c]

/-- The character that a part stands for. -/
def value : StringPart q → Char
  | .plain c _ => c
  | .escaped c => Token.unescapeChar c

/-- A string between its quotes. -/
def quoted (parts : List (StringPart q)) : List Char := q.char :: (parts.flatMap text ++ [q.char])

/-- A part that stands for the character. -/
def ofChar (q : Quote) (c : Char) : StringPart q :=
  if h : c = '\\' ∨ c = q.char then .escaped c else .plain c (not_or.1 h)

theorem text_ofChar (q : Quote) (c : Char) :
    (ofChar q c).text = if c = '\\' ∨ c = q.char then ['\\', c] else [c] := by
  unfold ofChar
  split <;> rfl

theorem value_ofChar (q : Quote) (c : Char) : (ofChar q c).value = c := by
  unfold ofChar
  split
  · next h =>
    rcases h with rfl | rfl
    · rfl
    · cases q <;> rfl
  · rfl

end StringPart

theorem bytes_singleton (c : Char) : bytes [c] = String.utf8EncodeChar c := List.flatMap_singleton ..

theorem not_special_of_le (q : Quote) {b : UInt8} (h : 128 ≤ b.toNat) : b ≠ 0x5C ∧ b ≠ byte q.char := by
  constructor
  · rintro rfl
    exact absurd h (by decide)
  · rintro rfl
    exact absurd h (by cases q <;> decide)

/-- A byte of a character that is neither a backslash nor the quote is neither. -/
theorem not_special_of_mem {q : Quote} {c : Char} (h : c ≠ '\\' ∧ c ≠ q.char) :
    ∀ b ∈ String.utf8EncodeChar c, b ≠ 0x5C ∧ b ≠ byte q.char := by
  intro b hb
  by_cases hlt : c.toNat < 128
  · rw [utf8EncodeChar_of_ascii hlt, List.mem_singleton] at hb
    subst hb
    refine ⟨fun heq => h.1 ?_, fun heq => h.2 ?_⟩
    · exact (asChar_byte hlt).symm.trans (congrArg asChar heq)
    · have hq : q.char.toNat < 128 := by cases q <;> decide
      exact (asChar_byte hlt).symm.trans ((congrArg asChar heq).trans (asChar_byte hq))
  · exact not_special_of_le q (le_of_mem_utf8EncodeChar (Nat.le_of_not_lt hlt) b hb)

/-- The bytes of a part do not end a string. -/
theorem stringLength?_part {q : Quote} (p : StringPart q) (rest : List UInt8) :
    stringLength? (byte q.char) (bytes p.text ++ rest) =
      (stringLength? (byte q.char) rest).map (· + (bytes p.text).length) := by
  cases p with
  | plain c h =>
    rw [StringPart.text, bytes_singleton]
    exact stringLength?_append rest (not_special_of_mem h)
  | escaped c =>
    -- the backslash takes the first byte of the character along, and the others are outside of ASCII
    obtain ⟨b, more, hbytes⟩ := List.exists_cons_of_ne_nil (String.utf8EncodeChar_ne_nil (c := c))
    have htext : bytes (StringPart.escaped c : StringPart q).text = 0x5C :: b :: more := by
      rw [StringPart.text, bytes_cons_of_ascii (by decide), bytes_singleton, hbytes]
      rfl
    have hmore : ∀ b' ∈ more, b' ≠ 0x5C ∧ b' ≠ byte q.char := by
      intro b' hb'
      by_cases hlt : c.toNat < 128
      · rw [utf8EncodeChar_of_ascii hlt] at hbytes
        cases hbytes
        cases hb'
      · have hmem : b' ∈ String.utf8EncodeChar c := hbytes ▸ List.mem_cons_of_mem b hb'
        exact not_special_of_le q (le_of_mem_utf8EncodeChar (Nat.le_of_not_lt hlt) b' hmem)
    rw [htext, List.cons_append, List.cons_append, stringLength?, if_pos rfl, stringLength?_append rest hmore,
      Option.map_map]
    rfl

theorem stringLength?_quoted {q : Quote} (parts : List (StringPart q)) (rest : List UInt8) :
    stringLength? (byte q.char) (bytes (parts.flatMap StringPart.text ++ [q.char]) ++ rest) =
      some (bytes (parts.flatMap StringPart.text ++ [q.char])).length := by
  induction parts with
  | nil => cases q <;> cases rest <;> rfl
  | cons p parts ih =>
    rw [List.flatMap_cons, List.append_assoc, bytes_append, List.append_assoc, stringLength?_part, ih,
      Option.map_some, List.length_append, Nat.add_comm]

theorem lexeme_quote {q : Quote} {rest : List UInt8} {n : Nat} (h : stringLength? (byte q.char) rest = some n) :
    lexeme (byte q.char) rest = .token q.kind n := by
  have hsingle : singles.lookup (asChar (byte q.char)) = none := by cases q <;> decide
  have hdigit : isDigit (byte q.char) = false := by cases q <;> decide
  have hstart : isWordStart (byte q.char) = false := by cases q <;> decide
  have hchar : asChar (byte q.char) = q.char := by cases q <;> decide
  rw [lexeme, hsingle]
  simp only [hdigit, hstart, hchar, h]
  -- a quote is none of the characters that are asked for before it
  cases q <;> rfl

theorem scans_string {q : Quote} (parts : List (StringPart q)) (rest : List UInt8) :
    Scans (bytes (StringPart.quoted parts)) [(q.kind, bytes (StringPart.quoted parts))] rest := by
  have hbytes : bytes (StringPart.quoted parts) = byte q.char :: bytes (parts.flatMap StringPart.text ++ [q.char]) :=
    bytes_cons_of_ascii (by cases q <;> decide) _
  rw [hbytes]
  exact scans_token (by cases q <;> decide) (lexeme_quote (stringLength?_quoted parts rest))

theorem decode_bytes (cs : List Char) : Text.Utf8.decode (bytes cs) = String.ofList cs := by
  have hbytes : bytes cs = Text.Utf8.encode (String.ofList cs) := by rw [Text.Utf8.encode, String.toList_ofList, bytes]
  rw [hbytes, decode_encode]

theorem unescape_part {q : Quote} (p : StringPart q) (cs : List Char) :
    Token.unescape (p.text ++ cs) = p.value :: Token.unescape cs := by
  cases p with
  | escaped c => rfl
  | plain c h =>
    rw [StringPart.text, List.singleton_append, Token.unescape]
    · rfl
    · rintro rfl
      exact fun _ => h.1 rfl
    · rintro d ds rfl
      exact fun _ => h.1 rfl

theorem contents_of_parts {t : Token} {q : Quote} {parts : List (StringPart q)}
    (h : t.lexeme = (q.kind, bytes (StringPart.quoted parts))) : t.contents = bytes (parts.flatMap StringPart.text) := by
  obtain ⟨hkind, hbytes⟩ : t.kind = q.kind ∧ t.bytes = bytes (StringPart.quoted parts) := Prod.mk.inj h
  have hstring : t.isString = true := by
    rw [Token.isString, hkind]
    cases q <;> rfl
  have hlt : q.char.toNat < 128 := by cases q <;> decide
  rw [Token.contents, hstring, hbytes, StringPart.quoted, bytes_cons_of_ascii hlt, bytes_append,
    bytes_cons_of_ascii hlt]
  exact List.dropLast_concat

/-- A token of a string says what its parts stand for. -/
theorem value_of_parts {t : Token} {q : Quote} {parts : List (StringPart q)}
    (h : t.lexeme = (q.kind, bytes (StringPart.quoted parts))) :
    t.value = String.ofList (parts.map StringPart.value) := by
  have hunescape : Token.unescape (parts.flatMap StringPart.text) = parts.map StringPart.value := by
    clear h
    induction parts with
    | nil => rfl
    | cons p parts ih => rw [List.flatMap_cons, unescape_part, ih, List.map_cons]
  rw [Token.value, contents_of_parts h, decode_bytes, String.toList_ofList, hunescape]

/-! ### Streams -/

/-- The stream of a text that is scanned holds the tokens and no fault. -/
theorem ofText_of_scans {text : String} {lexemes : List (TokenKind × List UInt8)}
    (h : Scans (bytes text.toList) lexemes []) :
    ∃ tokens, Stream.ofText text = ⟨0, tokens, none⟩ ∧ tokens.map Token.lexeme = lexemes := by
  obtain ⟨tokens, position, hmap, hscan⟩ := h 0
  have hend : scanFrom position [] = ⟨[], none, true⟩ := by
    rw [scanFrom]
    rfl
  refine ⟨tokens, ?_, hmap⟩
  have hbytes : Text.Utf8.encode text = bytes text.toList ++ [] := by
    rw [Text.Utf8.encode, List.append_nil, bytes]
  rw [Stream.ofText, scan, hbytes, hscan, hend, List.append_nil]

end SqlQuery.Closure
