import SqlQuery.Proofs.ClosureLexemes

/-!
# Strings of closures

A string is scanned by bytes and its escapes are resolved by characters. The two agree because the scanner goes from
character to character: it ends a token behind a byte of ASCII or, if it is a word, before one (`lexeme_cases`), and
such a byte is a character by itself (`bytes_eq_append_cons`). `Walk` is the scan of a text that remembers this.
-/

namespace SqlQuery.Closure

open SqlQuery.Text.Utf8 (encode utf8EncodeChar_of_ascii le_of_mem_utf8EncodeChar)

/-! ### Bytes between characters -/

theorem bytes_injective {cs ds : List Char} (h : bytes cs = bytes ds) : cs = ds := by
  have hdecode := congrArg Text.Utf8.decode h
  rwa [decode_bytes, decode_bytes, String.ofList_inj] at hdecode

theorem ascii_of_mem_utf8EncodeChar {c : Char} {b : UInt8} (hb : b ∈ String.utf8EncodeChar c) (h : b.toNat < 128) :
    String.utf8EncodeChar c = [b] := by
  by_cases hc : c.toNat < 128
  · rw [utf8EncodeChar_of_ascii hc, List.mem_singleton] at hb
    rw [utf8EncodeChar_of_ascii hc, hb]
  · have hle := le_of_mem_utf8EncodeChar (Nat.le_of_not_lt hc) b hb
    omega

/-- A byte of ASCII among those of a text is a character, and what stands before and after it are characters. -/
theorem bytes_eq_append_cons {cs : List Char} {before after : List UInt8} {b : UInt8}
    (h : bytes cs = before ++ b :: after) (hb : b.toNat < 128) :
    ∃ cs₁ c cs₂, cs = cs₁ ++ c :: cs₂ ∧ bytes cs₁ = before ∧ bytes [c] = [b] ∧ bytes cs₂ = after := by
  induction cs generalizing before with
  | nil => simp [bytes] at h
  | cons c cs ih =>
    have hcons : String.utf8EncodeChar c ++ bytes cs = before ++ b :: after := h
    rcases List.append_eq_append_iff.1 hcons with ⟨more, hbefore, hmore⟩ | ⟨last, hc, hlast⟩
    · obtain ⟨cs₁, d, cs₂, rfl, rfl, hd, hafter⟩ := ih hmore
      exact ⟨c :: cs₁, d, cs₂, rfl, hbefore.symm, hd, hafter⟩
    · cases last with
      | nil =>
        have hfront : bytes cs = [] ++ b :: after := hlast.symm
        obtain ⟨cs₁, d, cs₂, rfl, hnil, hd, hafter⟩ := ih hfront
        refine ⟨c :: cs₁, d, cs₂, rfl, ?_, hd, hafter⟩
        show String.utf8EncodeChar c ++ bytes cs₁ = before
        rw [hnil, hc, List.append_nil, List.append_nil]
      | cons b' last =>
        obtain ⟨rfl, hafter⟩ := List.cons.inj hlast
        have hsingle := ascii_of_mem_utf8EncodeChar (hc ▸ List.mem_append_right before List.mem_cons_self) hb
        rw [hsingle] at hc
        rcases List.singleton_eq_append_iff.1 hc with ⟨rfl, hlast'⟩ | ⟨-, hlast'⟩
        · obtain rfl := (List.cons.inj hlast').2
          exact ⟨[], c, cs, rfl, rfl, (bytes_singleton c).trans hsingle, hafter.symm⟩
        · cases hlast'

theorem exists_cons_of_bytes {cs : List Char} {b : UInt8} {rest : List UInt8} (h : bytes cs = b :: rest)
    (hb : b.toNat < 128) : ∃ c later, cs = c :: later ∧ bytes [c] = [b] ∧ bytes later = rest := by
  have hfront : bytes cs = [] ++ b :: rest := h
  obtain ⟨cs₁, c, later, rfl, hnil, hc, hlater⟩ := bytes_eq_append_cons hfront hb
  obtain rfl : cs₁ = [] := bytes_injective hnil
  exact ⟨c, later, rfl, hc, hlater⟩

/-- If the bytes before and after are those of a text, then those before are those of its first characters. -/
def Splits (before after : List UInt8) : Prop :=
  ∀ cs, bytes cs = before ++ after → ∃ cs₁ cs₂, cs = cs₁ ++ cs₂ ∧ bytes cs₁ = before ∧ bytes cs₂ = after

theorem splits_nil (before : List UInt8) : Splits before [] := by
  intro cs h
  exact ⟨cs, [], (List.append_nil cs).symm, h.trans (List.append_nil before), rfl⟩

theorem splits_before {b : UInt8} (hb : b.toNat < 128) (before after : List UInt8) : Splits before (b :: after) := by
  intro cs h
  obtain ⟨cs₁, c, cs₂, hcs, h₁, hc, h₂⟩ := bytes_eq_append_cons h hb
  refine ⟨cs₁, [c] ++ cs₂, hcs, h₁, ?_⟩
  rw [bytes_append, hc, h₂]
  rfl

theorem splits_behind {b : UInt8} (hb : b.toNat < 128) (before after : List UInt8) : Splits (before ++ [b]) after := by
  intro cs h
  rw [List.append_assoc] at h
  obtain ⟨cs₁, c, cs₂, hcs, h₁, hc, h₂⟩ := bytes_eq_append_cons h hb
  refine ⟨cs₁ ++ [c], cs₂, by rw [hcs, List.append_assoc]; rfl, ?_, h₂⟩
  rw [bytes_append, h₁, hc]

theorem splits_ascii {b : UInt8} {more : List UInt8} (hb : b.toNat < 128) (hmore : ∀ b' ∈ more, b'.toNat < 128)
    (before after : List UInt8) : Splits (before ++ b :: more) after := by
  induction more generalizing b before with
  | nil => exact splits_behind hb before after
  | cons b' more ih =>
    obtain ⟨hb', hmore'⟩ := List.forall_mem_cons.1 hmore
    rw [List.append_cons]
    exact ih hb' hmore' (before ++ [b])

theorem splits_word (b : UInt8) (rest : List UInt8) :
    Splits (b :: rest.takeWhile isWordByte) (rest.dropWhile isWordByte) := by
  have hhead := List.head?_dropWhile_not isWordByte rest
  cases hlater : rest.dropWhile isWordByte with
  | nil => exact splits_nil _
  | cons b' later =>
    rw [hlater] at hhead
    have hword : isWordByte b' = false := hhead
    refine splits_before (Nat.lt_of_not_le fun hle => ?_) _ later
    rw [(isWordStart_of_le hle).2.2.2] at hword
    cases hword

/-! ### Where a token ends -/

theorem toNat_lt_of_asChar {b : UInt8} {c : Char} (h : asChar b = c) (hc : c.toNat < 128) : b.toNat < 128 := by
  rw [← toNat_asChar, h]
  exact hc

theorem toNat_lt_of_isNumberByte {b : UInt8} (h : isNumberByte b = true) : b.toNat < 128 := by
  by_contra hb
  have hle : 128 ≤ b.toNat := Nat.le_of_not_lt hb
  have hdigit := (isWordStart_of_le hle).2.2.1
  rw [isNumberByte, hdigit, Bool.false_or, decide_eq_true_eq] at h
  rw [h] at hle
  exact absurd hle (by decide)

/-- So many bytes of ASCII are next. -/
def AsciiAhead (n : Nat) (rest : List UInt8) : Prop :=
  ∃ more later, rest = more ++ later ∧ more.length = n ∧ ∀ b ∈ more, b.toNat < 128

namespace AsciiAhead

variable {rest : List UInt8}

theorem zero (rest : List UInt8) : AsciiAhead 0 rest := ⟨[], rest, rfl, rfl, by simp⟩

theorem append {n : Nat} {more : List UInt8} (hmore : ∀ b ∈ more, b.toNat < 128) (h : AsciiAhead n rest) :
    AsciiAhead (more.length + n) (more ++ rest) := by
  obtain ⟨more', later, rfl, rfl, hmore'⟩ := h
  refine ⟨more ++ more', later, (List.append_assoc ..).symm, List.length_append, ?_⟩
  intro b hb
  rcases List.mem_append.1 hb with hb | hb
  · exact hmore b hb
  · exact hmore' b hb

theorem numberBytes (rest : List UInt8) : AsciiAhead (rest.takeWhile isNumberByte).length rest :=
  ⟨rest.takeWhile isNumberByte, rest.dropWhile isNumberByte, List.takeWhile_append_dropWhile.symm, rfl,
    fun b hb => toNat_lt_of_isNumberByte (List.all_eq_true.1 List.all_takeWhile b hb)⟩

theorem of_follows {c : Char} {n : Nat} (hc : c.toNat < 128) (h : follows c rest = 1)
    (hn : AsciiAhead n (rest.drop 1)) : AsciiAhead (1 + n) rest := by
  cases rest with
  | nil => cases h
  | cons b rest =>
    have hb : asChar b = c := by
      by_contra hne
      rw [follows, if_neg hne] at h
      cases h
    have hone : ∀ x ∈ [b], x.toNat < 128 := by simpa using toNat_lt_of_asChar hb hc
    exact append hone hn

theorem follows_or {c : Char} (hc : c.toNat < 128) (rest : List UInt8) : AsciiAhead (follows c rest) rest := by
  by_cases h : follows c rest = 1
  · rw [h]
    exact of_follows hc h (zero _)
  · have hzero : follows c rest = 0 := by
      unfold follows at h ⊢
      split at h
      · next b later => exact if_neg fun hb => h (if_pos hb)
      · rfl
    rw [hzero]
    exact zero rest

theorem numberLength (rest : List UInt8) : AsciiAhead (Closure.numberLength rest) rest := by
  obtain ⟨digits, later, rfl, hlength, hdigits⟩ := numberBytes rest
  rw [Closure.numberLength, ← hlength, List.drop_left]
  split
  · next point d places =>
    split
    · next h =>
      have hpoint : ∀ x ∈ [point], x.toNat < 128 := by simpa using toNat_lt_of_asChar h.1 (by decide)
      have hplaces := append hpoint (numberBytes (d :: places))
      have hall := append hdigits hplaces
      rwa [← Nat.add_assoc] at hall
    · exact append hdigits (zero _)
  · exact append hdigits (zero _)

theorem oneOrTwo {second : Char} {two one kind : TokenKind} {n : Nat} (hc : second.toNat < 128)
    (h : Closure.oneOrTwo second rest two one = .token kind n) : AsciiAhead n rest ∧ (kind = two ∨ kind = one) := by
  unfold Closure.oneOrTwo at h
  split at h <;> cases h
  · next hfollows => exact ⟨of_follows hc hfollows (zero _), .inl rfl⟩
  · exact ⟨zero rest, .inr rfl⟩

end AsciiAhead

/-- Neither a word nor a string. -/
def isSymbol (kind : TokenKind) : Bool := kind ≠ .word ∧ kind ≠ .doubleQuoted ∧ kind ≠ .singleQuoted

theorem singles_ascii {c : Char} {kind : TokenKind} (h : singles.lookup c = some kind) :
    c.toNat < 128 ∧ isSymbol kind = true := by
  have hall : ∀ p ∈ singles, p.1.toNat < 128 ∧ isSymbol p.2 = true := by decide
  have hmem : (c, kind) ∈ singles := by
    obtain ⟨before, after, heq, -⟩ := List.lookup_eq_some_iff.1 h
    rw [heq]
    simp
  exact hall (c, kind) hmem

/-- A token is a word, or a string, or all of its bytes are of ASCII. -/
theorem lexeme_cases {b : UInt8} {rest : List UInt8} {kind : TokenKind} {n : Nat}
    (h : lexeme b rest = .token kind n) :
    (kind = .word ∧ isWordStart b = true ∧ n = (rest.takeWhile isWordByte).length) ∨
    (∃ q : Quote, kind = q.kind ∧ b = byte q.char ∧ stringLength? b rest = some n) ∨
    isSymbol kind = true ∧ b.toNat < 128 ∧ AsciiAhead n rest := by
  have htwo : ∀ {c second : Char} {two one : TokenKind}, asChar b = c → c.toNat < 128 → second.toNat < 128 →
      oneOrTwo second rest two one = .token kind n → isSymbol two = true ∧ isSymbol one = true →
      isSymbol kind = true ∧ b.toNat < 128 ∧ AsciiAhead n rest := by
    intro c second two one hb hc hsecond htoken hkinds
    obtain ⟨hahead, hkind⟩ := AsciiAhead.oneOrTwo hsecond htoken
    refine ⟨?_, toNat_lt_of_asChar hb hc, hahead⟩
    rcases hkind with rfl | rfl
    · exact hkinds.1
    · exact hkinds.2
  unfold lexeme at h
  split at h
  · next kind' hsingle =>
    obtain ⟨hlt, hkind⟩ := singles_ascii hsingle
    cases h
    exact .inr (.inr ⟨hkind, toNat_lt_of_asChar rfl hlt, .zero rest⟩)
  rcases ite_eq_iff.1 h with ⟨hdigit, h⟩ | ⟨-, h⟩
  · cases h
    have hnumber : isNumberByte b = true := by rw [isNumberByte, hdigit, Bool.true_or]
    exact .inr (.inr ⟨by decide, toNat_lt_of_isNumberByte hnumber, .numberLength rest⟩)
  rcases ite_eq_iff.1 h with ⟨hstart, h⟩ | ⟨-, h⟩
  · cases h
    exact .inl ⟨rfl, hstart, rfl⟩
  rcases ite_eq_iff.1 h with ⟨hcolon, h⟩ | ⟨-, h⟩
  · exact .inr (.inr (htwo hcolon (by decide) (by decide) h (by decide)))
  rcases ite_eq_iff.1 h with ⟨hless, h⟩ | ⟨-, h⟩
  · exact .inr (.inr (htwo hless (by decide) (by decide) h (by decide)))
  rcases ite_eq_iff.1 h with ⟨hgreater, h⟩ | ⟨-, h⟩
  · exact .inr (.inr (htwo hgreater (by decide) (by decide) h (by decide)))
  rcases ite_eq_iff.1 h with ⟨hpipe, h⟩ | ⟨-, h⟩
  · exact .inr (.inr (htwo hpipe (by decide) (by decide) h (by decide)))
  rcases ite_eq_iff.1 h with ⟨hamp, h⟩ | ⟨-, h⟩
  · exact .inr (.inr (htwo hamp (by decide) (by decide) h (by decide)))
  rcases ite_eq_iff.1 h with ⟨heq, h⟩ | ⟨-, h⟩
  · have hb := toNat_lt_of_asChar heq (by decide)
    rcases ite_eq_iff.1 h with ⟨harrow, h⟩ | ⟨-, h⟩
    · cases h
      exact .inr (.inr ⟨by decide, hb, .of_follows (by decide) harrow (.zero _)⟩)
    rcases ite_eq_iff.1 h with ⟨hequal, h⟩ | ⟨-, h⟩ <;> cases h
    exact .inr (.inr ⟨by decide, hb, .of_follows (by decide) hequal (.follows_or (by decide) _)⟩)
  rcases ite_eq_iff.1 h with ⟨hbang, h⟩ | ⟨-, h⟩
  · have hb := toNat_lt_of_asChar hbang (by decide)
    rcases ite_eq_iff.1 h with ⟨hnot, h⟩ | ⟨-, h⟩ <;> cases h
    · exact .inr (.inr ⟨by decide, hb, .of_follows (by decide) hnot (.follows_or (by decide) _)⟩)
    · exact .inr (.inr ⟨by decide, hb, .zero rest⟩)
  rcases ite_eq_iff.1 h with ⟨hquote, h⟩ | ⟨-, h⟩
  · split at h
    · next n' hlength =>
      obtain ⟨hkind, rfl⟩ := Lexed.token.inj h
      refine .inr (.inl ?_)
      rcases hquote with hdouble | hsingle
      · refine ⟨.double, ?_, ?_, hlength⟩
        · rw [← hkind, if_pos hdouble]
          rfl
        · rw [← byte_asChar b, hdouble]
          rfl
      · refine ⟨.single, ?_, ?_, hlength⟩
        · rw [← hkind, hsingle]
          rfl
        · rw [← byte_asChar b, hsingle]
          rfl
    · cases h
  · cases h

theorem lexeme_word {b : UInt8} {rest : List UInt8} {more : Nat} (h : lexeme b rest = .token .word more) :
    isWordStart b = true ∧ more = (rest.takeWhile isWordByte).length := by
  rcases lexeme_cases h with ⟨-, hword⟩ | ⟨q, hkind, -⟩ | ⟨hkind, -⟩
  · exact hword
  · cases q <;> cases hkind
  · cases hkind

/-! ### Parts of strings -/

theorem quote_ascii (q : Quote) : q.char.toNat < 128 := by cases q <;> decide

/-- The characters up to the next quote are parts of a string, or there is no next quote. -/
theorem parts_or_unterminated (q : Quote) : ∀ cs : List Char,
    (∃ (parts : List (StringPart q)) (later : List Char), cs = parts.flatMap StringPart.text ++ q.char :: later) ∨
    stringLength? (byte q.char) (bytes cs) = none
  | [] => .inr rfl
  | c :: cs => by
    have hpart : ∀ (p : StringPart q) (cs : List Char),
        (∃ (parts : List (StringPart q)) (later : List Char), cs = parts.flatMap StringPart.text ++ q.char :: later) ∨
          stringLength? (byte q.char) (bytes cs) = none →
        (∃ (parts : List (StringPart q)) (later : List Char),
          p.text ++ cs = parts.flatMap StringPart.text ++ q.char :: later) ∨
          stringLength? (byte q.char) (bytes (p.text ++ cs)) = none := by
      rintro p cs (⟨parts, later, rfl⟩ | hnone)
      · exact .inl ⟨p :: parts, later, by rw [List.flatMap_cons, List.append_assoc]⟩
      · exact .inr (by rw [bytes_append, stringLength?_part, hnone, Option.map_none])
    by_cases hquote : c = q.char
    · exact .inl ⟨[], cs, by rw [hquote]; rfl⟩
    by_cases hslash : c = '\\'
    · subst hslash
      cases cs with
      | nil => exact .inr (by cases q <;> rfl)
      | cons d cs => exact hpart (.escaped d) cs (parts_or_unterminated q cs)
    · exact hpart (.plain c ⟨hslash, hquote⟩) cs (parts_or_unterminated q cs)

/-- A token is read from characters, and a string from its parts between two quotes. -/
theorem lexeme_chars {cs : List Char} {b : UInt8} {rest : List UInt8} {kind : TokenKind} {n : Nat}
    (hcs : bytes cs = b :: rest) (h : lexeme b rest = .token kind n) :
    ∃ here later more, cs = here ++ later ∧ bytes here = b :: more ∧ rest = more ++ bytes later ∧ more.length = n ∧
      ∀ q : Quote, kind = q.kind → ∃ parts : List (StringPart q), here = StringPart.quoted parts := by
  have hsplit : ∀ {more after : List UInt8}, rest = more ++ after → Splits (b :: more) after →
      ∃ here later, cs = here ++ later ∧ bytes here = b :: more ∧ rest = more ++ bytes later := by
    rintro more after rfl hsplits
    obtain ⟨here, later, hcs', hhere, hlater⟩ := hsplits cs hcs
    exact ⟨here, later, hcs', hhere, by rw [hlater]⟩
  rcases lexeme_cases h with ⟨rfl, -, rfl⟩ | ⟨q, rfl, rfl, hlength⟩ | ⟨hkind, hb, more, after, hrest, rfl, hmore⟩
  · obtain ⟨here, later, hcs', hhere, hlater⟩ :=
      hsplit List.takeWhile_append_dropWhile.symm (splits_word b rest)
    exact ⟨here, later, _, hcs', hhere, hlater, rfl, fun q hq => by cases q <;> cases hq⟩
  · obtain ⟨c, inside, rfl, -, rfl⟩ := exists_cons_of_bytes hcs (by cases q <;> decide)
    have hcons : c :: inside = q.char :: inside :=
      bytes_injective (hcs.trans (bytes_cons_of_ascii (quote_ascii q) inside).symm)
    obtain rfl := (List.cons.inj hcons).1
    rcases parts_or_unterminated q inside with ⟨parts, later, rfl⟩ | hnone
    · rw [List.append_cons, bytes_append, stringLength?_quoted] at hlength
      refine ⟨StringPart.quoted parts, later, bytes (parts.flatMap StringPart.text ++ [q.char]), ?_, ?_, ?_,
        Option.some.inj hlength, ?_⟩
      · rw [StringPart.quoted, List.cons_append, List.append_cons]
      · exact bytes_cons_of_ascii (quote_ascii q) _
      · rw [List.append_cons, bytes_append]
      · intro q' hq'
        obtain rfl : q = q' := by cases q <;> cases q' <;> first | rfl | cases hq'
        exact ⟨parts, rfl⟩
    · rw [hnone] at hlength
      cases hlength
  · obtain ⟨here, later, hcs', hhere, hlater⟩ := hsplit hrest (splits_ascii hb hmore [] after)
    refine ⟨here, later, more, hcs', hhere, hlater, rfl, fun q hq => ?_⟩
    rw [hq] at hkind
    cases q <;> cases hkind

/-! ### From character to character -/

/-- The scan of a text from an offset on, with the characters that it takes in one step. -/
inductive Walk : Nat → List Char → Scanned → Prop
  | done (position : Nat) : Walk position [] ⟨[], none, true⟩
  | blank {position : Nat} {c : Char} {cs : List Char} {s : Scanned} (h : Walk (position + (bytes [c]).length) cs s) :
    Walk position (c :: cs) s
  | unterminated (position : Nat) (cs : List Char) : Walk position cs ⟨[], some (.unterminatedString position), true⟩
  | unexpected (position : Nat) {c : Char} (hc : (bytes [c]).length = 1) (cs : List Char) (finished : Bool) :
    Walk position (c :: cs) ⟨[], some (.unexpectedCharacter position), finished⟩
  | token {position : Nat} {kind : TokenKind} {here later : List Char} {s : Scanned}
    (hstring : ∀ q : Quote, kind = q.kind → ∃ parts : List (StringPart q), here = StringPart.quoted parts)
    (h : Walk (position + (bytes here).length) later s) :
    Walk position (here ++ later)
      ⟨⟨kind, position, position + (bytes here).length, bytes here⟩ :: s.tokens, s.failure, s.finished⟩

theorem scanFrom_failed {b : UInt8} {rest : List UInt8} (hb : isBlank b = false) (position : Nat) :
    (lexeme b rest = .unterminated → scanFrom position (b :: rest) = ⟨[], some (.unterminatedString position), true⟩) ∧
    (lexeme b rest = .unexpected →
      scanFrom position (b :: rest) = ⟨[], some (.unexpectedCharacter position), rest.isEmpty⟩) := by
  have hdrop : (b :: rest).dropWhile isBlank = b :: rest := by
    rw [List.dropWhile_cons, hb]
    rfl
  have htake : ((b :: rest).takeWhile isBlank).length = 0 := by
    rw [List.takeWhile_cons, hb]
    rfl
  constructor <;> intro h
  all_goals
    rw [scanFrom]
    split
    · next hnil =>
      rw [hdrop] at hnil
      cases hnil
    · next b' rest' hcons =>
      rw [hdrop] at hcons
      cases hcons
      rw [h]
      simp [htake]

theorem toNat_lt_of_unexpected {b : UInt8} {rest : List UInt8} (h : lexeme b rest = .unexpected) : b.toNat < 128 := by
  by_contra hb
  obtain ⟨hleads, hstart, hdigit, -⟩ := isWordStart_of_le (Nat.le_of_not_lt hb)
  rw [lexeme, (leads_iff.1 hleads).2] at h
  simp [hdigit, hstart] at h

theorem toNat_lt_of_isBlank {b : UInt8} (h : isBlank b = true) : b.toNat < 128 := by
  by_contra hb
  rw [(leads_iff.1 (isWordStart_of_le (Nat.le_of_not_lt hb)).1).1] at h
  cases h

/-- The scan of a text goes from character to character. -/
theorem walk_scanFrom (position : Nat) (cs : List Char) : Walk position cs (scanFrom position (bytes cs)) := by
  induction hn : cs.length using Nat.strong_induction_on generalizing position cs with
  | _ n ih =>
  cases hcs : bytes cs with
  | nil =>
    obtain rfl : cs = [] := bytes_injective hcs
    rw [scanFrom]
    exact .done position
  | cons b rest =>
    by_cases hblank : isBlank b = true
    · obtain ⟨c, later, rfl, hc, rfl⟩ := exists_cons_of_bytes hcs (toNat_lt_of_isBlank hblank)
      rw [scanFrom_isBlank hblank]
      refine .blank ?_
      rw [hc]
      exact ih later.length (by rw [← hn]; exact Nat.lt_succ_self _) (position + 1) later rfl
    · have hb : isBlank b = false := Bool.eq_false_iff.2 hblank
      cases hlexeme : lexeme b rest with
      | unterminated =>
        rw [(scanFrom_failed hb position).1 hlexeme]
        exact .unterminated position cs
      | unexpected =>
        obtain ⟨c, later, rfl, hc, -⟩ := exists_cons_of_bytes hcs (toNat_lt_of_unexpected hlexeme)
        rw [(scanFrom_failed hb position).2 hlexeme]
        exact .unexpected position (by rw [hc]; rfl) later _
      | token kind n' =>
        obtain ⟨here, later, more, rfl, hhere, rfl, rfl, hstring⟩ := lexeme_chars hcs hlexeme
        have hlength : position + 1 + more.length = position + (bytes here).length := by
          rw [hhere, List.length_cons]
          omega
        have hlt : later.length < n := by
          have hne : here ≠ [] := by
            rintro rfl
            cases hhere
          have hpos := List.length_pos_iff.2 hne
          rw [List.length_append] at hn
          omega
        rw [scanFrom_token hb hlexeme, ← hhere, hlength]
        exact .token hstring (ih later.length hlt _ later rfl)

namespace Walk

variable {position : Nat} {cs : List Char} {s : Scanned} (h : Walk position cs s)
include h

theorem string_of_mem {t : Token} (ht : t ∈ s.tokens) (hs : t.isString = true) :
    ∃ (q : Quote) (parts : List (StringPart q)) (before after : List Char),
      cs = before ++ StringPart.quoted parts ++ after ∧ t.lexeme = (q.kind, bytes (StringPart.quoted parts)) ∧
      t.start = position + (bytes before).length ∧ t.stop = t.start + t.bytes.length := by
  induction h with
  | done | unterminated | unexpected => cases ht
  | @blank position c cs s h ih =>
    obtain ⟨q, parts, before, after, rfl, hlexeme, hstart, hstop⟩ := ih ht
    refine ⟨q, parts, [c] ++ before, after, rfl, hlexeme, ?_, hstop⟩
    rw [hstart, bytes_append, List.length_append, Nat.add_assoc]
  | @token position kind here later s hstring h ih =>
    rcases List.mem_cons.1 ht with rfl | ht
    · obtain ⟨q, rfl⟩ : ∃ q : Quote, kind = q.kind := by
        rcases Bool.or_eq_true_iff.1 hs with hdouble | hsingle
        · exact ⟨.double, of_decide_eq_true hdouble⟩
        · exact ⟨.single, of_decide_eq_true hsingle⟩
      obtain ⟨parts, rfl⟩ := hstring q rfl
      exact ⟨q, parts, [], later, rfl, rfl, rfl, rfl⟩
    · obtain ⟨q, parts, before, after, rfl, hlexeme, hstart, hstop⟩ := ih ht
      refine ⟨q, parts, here ++ before, after, by simp, hlexeme, ?_, hstop⟩
      rw [hstart, bytes_append, List.length_append, Nat.add_assoc]

theorem exists_of_unexpected {p : Nat} (hf : s.failure = some (.unexpectedCharacter p)) :
    ∃ (before : List Char) (c : Char) (after : List Char), cs = before ++ c :: after ∧
      p = position + (bytes before).length ∧ (bytes [c]).length = 1 := by
  induction h with
  | done | unterminated => cases hf
  | unexpected position hc cs finished =>
    cases hf
    exact ⟨[], _, cs, rfl, rfl, hc⟩
  | @blank position c cs s h ih =>
    obtain ⟨before, d, after, rfl, rfl, hd⟩ := ih hf
    refine ⟨[c] ++ before, d, after, rfl, ?_, hd⟩
    rw [bytes_append, List.length_append, Nat.add_assoc]
  | @token position kind here later s hstring h ih =>
    obtain ⟨before, d, after, rfl, rfl, hd⟩ := ih hf
    refine ⟨here ++ before, d, after, by simp, ?_, hd⟩
    rw [bytes_append, List.length_append, Nat.add_assoc]

end Walk

/-- What the scanner gives from an offset on: the tokens up to a failure, and what it gives when it is asked again after
a character that starts no token. -/
inductive Yields : Nat → List UInt8 → Token → Prop
  | scanned {position : Nat} {text : List UInt8} {t : Token} (h : t ∈ (scanFrom position text).tokens) :
    Yields position text t
  | resumed {position p : Nat} {text : List UInt8} {t : Token}
    (hf : (scanFrom position text).failure = some (.unexpectedCharacter p))
    (h : Yields (p + 1) (text.drop (p + 1 - position)) t) : Yields position text t

theorem Yields.string {position : Nat} {cs : List Char} {t : Token} (h : Yields position (bytes cs) t)
    (hs : t.isString = true) :
    ∃ (q : Quote) (parts : List (StringPart q)) (before after : List Char),
      cs = before ++ StringPart.quoted parts ++ after ∧ t.lexeme = (q.kind, bytes (StringPart.quoted parts)) ∧
      t.start = position + (bytes before).length ∧ t.stop = t.start + t.bytes.length := by
  generalize htext : bytes cs = text at h
  induction h generalizing cs with
  | scanned h =>
    subst htext
    exact (walk_scanFrom _ cs).string_of_mem h hs
  | @resumed position p text t hf h ih =>
    subst htext
    obtain ⟨skipped, c, later, rfl, rfl, hc⟩ := (walk_scanFrom position cs).exists_of_unexpected hf
    have hlength : (bytes (skipped ++ [c])).length = (bytes skipped).length + 1 := by
      rw [bytes_append, List.length_append, hc]
    have hdrop : (bytes (skipped ++ c :: later)).drop (position + (bytes skipped).length + 1 - position) =
        bytes later := by
      have hcount : position + (bytes skipped).length + 1 - position = (bytes (skipped ++ [c])).length := by omega
      rw [List.append_cons, bytes_append, hcount, List.drop_left]
    obtain ⟨q, parts, before, after, rfl, hlexeme, hstart, hstop⟩ := ih hs hdrop.symm
    refine ⟨q, parts, skipped ++ [c] ++ before, after, by simp, hlexeme, ?_, hstop⟩
    rw [hstart, bytes_append, List.length_append, hlength]
    omega

/-! ### Escapes -/

theorem length_quoted {q : Quote} (parts : List (StringPart q)) :
    (bytes (StringPart.quoted parts)).length = (bytes (parts.flatMap StringPart.text)).length + 2 := by
  rw [StringPart.quoted, bytes_cons_of_ascii (quote_ascii q), bytes_append, bytes_cons_of_ascii (quote_ascii q),
    List.length_cons, List.length_append]
  rfl

/-- Behind every backslash stands the character that it escapes. -/
inductive Paired : List Char → Prop
  | nil : Paired []
  | plain {c : Char} {cs : List Char} (hc : c ≠ '\\') (h : Paired cs) : Paired (c :: cs)
  | escaped (c : Char) {cs : List Char} (h : Paired cs) : Paired ('\\' :: c :: cs)

/-- Characters with their escapes resolved, if no backslash stands at the end without one that it escapes. -/
def unescape? : List Char → Option (List Char)
  | [] => some []
  | ['\\'] => none
  | '\\' :: c :: cs => (unescape? cs).map (Token.unescapeChar c :: ·)
  | c :: cs => (unescape? cs).map (c :: ·)

theorem unescape?_part {q : Quote} (p : StringPart q) (cs : List Char) :
    unescape? (p.text ++ cs) = (unescape? cs).map (p.value :: ·) := by
  cases p with
  | escaped c => rfl
  | plain c h =>
    rw [StringPart.text, List.singleton_append, unescape?]
    · rfl
    · rintro rfl
      exact fun _ => h.1 rfl
    · rintro d ds rfl
      exact fun _ => h.1 rfl

theorem unescape?_parts {q : Quote} (parts : List (StringPart q)) :
    unescape? (parts.flatMap StringPart.text) = some (parts.map StringPart.value) := by
  induction parts with
  | nil => rfl
  | cons p parts ih => rw [List.flatMap_cons, unescape?_part, ih, Option.map_some, List.map_cons]

theorem paired_parts {q : Quote} (parts : List (StringPart q)) : Paired (parts.flatMap StringPart.text) := by
  induction parts with
  | nil => exact .nil
  | cons p parts ih =>
    cases p with
    | plain c h => exact .plain h.1 ih
    | escaped c => exact .escaped c ih

/-- A text with a backslash before each backslash and each quote. -/
def Quote.escape (q : Quote) (s : String) : List Char :=
  s.toList.flatMap fun c => if c = '\\' ∨ c = q.char then ['\\', c] else [c]

theorem Quote.escape_eq (q : Quote) (s : String) :
    q.escape s = (s.toList.map (StringPart.ofChar q)).flatMap StringPart.text := by
  rw [List.flatMap_map]
  exact List.flatMap_congr fun c _ => (StringPart.text_ofChar q c).symm

/-- The strings that the scanner finds in a text, also behind characters that start no token, are characters between
two quotes, and each backslash in them has the character that it escapes. A text between quotes, with a backslash before
each backslash and each quote, is one token, whatever follows, and says the text. -/
theorem string_tokens_read :
    (∀ (source : String) (t : Token), Yields 0 (encode source) t → t.isString = true →
      ∃ (q : Quote) (before inner after : List Char),
        source.toList = before ++ q.char :: (inner ++ q.char :: after) ∧ t.kind = q.kind ∧
        t.start = (bytes before).length ∧ t.stop = t.start + (bytes inner).length + 2 ∧
        t.contents = encode (String.ofList inner) ∧ Paired inner ∧ unescape? inner = some t.value.toList) ∧
    (∀ (q : Quote) (s after : String), ∃ t : Token,
      scan (encode (String.ofList (q.char :: (q.escape s ++ [q.char])) ++ after)) =
        ⟨t :: (scanFrom t.stop (encode after)).tokens, (scanFrom t.stop (encode after)).failure,
          (scanFrom t.stop (encode after)).finished⟩ ∧
      t.kind = q.kind ∧ t.start = 0 ∧ t.stop = (bytes (q.escape s)).length + 2 ∧
      t.bytes = bytes (q.char :: (q.escape s ++ [q.char])) ∧ t.value = s) := by
  constructor
  · intro source t ht hs
    obtain ⟨q, parts, before, after, hsource, hlexeme, hstart, hstop⟩ := Yields.string ht hs
    obtain ⟨hkind, hbytes⟩ := Prod.mk.inj hlexeme
    refine ⟨q, before, parts.flatMap StringPart.text, after, ?_, hkind, ?_, ?_, ?_, paired_parts parts, ?_⟩
    · rw [hsource, StringPart.quoted]
      simp
    · rw [hstart, Nat.zero_add]
    · rw [hstop, hbytes, length_quoted, Nat.add_assoc]
    · rw [contents_of_parts hlexeme, encode, String.toList_ofList, bytes]
    · rw [value_of_parts hlexeme, String.toList_ofList, unescape?_parts]
  · intro q s after
    let parts := s.toList.map (StringPart.ofChar q)
    have hquoted : q.char :: (q.escape s ++ [q.char]) = StringPart.quoted parts := by
      rw [Quote.escape_eq, StringPart.quoted]
    have hbytes : bytes (StringPart.quoted parts) = byte q.char :: bytes (parts.flatMap StringPart.text ++ [q.char]) :=
      bytes_cons_of_ascii (quote_ascii q) _
    have hstop : 0 + 1 + (bytes (parts.flatMap StringPart.text ++ [q.char])).length =
        (bytes (StringPart.quoted parts)).length := by
      rw [hbytes, List.length_cons]
      omega
    have htext : encode (String.ofList (StringPart.quoted parts) ++ after) =
        byte q.char :: (bytes (parts.flatMap StringPart.text ++ [q.char]) ++ encode after) := by
      rw [encode, String.toList_append, String.toList_ofList, List.flatMap_append, ← bytes, hbytes]
      rfl
    have hscan := scanFrom_token (by cases q <;> decide) (lexeme_quote (stringLength?_quoted parts (encode after))) 0
    rw [← htext, hstop, ← hbytes] at hscan
    rw [hquoted]
    refine ⟨_, hscan, rfl, rfl, ?_, rfl, ?_⟩
    · rw [length_quoted, Quote.escape_eq]
    · have hvalues : parts.map StringPart.value = s.toList := by
        simp [parts, StringPart.value_ofChar, Function.comp_def]
      rw [value_of_parts rfl, hvalues, String.ofList_toList]

/-- Two strings, the second one behind a character that starts no token. -/
theorem string_tokens_read_resumed :
    ∃ t : Token, Yields 0 (encode "'a\\'é' @ \"\\\\\"") t ∧ t.isString = true ∧ t.start = 10 ∧ t.stop = 14 ∧
      ∃ inner, t.contents = encode (String.ofList inner) ∧ Paired inner ∧ unescape? inner = some ['\\'] := by
  have hfailure : (scanFrom 0 (encode "'a\\'é' @ \"\\\\\"")).failure = some (.unexpectedCharacter 8) := by
    with_unfolding_all rfl
  have hlater : (scanFrom 9 ((encode "'a\\'é' @ \"\\\\\"").drop 9)).tokens =
      [⟨.doubleQuoted, 10, 14, [0x22, 0x5C, 0x5C, 0x22]⟩] := by
    with_unfolding_all rfl
  have hyields := Yields.resumed hfailure (.scanned (hlater ▸ List.mem_singleton.2 rfl))
  obtain ⟨q, before, inner, after, -, -, -, -, hcontents, hpaired, hvalue⟩ := string_tokens_read.1 _ _ hyields rfl
  exact ⟨_, hyields, rfl, rfl, rfl, inner, hcontents, hpaired, hvalue⟩

end SqlQuery.Closure
