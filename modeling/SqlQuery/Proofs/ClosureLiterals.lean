import Mathlib
import SqlQuery.Proofs.ClosureLayout
import SqlQuery.Proofs.ClosureRoundTrip

/-!
# Literals of closures

`Literal` are the scalars as closures write them: the words for nothing and for truth values, numbers with a sign and
with underscores among their digits, and strings in either quotes with any escapes. A literal is read as its value
(`run_literal`).
-/

namespace SqlQuery.Closure

/-! ### Literals as they are written -/

/-- Digits, with underscores among them. -/
structure Digits where
  first : Char
  more : List Char
  isDigit_first : first.isDigit = true
  isDigit_more : more.all (fun c => c.isDigit || c = '_') = true

namespace Digits

def text (d : Digits) : List Char := d.first :: d.more

/-- The digits alone. -/
def plain (d : Digits) : List Char := d.text.filter (· ≠ '_')

/-- The number that the digits denote. -/
def toNat (d : Digits) : Nat := Nat.ofDigitChars 10 d.plain 0

end Digits

/-- A scalar as it is written. Numbers without a point are integers of 64 bits, but for the sign. -/
inductive Literal where
  | word (name : String) (value : Value) (h : wordLiteral? name = some value)
  | integer (negative : Bool) (digits : Digits) (h : digits.toNat < 2 ^ 63)
  | decimal (negative : Bool) (whole places : Digits)
  | string (q : Quote) (parts : List (StringPart q))

/-- The double nearest to a number with a point. -/
def nearest (whole places : Digits) : Float :=
  Decimal.roundToFloat (Nat.ofDigitChars 10 (whole.plain ++ places.plain) 0) (-places.plain.length)

/-- The sign before a number. -/
def sign (negative : Bool) : List Lexeme := if negative then [(.minus, ['-'])] else []

namespace Literal

def lexemes : Literal → List Lexeme
  | .word name _ _ => [(.word, name.toList)]
  | .integer negative digits _ => sign negative ++ [(.number, digits.text)]
  | .decimal negative whole places => sign negative ++ [(.number, whole.text ++ '.' :: places.text)]
  | .string q parts => [(q.kind, StringPart.quoted parts)]

/-- What a literal denotes. -/
def value : Literal → Value
  | .word _ value _ => value
  | .integer negative digits _ =>
    if negative then .int (-Int64.ofNat digits.toNat) else .int (Int64.ofNat digits.toNat)
  | .decimal negative whole places =>
    if negative then .float (-nearest whole places) else .float (nearest whole places)
  | .string _ parts => .string (String.ofList (parts.map StringPart.value))

end Literal

/-! ### Digits -/

namespace Digits

variable (d : Digits)

theorem isDigit_of_mem_more {c : Char} (h : c ∈ d.more) : c.isDigit = true ∨ c = '_' := by
  simpa using List.all_eq_true.1 d.isDigit_more c h

theorem plain_eq : d.plain = d.first :: d.more.filter (· ≠ '_') := by
  have hfirst : d.first ≠ '_' := by
    intro h
    exact absurd d.isDigit_first (by rw [h]; decide)
  simp [plain, text, hfirst]

theorem isDigit_plain : d.plain.all Char.isDigit = true := by
  rw [plain_eq, List.all_cons, d.isDigit_first, Bool.true_and]
  refine List.all_eq_true.2 fun c hc => ?_
  obtain ⟨hc, hne⟩ := List.mem_filter.1 hc
  exact (d.isDigit_of_mem_more hc).resolve_right (of_decide_eq_true hne)

theorem bytes_text : bytes d.text = byte d.first :: bytes d.more :=
  bytes_cons_of_ascii (isDigit_lt d.isDigit_first) d.more

theorem isNumberByte_more : (bytes d.more).all isNumberByte = true := by
  refine List.all_eq_true.2 fun b hb => ?_
  obtain ⟨c, hc, hb⟩ := List.mem_flatMap.1 hb
  rcases d.isDigit_of_mem_more hc with hdigit | rfl
  · rw [Text.Utf8.utf8EncodeChar_of_ascii (isDigit_lt hdigit), List.mem_singleton] at hb
    exact hb ▸ (isNumberByte_byte hdigit).2.2
  · rw [List.mem_singleton.1 hb]
    decide

theorem readNat?_plain : Decimal.readNat? d.plain = some d.toNat := by
  have hne : d.plain.isEmpty = false := by rw [plain_eq, List.isEmpty_cons]
  rw [Decimal.readNat?, isDigit_plain, hne]
  rfl

theorem splitSign_plain (rest : List Char) : Decimal.splitSign (d.plain ++ rest) = (false, d.plain ++ rest) := by
  have hne : ∀ c : Char, c.isDigit = false → d.first ≠ c := by
    rintro c hc rfl
    exact Bool.noConfusion (hc.symm.trans d.isDigit_first)
  rw [plain_eq, List.cons_append]
  unfold Decimal.splitSign
  split
  · next h => exact absurd (List.cons.inj h).1 (hne '-' (by decide))
  · next h => exact absurd (List.cons.inj h).1 (hne '+' (by decide))
  · rfl

/-- Digits end before anything else. -/
theorem span_plain {rest : List Char} (hr : ∀ c, rest.head? = some c → c.isDigit = false) :
    (d.plain ++ rest).span Char.isDigit = (d.plain, rest) := by
  have hdrop : (d.plain ++ rest).dropWhile Char.isDigit = rest := by
    rw [List.dropWhile_append_of_pos (List.all_eq_true.1 d.isDigit_plain)]
    cases rest with
    | nil => rfl
    | cons c rest => simp [hr c rfl]
  rw [List.span_eq_takeWhile_dropWhile, Filter.takeWhile_eq_left d.isDigit_plain hr, hdrop]

end Digits

/-! ### Scanning -/

theorem scans_integer (d : Digits) {rest : List UInt8} (hr : Delimited rest) :
    Scans (bytes d.text) [(.number, bytes d.text)] rest := by
  obtain ⟨hleads, hdigit, -⟩ := isNumberByte_byte d.isDigit_first
  rw [d.bytes_text]
  exact scans_numeral hleads hdigit (numberLength_append d.isNumberByte_more hr)

theorem scans_decimal (whole places : Digits) {rest : List UInt8} (hr : Delimited rest) :
    Scans (bytes (whole.text ++ '.' :: places.text)) [(.number, bytes (whole.text ++ '.' :: places.text))] rest := by
  obtain ⟨hleads, hdigit, -⟩ := isNumberByte_byte whole.isDigit_first
  have hbytes : bytes (whole.text ++ '.' :: places.text) =
      byte whole.first :: (bytes whole.more ++ 0x2E :: byte places.first :: bytes places.more) := by
    rw [bytes_append, bytes_cons_of_ascii (by decide), whole.bytes_text, places.bytes_text]
    rfl
  rw [hbytes]
  exact scans_numeral hleads hdigit
    (numberLength_fraction whole.isNumberByte_more (isNumberByte_byte places.isDigit_first).2.1 places.isNumberByte_more hr)

theorem isWord_of_wordLiteral? {name : String} {value : Value} (h : wordLiteral? name = some value) :
    isWord name = true := by
  unfold wordLiteral? at h
  split at h
  all_goals first | decide | cases h

theorem tiled_signed {number next : Lexeme} {later : List Lexeme} (negative : Bool) (hw : Whole number)
    (hn : Apart number next) (h : Tiled (next :: later)) : Tiled (sign negative ++ [number] ++ next :: later) := by
  have hminus : Whole (.minus, ['-']) := fun rest _ => scans_token (by decide) rfl
  cases negative with
  | false => exact .cons hw hn h
  | true => exact .cons hminus (fun _ => trivial) (.cons hw hn h)

/-- A literal can stand before any token that keeps apart from words and numbers. -/
theorem tiled_literal (lit : Literal) {next : Lexeme} {later : List Lexeme}
    (hn : ∀ kind rest, MayFollow kind (bytes next.2 ++ rest)) (h : Tiled (next :: later)) :
    Tiled (lit.lexemes ++ next :: later) := by
  cases lit with
  | word name value hw => exact .cons (fun rest hr => scans_word (isWord_of_wordLiteral? hw) hr) (hn _) h
  | integer negative digits _ => exact tiled_signed negative (fun rest hr => scans_integer digits hr) (hn _) h
  | decimal negative whole places =>
    exact tiled_signed negative (fun rest hr => scans_decimal whole places hr) (hn _) h
  | string q parts => exact .cons (fun rest _ => scans_string parts rest) (hn _) h

theorem apart_colon {l : Lexeme} {b : UInt8} {more : List UInt8} (hl : bytes l.2 = b :: more) (hb : b ≠ 0x3A) :
    Apart (.colon, [':']) l := by
  intro rest h
  rw [hl] at h
  exact hb (Option.some.inj h)

theorem Literal.exists_apart (lit : Literal) :
    ∃ first more, lit.lexemes = first :: more ∧ Apart (.colon, [':']) first := by
  have hdigits : ∀ (negative : Bool) (d : Digits) {cs : List Char} {more : List UInt8},
      bytes cs = byte d.first :: more →
      ∃ first more, sign negative ++ [(.number, cs)] = first :: more ∧ Apart (.colon, [':']) first := by
    intro negative d cs more hcs
    have hfirst : byte d.first ≠ 0x3A := by
      intro h
      have hdigit := (isNumberByte_byte d.isDigit_first).2.1
      rw [h] at hdigit
      exact absurd hdigit (by decide)
    cases negative with
    | false => exact ⟨_, _, rfl, apart_colon hcs hfirst⟩
    | true => exact ⟨_, _, rfl, apart_colon (bytes_cons_of_ascii (by decide) []) (by decide)⟩
  cases lit with
  | word name value h =>
    obtain ⟨b, more, hbytes, -, hstart, -⟩ := bytes_of_isWord (isWord_of_wordLiteral? h)
    refine ⟨_, _, rfl, apart_colon hbytes ?_⟩
    rintro rfl
    exact absurd hstart (by decide)
  | integer negative digits h => exact hdigits negative digits digits.bytes_text
  | decimal negative whole places => exact hdigits negative whole (by rw [bytes_append, whole.bytes_text]; rfl)
  | string q parts =>
    exact ⟨_, _, rfl, apart_colon (bytes_cons_of_ascii (by cases q <;> decide) _) (by cases q <;> decide)⟩

/-! ### Numbers -/

section Numbers

variable {t : Token} {kind : TokenKind} {cs : List Char}

theorem text_of_bytes (h : t.lexeme = (kind, bytes cs)) : t.text = String.ofList cs := by
  have hbytes : t.bytes = bytes cs := congrArg Prod.snd h
  rw [Token.text, hbytes, decode_bytes]

theorem number_integer {d : Digits} (hd : d.toNat < 2 ^ 63) (h : t.lexeme = (.number, bytes d.text)) :
    number t = .ok (.literal (.int (Int64.ofNat d.toNat))) := by
  have hpoint : '.' ∉ d.plain := by
    intro hmem
    exact absurd (List.all_eq_true.1 d.isDigit_plain '.' hmem) (by decide)
  have hread : Decimal.readInt64? d.plain = some (Int64.ofNat d.toNat) := by
    have hsign := d.splitSign_plain []
    rw [List.append_nil] at hsign
    have hfits : Int64.minValue.toInt ≤ (d.toNat : Int) ∧ (d.toNat : Int) ≤ Int64.maxValue.toInt := by
      rw [Int64.toInt_minValue, Int64.toInt_maxValue]
      omega
    have hint : Decimal.readInt? d.plain = some (d.toNat : Int) := by
      rw [Decimal.readInt?, hsign]
      simp only [d.readNat?_plain]
      rfl
    rw [Decimal.readInt64?, hint, Option.bind_some, Decimal.fitInt64?, if_pos hfits, Int64.ofInt_eq_ofNat]
  have hfilter : (String.ofList d.text).toList.filter (· ≠ '_') = d.plain := by rw [String.toList_ofList, Digits.plain]
  rw [number, text_of_bytes h]
  simp only [hfilter, if_neg hpoint, hread]
  rfl

theorem number_decimal {whole places : Digits} (h : t.lexeme = (.number, bytes (whole.text ++ '.' :: places.text))) :
    number t = .ok (.literal (.float (nearest whole places))) := by
  have hfilter : (String.ofList (whole.text ++ '.' :: places.text)).toList.filter (· ≠ '_') =
      whole.plain ++ '.' :: places.plain := by
    rw [String.toList_ofList, List.filter_append]
    rfl
  have hpoint : '.' ∈ whole.plain ++ '.' :: places.plain := by simp
  have hparts : Decimal.readParts? (whole.plain ++ '.' :: places.plain) = some ⟨whole.plain, places.plain, 0⟩ := by
    have hwhole : (whole.plain ++ '.' :: places.plain).span Char.isDigit = (whole.plain, '.' :: places.plain) :=
      whole.span_plain fun c hc => by
        cases hc
        decide
    have hplaces : (places.plain ++ []).span Char.isDigit = (places.plain, []) := places.span_plain (by simp)
    rw [List.append_nil] at hplaces
    have hne : whole.plain.isEmpty = false := by rw [whole.plain_eq, List.isEmpty_cons]
    rw [Decimal.readParts?, hwhole]
    simp only [Decimal.splitFraction, hplaces, hne]
    rfl
  rw [number, text_of_bytes h]
  simp only [hfilter, if_pos hpoint, Decimal.readFloat?, whole.splitSign_plain, hparts, Option.map_some, Int.zero_sub,
    Bool.false_eq_true, if_false, nearest]

end Numbers

/-! ### Reading -/

section Reading

variable {scope : Scope} {operand : OperandParser} {position : Nat} {u : Token} {rest : List Token}

/-- What a level reads before a token that is no operator is one operand. -/
theorem level_run_before {s : Stream} {o : Sized} (minPower : Nat) (hu : BinaryOp.ofKind? u.kind = none)
    (h : primary scope operand s = .ok (o, ⟨position, u :: rest, none⟩)) :
    (level scope operand minPower).run s = .ok (o, ⟨position, u :: rest, none⟩) := by
  have hnext : nextOperator minPower ⟨position, u :: rest, none⟩ = .ok none := by simp [nextOperator, hu]
  rw [level_run_of_primary h, operations_of_nextOperator hnext]

/-- A number that is read as a value, with a sign as its negative. -/
theorem run_signed {cs : List Char} {value opposite : Value} {depth : Nat} {front : List Token} (negative : Bool)
    (hn : ∀ t : Token, t.lexeme = (.number, bytes cs) → number t = .ok (.literal value))
    (ho : (Expr.literal value).negated = .literal opposite)
    (hf : front.map Token.lexeme = inBytes (sign negative ++ [(.number, cs)])) (hu : BinaryOp.ofKind? u.kind = none) :
    ∃ height position', (expression scope (depth + 2) 0).run ⟨position, front ++ u :: rest, none⟩ =
      .ok (⟨.literal (if negative then opposite else value), height⟩, ⟨position', u :: rest, none⟩) := by
  have hprimary : ∀ {operand : OperandParser} {t : Token} (position : Nat), t.lexeme = (.number, bytes cs) →
      primary scope operand ⟨position, t :: u :: rest, none⟩ =
        .ok (⟨.literal value, 1⟩, ⟨t.stop, u :: rest, none⟩) := by
    intro operand t position ht
    simp [primary, kind_of_lexeme ht, hn t ht, bind, Except.bind, pure, Except.pure]
  cases negative with
  | false =>
    obtain ⟨t, rfl, ht⟩ := List.map_eq_singleton_iff.1 hf
    exact ⟨1, t.stop, level_run_before 0 hu (hprimary position ht)⟩
  | true =>
    -- the sign is read as an operator on the number, and folded into it
    obtain ⟨minus, inner, rfl, hminus, hinner⟩ := List.map_eq_cons_iff.1 hf
    obtain ⟨t, rfl, ht⟩ := List.map_eq_singleton_iff.1 hinner
    have hkind : minus.kind = .minus := kind_of_lexeme hminus
    have hnumber : (expression scope (depth + 1) signPower).run ⟨minus.stop, t :: u :: rest, none⟩ =
        .ok (⟨.literal value, 1⟩, ⟨t.stop, u :: rest, none⟩) :=
      level_run_before signPower hu (hprimary minus.stop ht)
    refine ⟨2, t.stop, level_run_before 0 hu ?_⟩
    simp [primary, hkind, hnumber, ho, bind, Except.bind, pure, Except.pure]

theorem negated_ofNat {n : Nat} (h : n < 2 ^ 63) :
    (Expr.literal (.int (Int64.ofNat n))).negated = .literal (.int (-Int64.ofNat n)) := by
  have hne : Int64.ofNat n ≠ Int64.minValue := by
    intro heq
    have := congrArg Int64.toInt heq
    rw [Int64.toInt_ofNat_of_lt h, Int64.toInt_minValue] at this
    omega
  rw [Expr.negated, if_neg hne]

/-- A literal is read as its value, up to a token that is no operator. -/
theorem run_literal (lit : Literal) {depth : Nat} {front : List Token}
    (hf : front.map Token.lexeme = inBytes lit.lexemes) (hu : BinaryOp.ofKind? u.kind = none) :
    ∃ height position', (expression scope (depth + 2) 0).run ⟨position, front ++ u :: rest, none⟩ =
      .ok (⟨.literal lit.value, height⟩, ⟨position', u :: rest, none⟩) := by
  cases lit with
  | word name value h =>
    obtain ⟨t, rfl, ht⟩ := List.map_eq_singleton_iff.1 hf
    refine ⟨1, t.stop, level_run_before 0 hu ?_⟩
    simp [primary, kind_of_lexeme ht, text_of_lexeme ht, h, Literal.value, bind, Except.bind, pure, Except.pure]
  | integer negative digits h => exact run_signed negative (fun t => number_integer h) (negated_ofNat h) hf hu
  | decimal negative whole places => exact run_signed negative (fun t => number_decimal) rfl hf hu
  | string q parts =>
    obtain ⟨t, rfl, ht⟩ := List.map_eq_singleton_iff.1 hf
    have hkind : t.kind = q.kind := kind_of_lexeme ht
    have hvalue : t.value = String.ofList (parts.map StringPart.value) := value_of_parts ht
    refine ⟨1, t.stop, level_run_before 0 hu ?_⟩
    cases q <;> simp [primary, hkind, Quote.kind, hvalue, Literal.value, bind, Except.bind, pure, Except.pure]

end Reading

end SqlQuery.Closure
