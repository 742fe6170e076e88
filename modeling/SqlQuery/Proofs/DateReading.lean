import Mathlib
import SqlQuery.Proofs.TokenSpacing

/-!
# Constants and dates read back

Each part of a date's text is read as the number that was written (`year_yearText`, `twoDigits_padded`,
`optionalFraction_padded`), and what stands between the parts tells where they end. So the first layout that fits either
text of a date reads the clock as it was, to the millisecond (`readItems_timeChars`). The clock does not tell a leap
second in the middle of a minute from the second after it, and the latter is read (`read?_text`). The constant of a
date after its tag is one literal, as those of null, truth values and integers are.
-/

namespace SqlQuery.Calendar

open SqlQuery.Text

/-! ### Numbers with zeros in front -/

theorem toList_padded (width n : Nat) : (Decimal.padded width n).toList =
    List.replicate (width - (Nat.toDigits 10 n).length) '0' ++ Nat.toDigits 10 n := String.toList_ofList

theorem all_isDigit_padded (width n : Nat) : (Decimal.padded width n).toList.all Char.isDigit = true := by
  have hzeros : (List.replicate (width - (Nat.toDigits 10 n).length) '0').all Char.isDigit = true :=
    List.all_eq_true.2 fun c hc => List.eq_of_mem_replicate hc ▸ by decide
  rw [toList_padded, List.all_append, hzeros, Filter.toDigits_all_isDigit]
  rfl

theorem padded_ne_nil (width n : Nat) : (Decimal.padded width n).toList ≠ [] := by
  rw [toList_padded]
  exact List.append_ne_nil_of_right_ne_nil _ Nat.toDigits_ne_nil

theorem length_padded {width n : Nat} (hpos : 0 < width) (hn : n < 10 ^ width) :
    (Decimal.padded width n).toList.length = width := by
  have hle : (Nat.toDigits 10 n).length ≤ width := (Nat.length_toDigits_le_iff (by decide) hpos).2 hn
  rw [toList_padded, List.length_append, List.length_replicate]
  omega

theorem ofDigitChars_padded (width n : Nat) : Nat.ofDigitChars 10 (Decimal.padded width n).toList 0 = n := by
  rw [toList_padded, Nat.ofDigitChars_append, Nat.ofDigitChars_replicate_zero, Nat.mul_zero,
    Nat.ofDigitChars_toDigits (by decide) (by decide)]

theorem exists_padded_eq_cons (width n : Nat) :
    ∃ d ds, (Decimal.padded width n).toList = d :: ds ∧ d.isDigit = true := by
  obtain ⟨d, ds, h⟩ := List.exists_cons_of_ne_nil (padded_ne_nil width n)
  have hd := all_isDigit_padded width n
  rw [h, List.all_cons, Bool.and_eq_true] at hd
  exact ⟨d, ds, h, hd.1⟩

/-! ### Readers of numbers -/

theorem number_digits {width : Nat} {digits rest : List Char} (hne : digits ≠ [])
    (hd : digits.all Char.isDigit = true) (hle : digits.length ≤ width)
    (hstop : ∀ c, (rest.take (width - digits.length)).head? = some c → c.isDigit = false) :
    number width (digits ++ rest) = some (Nat.ofDigitChars 10 digits 0, rest) := by
  have htake : ((digits ++ rest).take width).takeWhile Char.isDigit = digits := by
    rw [List.take_append, List.take_of_length_le hle]
    exact Filter.takeWhile_eq_left hd hstop
  unfold number
  simp only [htake, List.isEmpty_eq_false_iff.2 hne, List.drop_left]
  rfl

/-- A number of full width, whatever follows. -/
theorem number_padded {width n : Nat} (hpos : 0 < width) (hn : n < 10 ^ width) (rest : List Char) :
    number width ((Decimal.padded width n).toList ++ rest) = some (n, rest) := by
  have hlength := length_padded hpos hn
  rw [number_digits (padded_ne_nil width n) (all_isDigit_padded width n) (Nat.le_of_eq hlength), ofDigitChars_padded]
  rw [hlength, Nat.sub_self, List.take_zero]
  intro c hc
  cases hc

/-- A number of any width, up to the first character that is no digit. -/
theorem number_unbounded (width n : Nat) {rest : List Char} (hrest : ∀ c, rest.head? = some c → c.isDigit = false) :
    number ((Decimal.padded width n).toList ++ rest).length ((Decimal.padded width n).toList ++ rest) =
      some (n, rest) := by
  rw [number_digits (padded_ne_nil width n) (all_isDigit_padded width n), ofDigitChars_padded]
  · rw [List.length_append]
    exact Nat.le_add_right ..
  · rw [List.length_append, Nat.add_sub_cancel_left, List.take_length]
    exact hrest

theorem dropWhile_isBlank_of_isDigit {c : Char} (h : c.isDigit = true) (cs : List Char) :
    (c :: cs).dropWhile isBlank = c :: cs := by
  rw [List.dropWhile_cons, Filter.isBlank_eq_false_of_isDigit h, if_neg Bool.false_ne_true]

theorem dropWhile_isBlank_padded (width n : Nat) (rest : List Char) :
    ((Decimal.padded width n).toList ++ rest).dropWhile isBlank = (Decimal.padded width n).toList ++ rest := by
  obtain ⟨d, ds, h, hd⟩ := exists_padded_eq_cons width n
  rw [h]
  exact dropWhile_isBlank_of_isDigit hd _

theorem twoDigits_padded {n : Nat} (hn : n < 100) (rest : List Char) :
    twoDigits ((Decimal.padded 2 n).toList ++ rest) = some (n, rest) := by
  rw [twoDigits, dropWhile_isBlank_padded]
  exact number_padded (by decide) hn rest

theorem year_of_isDigit {d : Char} (h : d.isDigit = true) (cs : List Char) :
    year (d :: cs) = (number 4 (d :: cs)).map fun p => ((p.1 : Int), p.2) := by
  have hne (x : Char) (hx : x.isDigit = false) : d ≠ x := by
    rintro rfl
    rw [h] at hx
    cases hx
  unfold year
  rw [dropWhile_isBlank_of_isDigit h]
  split
  · next heq => exact absurd (List.cons.inj heq).1 (hne _ (by decide))
  · next heq => exact absurd (List.cons.inj heq).1 (hne _ (by decide))
  · rfl

theorem year_minus (cs : List Char) :
    year ('-' :: cs) = (number cs.length cs).map fun p => (-(p.1 : Int), p.2) := rfl

theorem year_plus (cs : List Char) :
    year ('+' :: cs) = (number cs.length cs).map fun p => ((p.1 : Int), p.2) := rfl

/-- A year is read back, up to the first character that is no digit. -/
theorem year_yearText (y : Int) {rest : List Char} (hrest : ∀ c, rest.head? = some c → c.isDigit = false) :
    year ((Timestamp.yearText y).toList ++ rest) = some (y, rest) := by
  have hnumber := number_unbounded 4 y.natAbs hrest
  unfold Timestamp.yearText
  split_ifs with hfour hneg
  · have hfixed := number_padded (n := y.toNat) (by decide : 0 < 4) (by omega) rest
    obtain ⟨d, ds, h, hd⟩ := exists_padded_eq_cons 4 y.toNat
    rw [h, List.cons_append] at hfixed ⊢
    rw [year_of_isDigit hd, hfixed, Option.map_some, Int.toNat_of_nonneg hfour.1]
  · have hy : -(y.natAbs : Int) = y := by omega
    have hsign : "-".toList = ['-'] := rfl
    rw [String.toList_append, List.append_assoc, hsign, List.singleton_append, year_minus, hnumber, Option.map_some, hy]
  · have hy : (y.natAbs : Int) = y := by omega
    have hsign : "+".toList = ['+'] := rfl
    rw [String.toList_append, List.append_assoc, hsign, List.singleton_append, year_plus, hnumber, Option.map_some, hy]

/-- Three digits after the point are milliseconds. -/
theorem optionalFraction_padded {n : Nat} (hn : n < 1000) :
    optionalFraction ('.' :: (Decimal.padded 3 n).toList) = some (some (n * 1000000), []) := by
  have hlength : (Decimal.padded 3 n).toList.length = 3 := length_padded (by decide) hn
  have hall := all_isDigit_padded 3 n
  have htake : (Decimal.padded 3 n).toList.takeWhile Char.isDigit = (Decimal.padded 3 n).toList :=
    List.takeWhile_eq_self_iff.2 (List.all_eq_true.1 hall)
  have hdrop : (Decimal.padded 3 n).toList.dropWhile Char.isDigit = [] :=
    List.dropWhile_eq_nil_iff.2 (List.all_eq_true.1 hall)
  have hnine : (Decimal.padded 3 n).toList.take 9 = (Decimal.padded 3 n).toList :=
    List.take_of_length_le (by omega)
  have hfraction : fraction (Decimal.padded 3 n).toList = some (n * 1000000, []) := by
    unfold fraction
    simp only [htake, hdrop, hnine, hlength, List.isEmpty_eq_false_iff.2 (padded_ne_nil 3 n)]
    rw [Nat.ofDigitChars_append, ofDigitChars_padded, Nat.ofDigitChars_replicate_zero, Nat.mul_comm]
    rfl
  rw [optionalFraction, hfraction]
  rfl

/-! ### Leap seconds -/

namespace Timestamp

/-- The moment cut to milliseconds. -/
def truncated (t : Timestamp) : Timestamp :=
  { t with
    subsecond := t.subsecond / 1000000 * 1000000
    validTime := ⟨t.validTime.1, t.validTime.2.1, t.validTime.2.2.1,
      (Nat.div_mul_le_self ..).trans_lt t.validTime.2.2.2⟩ }

/-- A leap second that does not end its minute. -/
abbrev LeapsWithinMinute (t : Timestamp) : Prop := t.second ≠ 59 ∧ 1000000000 ≤ t.subsecond

/-- The moment, with the next second in place of a leap second that does not end its minute. The clock shows both
alike. -/
def settled (t : Timestamp) : Timestamp :=
  { t with
    second := if t.LeapsWithinMinute then t.second + 1 else t.second
    subsecond := if t.LeapsWithinMinute then t.subsecond - 1000000000 else t.subsecond
    validTime := by
      obtain ⟨hhour, hminute, hsecond, hsubsecond⟩ := t.validTime
      refine ⟨hhour, hminute, ?_, ?_⟩
      · split_ifs with hleap
        · have := hleap.1
          omega
        · exact hsecond
      · split_ifs <;> omega }

theorem truncated_settled_iff (t : Timestamp) : t.settled.truncated = t.truncated ↔ ¬t.LeapsWithinMinute := by
  constructor
  · intro h hleap
    have hsecond : (if t.LeapsWithinMinute then t.second + 1 else t.second) = t.second := congrArg second h
    rw [if_pos hleap] at hsecond
    omega
  · intro hleap
    unfold settled
    simp only [if_neg hleap]

end Timestamp

/-! ### Dates and times -/

@[simp] theorem expect_cons_self (c : Char) (cs : List Char) : expect c (c :: cs) = some cs := if_pos rfl

theorem Timestamp.day_lt (t : Timestamp) : t.day < 100 := by
  have hle := t.validDate.2.2.2
  have hdays : daysInMonth t.year t.month ≤ 31 := by
    unfold daysInMonth
    split_ifs <;> decide
  omega

theorem readItems_literal (c : Char) (items : List Item) (p : Parts) (cs : List Char) :
    readItems (.literal c :: items) p (c :: cs) = readItems items p cs := by
  simp [readItems, Item.read]

theorem readItems_blanks (items : List Item) (p : Parts) (cs : List Char) :
    readItems (.blanks :: items) p cs = readItems items p (cs.dropWhile isBlank) := rfl

/-- The items of a date, before others. -/
def dateThen (items : List Item) : List Item :=
  .year :: .literal '-' :: .month :: .literal '-' :: .day :: items

def timeItems : List Item := [.hour, .literal ':', .minute, .literal ':', .second, .fraction]

/-- A date is read back, whatever follows. -/
theorem readItems_dateText (t : Timestamp) (p : Parts) (items : List Item) (rest : List Char) :
    readItems (dateThen items) p (t.dateText.toList ++ rest) =
      readItems items { p with year := some t.year, month := some t.month, day := some t.day } rest := by
  have hyear (cs : List Char) : year ((Timestamp.yearText t.year).toList ++ '-' :: cs) = some (t.year, '-' :: cs) :=
    year_yearText t.year fun c hc => by
      obtain rfl : '-' = c := by simpa using hc
      decide
  have hmonth := fun cs => twoDigits_padded (n := t.month) (by have := t.validDate.2.1.2; omega) cs
  have hday := fun cs => twoDigits_padded t.day_lt cs
  simp [dateThen, readItems, Item.read, Timestamp.dateText, hyear, hmonth, hday]

/-- The time of day to the millisecond. -/
def Timestamp.timeChars (t : Timestamp) : List Char :=
  t.clockText.toList ++ '.' :: (Decimal.padded 3 (t.nano / 1000000)).toList

theorem toList_text (mark : String) (t : Timestamp) :
    (t.text mark).toList = t.dateText.toList ++ (mark.toList ++ t.timeChars) := by
  simp [Timestamp.text, Timestamp.timeChars]

theorem dropWhile_isBlank_timeChars (t : Timestamp) : t.timeChars.dropWhile isBlank = t.timeChars := by
  rw [Timestamp.timeChars, Timestamp.clockText]
  simp only [String.toList_append, List.append_assoc]
  exact dropWhile_isBlank_padded ..

/-- A time is read as the clock shows it, to the millisecond. -/
theorem readItems_timeChars (t : Timestamp) (p : Parts) :
    readItems timeItems p t.timeChars =
      some { p with
        hour := some t.hour
        minute := some t.minute
        second := some t.clockSecond
        nano := some (t.nano / 1000000 * 1000000) } := by
  obtain ⟨hhour, hminute, hsecond, hsubsecond⟩ := t.validTime
  have hclock : t.clockSecond < 100 := by
    unfold Timestamp.clockSecond
    omega
  have hnano : t.nano / 1000000 < 1000 := by
    unfold Timestamp.nano
    omega
  have hh := fun cs => twoDigits_padded (n := t.hour) (by omega) cs
  have hm := fun cs => twoDigits_padded (n := t.minute) (by omega) cs
  have hs := fun cs => twoDigits_padded hclock cs
  simp [timeItems, readItems, Item.read, Timestamp.timeChars, Timestamp.clockText, hh, hm, hs,
    optionalFraction_padded hnano]

/-- The parts of the text of a moment, without its mark. -/
def Timestamp.parts (t : Timestamp) : Parts where
  year := some t.year
  month := some t.month
  day := some t.day
  hour := some t.hour
  minute := some t.minute
  second := some t.clockSecond
  nano := some (t.nano / 1000000 * 1000000)

/-- Of the seconds that the clock shows, only second 60 is taken as a leap second. -/
theorem seconds?_parts (t : Timestamp) :
    t.parts.seconds? = some (t.settled.truncated.second, t.settled.truncated.subsecond) := by
  obtain ⟨-, -, hsecond, hsubsecond⟩ := t.validTime
  simp only [Parts.seconds?, Timestamp.parts, Timestamp.clockSecond, Timestamp.nano, Timestamp.settled,
    Timestamp.truncated, Option.getD_some]
  -- the clock shows second 60 only in a leap second after second 59, where nothing is moved
  split_ifs with hsixty hleap hleap <;> simp only [Option.some.injEq, Prod.mk.injEq] <;> omega

theorem moment?_parts (t : Timestamp) : t.parts.moment? = some t.settled.truncated := by
  rw [Parts.moment?, seconds?_parts]
  exact dif_pos ⟨t.validDate, t.settled.truncated.validTime⟩

/-- A layout that starts with a date reads the date of a moment, and its other items read what follows. -/
theorem readLayout_text {layout : String} {items : List Item} (h : Item.ofLayout layout.toList = dateThen items)
    (mark : String) (t : Timestamp) :
    readLayout layout (t.text mark) =
      readItems items { year := some t.year, month := some t.month, day := some t.day }
        (mark.toList ++ t.timeChars) := by
  rw [readLayout, h, toList_text, readItems_dateText]

theorem readLayout_letter {layout : String} (h : Item.ofLayout layout.toList = dateThen (.literal 'T' :: timeItems))
    (t : Timestamp) : readLayout layout (t.text "T") = some t.parts := by
  have hmark : "T".toList = ['T'] := rfl
  rw [readLayout_text h, hmark, List.singleton_append, readItems_literal, readItems_timeChars]
  rfl

theorem readLayout_blank {layout : String} (h : Item.ofLayout layout.toList = dateThen (.blanks :: timeItems))
    (t : Timestamp) : readLayout layout (t.text " ") = some t.parts := by
  have hmark : " ".toList = [' '] := rfl
  rw [readLayout_text h, hmark, List.singleton_append, readItems_blanks, List.dropWhile_cons_of_pos (by decide),
    dropWhile_isBlank_timeChars, readItems_timeChars]
  rfl

/-- No layout with a letter reads a text with a blank in its place. -/
theorem readLayout_letter_blank {layout : String} {items : List Item}
    (h : Item.ofLayout layout.toList = dateThen (.literal 'T' :: items)) (t : Timestamp) :
    readLayout layout (t.text " ") = none := by
  rw [readLayout_text h]
  rfl

/-- Both texts of a moment are read as the clock shows it, cut to milliseconds. -/
theorem read?_text {mark : String} (hmark : mark = "T" ∨ mark = " ") (t : Timestamp) :
    Timestamp.read? (t.text mark) = some t.settled.truncated := by
  have hletter : Item.ofLayout "%Y-%m-%dT%H:%M:%S%.f".toList = dateThen (.literal 'T' :: timeItems) := rfl
  rcases hmark with rfl | rfl
  · simp [Timestamp.read?, momentLayouts, readLayout_letter hletter, moment?_parts]
  · have hsecond : Item.ofLayout "%Y-%m-%dT%H:%M:%S".toList =
        dateThen [.literal 'T', .hour, .literal ':', .minute, .literal ':', .second] := rfl
    have hminute : Item.ofLayout "%Y-%m-%dT%H:%M".toList =
        dateThen [.literal 'T', .hour, .literal ':', .minute] := rfl
    have hblank : Item.ofLayout "%Y-%m-%d %H:%M:%S%.f".toList = dateThen (.blanks :: timeItems) := rfl
    -- the three layouts with a letter come first, and none of them reads the text
    simp [Timestamp.read?, momentLayouts, readLayout_letter_blank hletter, readLayout_letter_blank hsecond,
      readLayout_letter_blank hminute, readLayout_blank hblank, moment?_parts]

/-! ### The characters of a date -/

/-- The characters in texts of moments. -/
def isTimeChar (c : Char) : Bool := c.isDigit || "+-:. T".toList.contains c

theorem all_isTimeChar_padded (width n : Nat) : (Decimal.padded width n).toList.all isTimeChar = true :=
  List.all_eq_true.2 fun c hc =>
    Bool.or_eq_true_iff.2 (.inl (List.all_eq_true.1 (all_isDigit_padded width n) c hc))

theorem all_isTimeChar_yearText (y : Int) : (Timestamp.yearText y).toList.all isTimeChar = true := by
  unfold Timestamp.yearText
  split_ifs
  · exact all_isTimeChar_padded ..
  · rw [String.toList_append, List.all_append, all_isTimeChar_padded]
    decide
  · rw [String.toList_append, List.all_append, all_isTimeChar_padded]
    decide

theorem all_isTimeChar_text (t : Timestamp) : (t.text " ").toList.all isTimeChar = true := by
  simp only [Timestamp.text, Timestamp.dateText, Timestamp.clockText, String.toList_append, List.all_append,
    all_isTimeChar_padded, all_isTimeChar_yearText]
  decide

end SqlQuery.Calendar

namespace SqlQuery

open SqlQuery.Filter SqlQuery.Text
open SqlQuery.Calendar (Timestamp)

/-! ### Constants as literals -/

/-- The whole text is one literal. -/
def IsLiteral (text : String) (value : Value) (kind : LiteralKind) (tag : QuoteTag) : Prop :=
  tokenize text = .ok [⟨0, byteLength text.toList, .literal value kind tag⟩]

theorem isLiteral_of_scanLexeme {text : String} {c : Char} {cs : List Char} {value : Value} {kind : LiteralKind}
    {tag : QuoteTag} (htext : text.toList = c :: cs) (hc : isBlank c = false)
    (h : scanLexeme 0 c (cs ++ []) = (.ok (.literal value kind tag), cs.length)) : IsLiteral text value kind tag := by
  have hscan := Cursor.scan_eq_token cs [] hc h
  rw [List.append_nil, ← htext, Nat.zero_add] at hscan
  rw [IsLiteral, tokenize, scanText, scanAll_of_token hscan, scanAll_nil]

/-- A literal without a tag is written as its constant. -/
theorem isLiteral_literalText (value : Value) (h : isPlain value = true) :
    IsLiteral (literalText value) value (literalKind value) .plain := by
  obtain ⟨c, cs, htext, hc, hscan⟩ := scanLexeme_literal h .nil 0
  exact isLiteral_of_scanLexeme htext hc hscan

theorem quoted?_unescaped {text : List Char} (h : ∀ c ∈ text, c ≠ '\x27' ∧ c ≠ '\\') :
    quoted? (text ++ ['\x27']) = some (text, text.length + 1) := by
  induction text with
  | nil => rfl
  | cons c text ih =>
    have hc := h c List.mem_cons_self
    rw [List.cons_append, quoted?_cons hc.1 hc.2, ih fun x hx => h x (List.mem_cons_of_mem c hx)]
    rfl

theorem scanQuoted_date (t : Timestamp) (start : Nat) :
    scanQuoted start .dateTime ((t.text " ").toList ++ ['\x27']) =
      (.ok (.literal (.date t.settled.truncated) .dateTime .dateTime), (t.text " ").toList.length + 1) := by
  have hquoted : quoted? ((t.text " ").toList ++ ['\x27']) = _ := quoted?_unescaped fun c hc => by
    have htime := List.all_eq_true.1 (Calendar.all_isTimeChar_text t) c hc
    constructor <;> rintro rfl <;> exact absurd htime (by decide)
  have hread := Calendar.read?_text (.inr rfl) t
  rw [scanQuoted, hquoted]
  simp [taggedLiteral, QuoteTag.value?, QuoteTag.kind, hread]

/-- The constant of a date after its tag is the date cut to milliseconds. -/
theorem isLiteral_date (t : Timestamp) :
    IsLiteral ("datetime" ++ ("'" ++ t.text " " ++ "'")) (.date t.settled.truncated) .dateTime .dateTime := by
  have htext : ("datetime" ++ ("'" ++ t.text " " ++ "'")).toList =
      'd' :: ("atetime".toList ++ '\x27' :: ((t.text " ").toList ++ ['\x27'])) := by
    simp
  refine isLiteral_of_scanLexeme htext (by decide) ?_
  have hmore : ("atetime".toList ++ '\x27' :: ((t.text " ").toList ++ ['\x27'])).takeWhile isWordChar =
      "atetime".toList := takeWhile_eq_left (by decide) fun c hc => by
    obtain rfl : '\x27' = c := by simpa using hc
    decide
  have htag : QuoteTag.ofWord? (String.ofList ('d' :: "atetime".toList)) = some .dateTime := by decide
  rw [List.append_nil, scanLexeme_wordStart (by decide), scanWord_tagged hmore htag List.drop_left, scanQuoted_date]
  refine congrArg (Prod.mk _) ?_
  simp only [List.length_append, List.length_cons, List.length_nil]
  omega

theorem literalKind_int (n : Int64) :
    literalKind (.int n) = if -2 ^ 31 ≤ n.toInt ∧ n.toInt < 2 ^ 31 then .int else .long := by
  have hfits : fitsInt32 n = true ↔ -2 ^ 31 ≤ n.toInt ∧ n.toInt < 2 ^ 31 := by
    rw [fitsInt32, Bool.and_eq_true, decide_eq_true_iff, decide_eq_true_iff, Int32.toInt_minValue,
      Int32.toInt_maxValue, Int.le_sub_one_iff]
  exact if_congr hfits rfl rfl

/-- The constants of null, truth values and integers are read back, with the type of an integer given by its size. The
constant of a date after its tag and the text of a date in a document are read as the date cut to milliseconds, except
that the next second is read for a leap second that does not end its minute. -/
theorem scalars_and_dates_read_back (f : Sql.Formatter) :
    (∃ sql, f.constant .null = .ok sql ∧ IsLiteral sql .null .null .plain) ∧
      (∀ b, ∃ sql, f.constant (.bool b) = .ok sql ∧ IsLiteral sql (.bool b) .boolean .plain) ∧
      (∀ n : Int64, ∃ sql, f.constant (.int n) = .ok sql ∧
        IsLiteral sql (.int n) (if -2 ^ 31 ≤ n.toInt ∧ n.toInt < 2 ^ 31 then .int else .long) .plain) ∧
      ∀ t : Timestamp,
        (∃ sql, f.constant (.date t) = .ok sql ∧
          IsLiteral ("datetime" ++ sql) (.date t.settled.truncated) .dateTime .dateTime) ∧
        (∃ text, (Value.date t).encode = .string text ∧ Timestamp.read? text = some t.settled.truncated) ∧
        (t.settled.truncated = t.truncated ↔ ¬t.LeapsWithinMinute) := by
  refine ⟨⟨literalText .null, rfl, isLiteral_literalText .null rfl⟩, fun b => ?_, fun n => ?_, fun t => ⟨?_, ?_, ?_⟩⟩
  · cases b with
    | true => exact ⟨literalText (.bool true), rfl, isLiteral_literalText _ rfl⟩
    | false => exact ⟨literalText (.bool false), rfl, isLiteral_literalText _ rfl⟩
  · rw [← literalKind_int]
    exact ⟨literalText (.int n), rfl, isLiteral_literalText _ rfl⟩
  · exact ⟨_, rfl, isLiteral_date t⟩
  · exact ⟨_, rfl, Calendar.read?_text (.inl rfl) t⟩
  · exact t.truncated_settled_iff

/-- The start of a leap second after 20:19:23, which the clock shows as 20:19:24. -/
def leapAfterTwentyThree : Timestamp := ⟨2015, 6, 30, 20, 19, 23, 1000000000, by decide, by decide⟩

/-- A leap second in the middle of a minute is not read back, from neither of its texts. -/
theorem leap_within_minute_not_read_back :
    (Value.date leapAfterTwentyThree).encode = .string "2015-06-30T20:19:24.000" ∧
      Timestamp.read? "2015-06-30T20:19:24.000" ≠ some leapAfterTwentyThree.truncated ∧
      ({} : Sql.Formatter).constant (.date leapAfterTwentyThree) = .ok "'2015-06-30 20:19:24.000'" ∧
      ¬IsLiteral "datetime'2015-06-30 20:19:24.000'" (.date leapAfterTwentyThree.truncated) .dateTime .dateTime := by
  have hother : leapAfterTwentyThree.settled.truncated ≠ leapAfterTwentyThree.truncated := by decide
  have hletter : leapAfterTwentyThree.text "T" = "2015-06-30T20:19:24.000" := by decide
  have hblank : leapAfterTwentyThree.text " " = "2015-06-30 20:19:24.000" := by decide
  have hread := Calendar.read?_text (.inl rfl) leapAfterTwentyThree
  have hliteral := isLiteral_date leapAfterTwentyThree
  rw [hletter] at hread
  rw [hblank] at hliteral
  refine ⟨congrArg Json.string hletter, ?_, congrArg (fun text => Except.ok ("'" ++ text ++ "'")) hblank, ?_⟩
  · rw [hread]
    exact fun h => hother (Option.some.inj h)
  · intro h
    have htokens := hliteral.symm.trans h
    simp only [Except.ok.injEq, List.cons.injEq, and_true] at htokens
    injection htokens with _ _ hlexeme
    injection hlexeme with hvalue
    injection hvalue with hmoment
    exact hother hmoment

end SqlQuery
