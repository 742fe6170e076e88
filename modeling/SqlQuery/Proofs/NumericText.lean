import Mathlib.Tactic.SplitIfs
import SqlQuery.Calendar.Timestamp
import SqlQuery.Decimal.Layout

/-!
# Characters of numbers

The texts of numbers and moments are made of digits and a few marks, none of which is a quote, and those of numbers are
not empty.
-/

namespace SqlQuery

/-- Digits, signs and the marks between the parts of a number or a moment. -/
def isNumberChar (c : Char) : Bool := c.isDigit || ['-', '+', ':', '.', ' '].contains c

/-- A text of such characters. -/
def Numeric (s : String) : Prop := s.toList.all isNumberChar = true

theorem isNumberChar_of_isDigit {c : Char} (h : c.isDigit = true) : isNumberChar c = true := by
  rw [isNumberChar, h]
  rfl

theorem isNumberChar_of_mem_toDigits {n : Nat} {c : Char} (h : c ∈ Nat.toDigits 10 n) : isNumberChar c = true :=
  isNumberChar_of_isDigit (Nat.isDigit_of_mem_toDigits (by decide) (by decide) h)

theorem isNumberChar_of_mem_zeros {n : Nat} {c : Char} (h : c ∈ List.replicate n '0') : isNumberChar c = true := by
  rw [List.eq_of_mem_replicate h]
  rfl

instance (s : String) : Decidable (Numeric s) := inferInstanceAs (Decidable (_ = true))

namespace Numeric

variable {s t : String}

theorem isNumberChar_of_mem (h : Numeric s) {c : Char} (hc : c ∈ s.toList) : isNumberChar c = true :=
  List.all_eq_true.1 h c hc

theorem append (hs : Numeric s) (ht : Numeric t) : Numeric (s ++ t) := by
  unfold Numeric at hs ht ⊢
  rw [String.toList_append, List.all_append, hs, ht]
  rfl

theorem ofList {cs : List Char} (h : ∀ c ∈ cs, isNumberChar c = true) : Numeric (String.ofList cs) := by
  unfold Numeric
  rw [String.toList_ofList]
  exact List.all_eq_true.2 h

theorem not_mem (h : Numeric s) : '\x27' ∉ s.toList := fun hc => absurd (h.isNumberChar_of_mem hc) (by decide)

theorem natText (n : Nat) : Numeric (Decimal.natText n) := ofList fun _ hc => isNumberChar_of_mem_toDigits hc

theorem intText (n : Int) : Numeric (Decimal.intText n) := by
  cases n with
  | ofNat n => exact natText n
  | negSucc n => exact append (s := "-") (by decide) (natText (n + 1))

theorem padded (width n : Nat) : Numeric (Decimal.padded width n) := by
  refine ofList fun c hc => ?_
  rcases List.mem_append.1 hc with hc | hc
  · exact isNumberChar_of_mem_zeros hc
  · exact isNumberChar_of_mem_toDigits hc

end Numeric

/-! ### Doubles -/

theorem isNumberChar_of_mem_ofNat {n : Nat} {k : Int} {c : Char} (h : c ∈ (Decimal.Digits.ofNat n k).digits) :
    isNumberChar c = true := by
  have hc : c ∈ (Nat.toDigits 10 n).reverse := (List.dropWhile_suffix _).subset (List.mem_reverse.1 h)
  exact isNumberChar_of_mem_toDigits (List.mem_reverse.1 hc)

theorem isNumberChar_of_mem_shortest {b : Decimal.Binary} {tie : Decimal.Tie} {c : Char}
    (h : c ∈ (b.shortest tie).digits) : isNumberChar c = true := by
  unfold Decimal.Binary.shortest at h
  simp only at h
  split at h
  · next digits hfound =>
    obtain ⟨i, -, hi⟩ := List.exists_of_findSome?_eq_some hfound
    obtain ⟨n, -, rfl⟩ := Option.map_eq_some_iff.1 hi
    exact isNumberChar_of_mem_ofNat h
  · unfold Decimal.Binary.exact at h
    split_ifs at h
    · exact isNumberChar_of_mem_ofNat h
    · exact isNumberChar_of_mem_ofNat h

theorem Numeric.place {d : Decimal.Digits} (h : ∀ c ∈ d.digits, isNumberChar c = true) :
    Numeric (Decimal.plain.place d) := by
  unfold Decimal.Layout.place
  simp only
  split_ifs with hpoint hwhole hkeep
  · refine append (s := "0.") (by decide) (ofList fun c hc => ?_)
    exact (List.mem_append.1 hc).elim isNumberChar_of_mem_zeros (h c)
  · exact absurd hkeep (by decide)
  · refine append (t := "") (ofList fun c hc => ?_) (by decide)
    exact (List.mem_append.1 hc).elim (h c) isNumberChar_of_mem_zeros
  · refine ofList fun c hc => ?_
    rcases List.mem_append.1 hc with hc | hc
    · exact h c (List.mem_of_mem_take hc)
    · rcases List.mem_cons.1 hc with rfl | hc
      · rfl
      · exact h c (List.mem_of_mem_drop hc)

/-- The characters of numbers, and of the words for what is none. -/
def isFloatChar (c : Char) : Bool := isNumberChar c || ['N', 'a', 'i', 'n', 'f'].contains c

theorem isFloatChar_of_mem_floatText {x : Float} {c : Char} (h : c ∈ (Decimal.floatText x).toList) :
    isFloatChar c = true := by
  have hnumeric : ∀ {s : String}, Numeric s → c ∈ s.toList → isFloatChar c = true := by
    intro s hs hc
    rw [isFloatChar, hs.isNumberChar_of_mem hc]
    rfl
  have hword : ∀ {cs : List Char}, cs.all isFloatChar = true → c ∈ cs → isFloatChar c = true :=
    fun hcs hc => List.all_eq_true.1 hcs c hc
  have hsign : Numeric (if Decimal.isNegative x then "-" else "") := by
    split_ifs <;> decide
  unfold Decimal.floatText at h
  simp only at h
  split at h
  · exact hword (by decide) h
  · rcases List.mem_append.1 (String.toList_append ▸ h) with h | h
    · exact hnumeric hsign h
    · exact hword (by decide) h
  · exact hnumeric (hsign.append (t := "0") (by decide)) h
  · exact hnumeric (hsign.append (.place fun c hc => isNumberChar_of_mem_shortest hc)) h

theorem not_mem_floatText (x : Float) : '\x27' ∉ (Decimal.floatText x).toList :=
  fun h => absurd (isFloatChar_of_mem_floatText h) (by decide)

/-! ### Numbers are not empty -/

theorem intText_ne_nil (n : Int) : (Decimal.intText n).toList ≠ [] := by
  cases n with
  | ofNat n =>
    show (String.ofList (Nat.toDigits 10 n)).toList ≠ []
    rw [String.toList_ofList]
    exact Nat.toDigits_ne_nil
  | negSucc n =>
    show ("-" ++ Decimal.natText (n + 1)).toList ≠ []
    rw [String.toList_append]
    exact List.cons_ne_nil _ _

theorem place_ne_nil (d : Decimal.Digits) : (Decimal.plain.place d).toList ≠ [] := by
  unfold Decimal.Layout.place
  simp only
  split_ifs with hpoint hwhole hkeep
  · rw [String.toList_append]
    exact List.cons_ne_nil _ _
  · exact absurd hkeep (by decide)
  · have hlength : 0 < (d.digits ++ List.replicate (d.point.toNat - d.digits.length) '0').length := by
      rw [List.length_append, List.length_replicate]
      omega
    rw [String.toList_append, String.toList_ofList]
    exact List.append_ne_nil_of_left_ne_nil (List.ne_nil_of_length_pos hlength) _
  · rw [String.toList_ofList]
    exact List.append_ne_nil_of_right_ne_nil _ (List.cons_ne_nil _ _)

theorem floatText_ne_nil (x : Float) : (Decimal.floatText x).toList ≠ [] := by
  unfold Decimal.floatText
  simp only
  split
  · decide
  · rw [String.toList_append]
    exact List.append_ne_nil_of_right_ne_nil _ (by decide)
  · rw [String.toList_append]
    exact List.append_ne_nil_of_right_ne_nil _ (by decide)
  · rw [String.toList_append]
    exact List.append_ne_nil_of_right_ne_nil _ (place_ne_nil _)

/-! ### Moments -/

theorem numeric_timestamp (t : Calendar.Timestamp) : Numeric (t.text " ") := by
  have hdash : Numeric "-" := by decide
  have hcolon : Numeric ":" := by decide
  have hyear : Numeric (Calendar.Timestamp.yearText t.year) := by
    unfold Calendar.Timestamp.yearText
    split_ifs
    · exact .padded _ _
    · exact .append (s := "-") hdash (.padded _ _)
    · exact .append (s := "+") (by decide) (.padded _ _)
  have hdate : Numeric t.dateText :=
    (((hyear.append hdash).append (.padded _ _)).append hdash).append (.padded _ _)
  have hclock : Numeric t.clockText :=
    ((((Numeric.padded _ _).append hcolon).append (.padded _ _)).append hcolon).append (.padded _ _)
  have hblank : Numeric " " := by decide
  have hpoint : Numeric "." := by decide
  exact (((hdate.append hblank).append hclock).append hpoint).append (.padded _ _)

end SqlQuery
