import Mathlib.Tactic.IntervalCases
import SqlQuery.Text.Utf8

/-!
# Bytes of a text

What is written as bytes is read back: the bytes of one character lead the reader from between two characters through
that character to behind it, whatever follows (`decode_utf8EncodeChar`).
-/

namespace SqlQuery.Text.Utf8

theorem toNat_ofNat_of_lt {n : Nat} (h : n < 256) : (UInt8.ofNat n).toNat = n := by
  rw [UInt8.toNat_ofNat']
  omega

theorem State.decode_cons (s : State) (b : UInt8) (bs : List UInt8) :
    s.decode (b :: bs) = (s.feed b).1 ++ (s.feed b).2.decode bs := by
  cases s <;> rfl

/-! ### First bytes -/

theorem first_ascii {n : Nat} (h : n < 128) : first (UInt8.ofNat n) = ([Char.ofNat n], .ready) := by
  have hn := toNat_ofNat_of_lt (n := n) (by omega)
  have hlt : UInt8.ofNat n < 0x80 := by
    rw [UInt8.lt_iff_toNat_lt, hn]
    exact h
  rw [first, if_pos hlt, hn]

theorem first_of_two {a : Nat} (h₁ : 2 ≤ a) (h₂ : a < 32) :
    first (UInt8.ofNat (a + 192)) = ([], .inside 0 0x80 0xBF a) := by
  interval_cases a <;> rfl

/-- Of the characters of three bytes, the first ones and the ones before the surrogates bound the second byte. -/
theorem first_of_three {a : Nat} (h : a < 16) :
    ∃ low high, first (UInt8.ofNat (a + 224)) = ([], .inside 1 low high a) ∧
      low.toNat = (if a = 0 then 160 else 128) ∧ high.toNat = if a = 13 then 159 else 191 := by
  interval_cases a <;> exact ⟨_, _, rfl, rfl, rfl⟩

/-- Of the characters of four bytes, the first ones and the last ones bound the second byte. -/
theorem first_of_four {a : Nat} (h : a < 5) :
    ∃ low high, first (UInt8.ofNat (a + 240)) = ([], .inside 2 low high a) ∧
      low.toNat = (if a = 0 then 144 else 128) ∧ high.toNat = if a = 4 then 143 else 191 := by
  interval_cases a <;> exact ⟨_, _, rfl, rfl, rfl⟩

/-! ### Further bytes -/

section Inside

variable {low high : UInt8} {m : Nat}

theorem le_continuation_le (hm : m < 64) (hlow : low.toNat ≤ m + 128) (hhigh : m + 128 ≤ high.toNat) :
    (low ≤ UInt8.ofNat (m + 128) ∧ UInt8.ofNat (m + 128) ≤ high) ∧ (UInt8.ofNat (m + 128)).toNat - 0x80 = m := by
  have hn := toNat_ofNat_of_lt (n := m + 128) (by omega)
  rw [UInt8.le_iff_toNat_le, UInt8.le_iff_toNat_le, hn]
  exact ⟨⟨hlow, hhigh⟩, by omega⟩

theorem feed_inside (hm : m < 64) (hlow : low.toNat ≤ m + 128) (hhigh : m + 128 ≤ high.toNat) (more bits : Nat) :
    State.feed (.inside (more + 1) low high bits) (UInt8.ofNat (m + 128)) =
      ([], .inside more 0x80 0xBF (bits * 64 + m)) := by
  obtain ⟨hrange, hm'⟩ := le_continuation_le hm hlow hhigh
  rw [State.feed, if_pos hrange, hm']

theorem feed_last (hm : m < 64) (hlow : low.toNat ≤ m + 128) (hhigh : m + 128 ≤ high.toNat) (bits : Nat) :
    State.feed (.inside 0 low high bits) (UInt8.ofNat (m + 128)) = ([Char.ofNat (bits * 64 + m)], .ready) := by
  obtain ⟨hrange, hm'⟩ := le_continuation_le hm hlow hhigh
  rw [State.feed, if_pos hrange, hm']

/-- Behind the second byte all bytes of a character have the same bounds. -/
theorem decode_last (hm : m < 64) (bits : Nat) (rest : List UInt8) :
    (State.inside 0 0x80 0xBF bits).decode (UInt8.ofNat (m + 128) :: rest) =
      Char.ofNat (bits * 64 + m) :: State.ready.decode rest := by
  have hlow : (0x80 : UInt8).toNat ≤ m + 128 := by show 128 ≤ _; omega
  have hhigh : m + 128 ≤ (0xBF : UInt8).toNat := by show _ ≤ 191; omega
  rw [State.decode_cons, feed_last hm hlow hhigh]
  rfl

end Inside

/-! ### Characters -/

section Characters

variable {v : Nat}

theorem decode_two (h₁ : 0x7F < v) (h₂ : v ≤ 0x7FF) (rest : List UInt8) :
    State.ready.decode (UInt8.ofNat (v / 64 % 32 + 192) :: UInt8.ofNat (v % 64 + 128) :: rest) =
      Char.ofNat v :: State.ready.decode rest := by
  have hbits : v / 64 % 32 * 64 + v % 64 = v := by omega
  rw [State.decode_cons, State.feed, first_of_two (by omega) (by omega)]
  show (State.inside 0 0x80 0xBF _).decode _ = _
  rw [decode_last (by omega), hbits]

theorem decode_three (h₁ : 0x7FF < v) (h₂ : v ≤ 0xFFFF) (hv : v < 0xD800 ∨ 0xDFFF < v) (rest : List UInt8) :
    State.ready.decode (UInt8.ofNat (v / 4096 % 16 + 224) :: UInt8.ofNat (v / 64 % 64 + 128) ::
      UInt8.ofNat (v % 64 + 128) :: rest) = Char.ofNat v :: State.ready.decode rest := by
  have hbits : (v / 4096 % 16 * 64 + v / 64 % 64) * 64 + v % 64 = v := by omega
  obtain ⟨low, high, hfirst, hlow, hhigh⟩ := first_of_three (show v / 4096 % 16 < 16 by omega)
  -- no other character is written in so many bytes, and no surrogate is a character
  have hlow' : low.toNat ≤ v / 64 % 64 + 128 := by
    rw [hlow]
    split <;> omega
  have hhigh' : v / 64 % 64 + 128 ≤ high.toNat := by
    rw [hhigh]
    split <;> omega
  rw [State.decode_cons, State.feed, hfirst]
  show (State.inside 1 low high _).decode _ = _
  rw [State.decode_cons, feed_inside (by omega) hlow' hhigh']
  show (State.inside 0 0x80 0xBF _).decode _ = _
  rw [decode_last (by omega), hbits]

theorem decode_four (h₁ : 0xFFFF < v) (h₂ : v < 0x110000) (rest : List UInt8) :
    State.ready.decode (UInt8.ofNat (v / 262144 % 8 + 240) :: UInt8.ofNat (v / 4096 % 64 + 128) ::
      UInt8.ofNat (v / 64 % 64 + 128) :: UInt8.ofNat (v % 64 + 128) :: rest) =
        Char.ofNat v :: State.ready.decode rest := by
  have hbits : ((v / 262144 % 8 * 64 + v / 4096 % 64) * 64 + v / 64 % 64) * 64 + v % 64 = v := by omega
  obtain ⟨low, high, hfirst, hlow, hhigh⟩ := first_of_four (show v / 262144 % 8 < 5 by omega)
  have hlow' : low.toNat ≤ v / 4096 % 64 + 128 := by
    rw [hlow]
    split <;> omega
  have hhigh' : v / 4096 % 64 + 128 ≤ high.toNat := by
    rw [hhigh]
    split <;> omega
  have hmiddle : (0x80 : UInt8).toNat ≤ v / 64 % 64 + 128 ∧ v / 64 % 64 + 128 ≤ (0xBF : UInt8).toNat := by
    show 128 ≤ _ ∧ _ ≤ 191
    omega
  rw [State.decode_cons, State.feed, hfirst]
  show (State.inside 2 low high _).decode _ = _
  rw [State.decode_cons, feed_inside (by omega) hlow' hhigh']
  show (State.inside 1 0x80 0xBF _).decode _ = _
  rw [State.decode_cons, feed_inside (by omega) hmiddle.1 hmiddle.2]
  show (State.inside 0 0x80 0xBF _).decode _ = _
  rw [decode_last (by omega), hbits]

end Characters

/-- The bytes of a character are read as the character. -/
theorem decode_utf8EncodeChar (c : Char) (rest : List UInt8) :
    State.ready.decode (String.utf8EncodeChar c ++ rest) = c :: State.ready.decode rest := by
  have hvalid : c.toNat < 0xD800 ∨ 0xDFFF < c.toNat ∧ c.toNat < 0x110000 := c.valid
  have hval : c.val.toNat = c.toNat := rfl
  have hc : c :: State.ready.decode rest = Char.ofNat c.toNat :: State.ready.decode rest := by rw [Char.ofNat_toNat]
  rw [hc]
  unfold String.utf8EncodeChar
  simp only [hval]
  generalize c.toNat = v at hvalid
  split_ifs with h₁ h₂ h₃
  · rw [List.cons_append, List.nil_append, State.decode_cons, State.feed, first_ascii (by omega)]
    rfl
  · exact decode_two (by omega) h₂ rest
  · exact decode_three (by omega) h₃ (by omega) rest
  · exact decode_four (by omega) (by omega) rest

theorem decode_encode (s : String) : decode (encode s) = s := by
  have hchars : ∀ cs : List Char, State.ready.decode (cs.flatMap String.utf8EncodeChar) = cs := by
    intro cs
    induction cs with
    | nil => rfl
    | cons c cs ih => rw [List.flatMap_cons, decode_utf8EncodeChar, ih]
  rw [decode, encode, hchars, String.ofList_toList]

/-! ### Bytes of characters -/

theorem utf8EncodeChar_of_ascii {c : Char} (h : c.toNat < 128) : String.utf8EncodeChar c = [UInt8.ofNat c.toNat] := by
  have hval : c.val.toNat ≤ 127 := Nat.le_of_lt_succ h
  rw [String.utf8EncodeChar, if_pos hval]
  rfl

/-- The bytes of a character outside of ASCII are outside of ASCII. -/
theorem le_of_mem_utf8EncodeChar {c : Char} (h : 128 ≤ c.toNat) : ∀ b ∈ String.utf8EncodeChar c, 128 ≤ b.toNat := by
  have hval : ¬ c.val.toNat ≤ 127 := Nat.not_le.2 h
  have hlarge : ∀ n, 128 ≤ n → n < 256 → 128 ≤ (UInt8.ofNat n).toNat := by
    intro n hn hlt
    rw [toNat_ofNat_of_lt hlt]
    exact hn
  intro b hb
  rw [String.utf8EncodeChar, if_neg hval] at hb
  split_ifs at hb
  all_goals
    simp only [List.mem_cons, List.not_mem_nil, or_false] at hb
    rcases hb with rfl | rfl | rfl | rfl <;> exact hlarge _ (by omega) (by omega)

end SqlQuery.Text.Utf8
