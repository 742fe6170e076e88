import Mathlib
import SqlQuery.Proofs.ClosureRoundTrip
import SqlQuery.Proofs.GrammaticalTrees
import SqlQuery.Proofs.ScopeReferences
import SqlQuery.Value.Encoding

/-!
# Values through JSON

What a value becomes when it is written as JSON and read again. The reader takes more spellings of a reference than the
writer has, so that a text can change once; what has been read is `Portable`, and a value is the same after a round trip
if and only if it is portable (`decode_encode_iff`). An integer past 64 bits with a sign is read as a double, and is
kept because that double is finite (`isFinite_roundToFloat`).
-/

namespace SqlQuery

/-! ### References -/

namespace Reference

open SqlQuery.Text (joinWith splitOn)

/-- A dotted path all of whose segments are identifiers. -/
def isPath (path : String) : Bool := (splitOn '.' path.toList).all isIdentifier

theorem dot_not_mem_of_isIdentifier {segment : List Char} (h : isIdentifier segment = true) : '.' ∉ segment := by
  cases segment with
  | nil => cases h
  | cons c cs =>
    rw [isIdentifier, Bool.and_eq_true, List.all_eq_true] at h
    intro hmem
    rcases List.mem_cons.1 hmem with rfl | hmem
    · exact absurd h.1 (by decide)
    · exact absurd (h.2 '.' hmem) (by decide)

theorem unmark_of_isIdentifier {segment : List Char} (h : isIdentifier segment = true) : unmark segment = segment := by
  unfold unmark
  split
  · rw [isIdentifier, Bool.and_eq_true] at h
    exact absurd h.1 (by decide)
  · rfl

/-- Segments without dots are found again between the dots. -/
theorem splitOn_joinWith {segments : List (List Char)} (hne : segments ≠ []) (h : ∀ s ∈ segments, '.' ∉ s) :
    splitOn '.' (joinWith "." (segments.map String.ofList)).toList = segments := by
  induction segments with
  | nil => exact absurd rfl hne
  | cons s segments ih =>
    obtain ⟨hs, hsegments⟩ := List.forall_mem_cons.1 h
    cases segments with
    | nil =>
      have hsingle : (joinWith "." ([s].map String.ofList)).toList = s := String.toList_ofList
      rw [hsingle, Filter.splitOn_of_not_mem hs]
    | cons s' segments =>
      have hcons : (joinWith "." ((s :: s' :: segments).map String.ofList)).toList =
          s ++ '.' :: (joinWith "." ((s' :: segments).map String.ofList)).toList := by
        simp [joinWith]
      rw [hcons, Filter.splitOn_append_cons, Filter.splitOn_of_not_mem hs, ih (List.cons_ne_nil _ _) hsegments]
      rfl

/-- A path is written with one mark before each segment, the first of which is in front. -/
theorem toList_text {path : String} {first : List Char} {later : List (List Char)}
    (h : splitOn '.' path.toList = first :: later) :
    (text path).toList = '$' :: (joinWith "." ((first :: later.map ('$' :: ·)).map String.ofList)).toList := by
  have hmark : ∀ segment : List Char, "$" ++ String.ofList segment = String.ofList ('$' :: segment) := by
    intro segment
    rw [← String.toList_inj]
    simp
  have hmap : (later.map fun segment => "$" ++ String.ofList segment) =
      (later.map ('$' :: ·)).map String.ofList := by
    rw [List.map_map]
    exact List.map_congr_left fun segment _ => hmark segment
  rw [text, h, List.map_cons, hmap]
  cases later with
  | nil => simp [joinWith]
  | cons second later => simp [joinWith]

theorem parse?_marked {s : String} {cs : List Char} (h : s.toList = '$' :: cs) :
    parse? s = if ((splitOn '.' cs).map unmark).all isIdentifier then
      some (joinWith "." (((splitOn '.' cs).map unmark).map String.ofList)) else none := by
  rw [parse?, h]
  rfl

theorem isPath_of_parse? {s path : String} (h : parse? s = some path) : isPath path = true := by
  unfold parse? at h
  split at h
  · next cs _ =>
    dsimp only at h
    split at h
    · next hall =>
      cases h
      have hne : (splitOn '.' cs).map unmark ≠ [] := by
        simpa using Filter.splitOn_ne_nil '.' cs
      have hdots : ∀ segment ∈ (splitOn '.' cs).map unmark, '.' ∉ segment := fun segment hmem =>
        dot_not_mem_of_isIdentifier (List.all_eq_true.1 hall segment hmem)
      rw [isPath, splitOn_joinWith hne hdots]
      exact hall
    · cases h
  · cases h

/-- The text of a path of identifiers is read as that path. -/
theorem parse?_text {path : String} (h : isPath path = true) : parse? (text path) = some path := by
  obtain ⟨first, later, hsplit⟩ := List.exists_cons_of_ne_nil (Filter.splitOn_ne_nil '.' path.toList)
  rw [isPath, hsplit, List.all_cons, Bool.and_eq_true] at h
  obtain ⟨hfirst, hlater⟩ := h
  have hdots : ∀ segment ∈ first :: later.map ('$' :: ·), '.' ∉ segment := by
    refine List.forall_mem_cons.2 ⟨dot_not_mem_of_isIdentifier hfirst, fun segment hmem => ?_⟩
    obtain ⟨s, hs, rfl⟩ := List.mem_map.1 hmem
    rw [List.mem_cons, not_or]
    exact ⟨by decide, dot_not_mem_of_isIdentifier (List.all_eq_true.1 hlater s hs)⟩
  have hunmark : (first :: later.map ('$' :: ·)).map unmark = first :: later := by
    rw [List.map_cons, unmark_of_isIdentifier hfirst, List.map_map]
    exact congrArg (first :: ·) (List.map_id later)
  have hall : (first :: later).all isIdentifier = true := by rw [List.all_cons, hfirst, hlater, Bool.and_self]
  have hjoin : joinWith "." ((first :: later).map String.ofList) = path := by
    rw [← hsplit]
    exact Closure.joinWith_segments path
  rw [parse?_marked (toList_text hsplit), splitOn_joinWith (List.cons_ne_nil _ _) hdots, hunmark, if_pos hall, hjoin]

end Reference

/-! ### Doubles of integers -/

section Doubles

open Float.Model (Format UnpackedFloat)

/-- A double with an exponent below the largest one is finite. -/
theorem isFinite_pack {m : Nat} {e : Int} (s : UnpackedFloat.Sign) (hm : 0 < m) (he : e < 972) :
    (Float.Model.pack (.finite s m e hm)).isFinite = true := by
  have hexponent : ∀ (b : Nat) (mantissa : BitVec 52), b < 2047 →
      (UnpackedFloat.unpack .binary64
        (UnpackedFloat.packComponents .binary64 s (BitVec.ofNat 11 b) mantissa)).isFinite = true := by
    intro b mantissa hb
    have hne : BitVec.ofNat 11 b ≠ -1#11 := by
      intro h
      have := congrArg BitVec.toNat h
      simp at this
      omega
    simp only [UnpackedFloat.unpack, UnpackedFloat.unpackExponent_packComponents]
    rw [if_neg hne]
    split
    · split <;> rfl
    · rfl
  change (UnpackedFloat.unpack .binary64 (UnpackedFloat.pack .binary64 (.finite s m e hm))).isFinite = true
  have hb : (e + (1023 : Nat) + (52 : Nat)).toNat < 2047 := by omega
  simp only [UnpackedFloat.pack]
  split
  · next h =>
    have hle : 2048 ≤ (e + (1023 : Nat) + (52 : Nat)).toNat + 1 := h
    omega
  · split
    · exact hexponent _ _ hb
    · exact hexponent 0 _ (by decide)

theorem mantissa_shiftRight_le (em : UnpackedFloat.ExtendedMantissa) (n : Nat) : (em >>> n).mantissa ≤ em.mantissa := by
  change (Nat.repeat UnpackedFloat.ExtendedMantissa.shiftRightOne n em).mantissa ≤ em.mantissa
  induction n with
  | zero => exact Nat.le_refl _
  | succ n ih => exact Nat.le_trans (Nat.div_le_self _ 2) ih

theorem roundedMantissa_le (em : UnpackedFloat.ExtendedMantissa) : em.roundedMantissa ≤ em.mantissa + 1 := by
  have hround : ∀ accuracy, UnpackedFloat.Accuracy.roundToNearestEven em.mantissa accuracy ≤ em.mantissa + 1 := by
    intro accuracy
    cases accuracy with
    | exact => exact Nat.le_succ _
    | inexact side =>
      cases side with
      | lt => exact Nat.le_succ _
      | eq => exact Nat.add_le_add_left (Nat.le_of_lt_succ (Nat.mod_lt _ (by decide))) _
      | gt => exact Nat.le_refl _
  exact hround em.accuracy

/-- Moving to the exponent of a double makes the mantissa no larger, and the exponent only as large as it has to be. -/
theorem shiftToTargetExponent_le {m k : Nat} {e : Int} (accuracy : UnpackedFloat.Accuracy) (hm : m < 2 ^ k)
    (he : e ≤ k) :
    (UnpackedFloat.shiftToTargetExponent .binary64 m e accuracy).1.mantissa ≤ m ∧
      (UnpackedFloat.shiftToTargetExponent .binary64 m e accuracy).2 ≤ 2 * k := by
  have hmantissa : (UnpackedFloat.ExtendedMantissa.ofMantissaAndAccuracy m accuracy).mantissa = m := by
    cases accuracy with
    | exact => rfl
    | inexact side => cases side <;> rfl
  have hlog : m.log2 ≤ k := by
    by_cases h : m = 0
    · simp [h]
    · exact Nat.le_of_lt ((Nat.log2_lt h).2 hm)
  refine ⟨(mantissa_shiftRight_le _ _).trans_eq hmantissa, ?_⟩
  change e + ((max ((m.log2 : Int) + 1 + e - (53 : Nat)) (-1074) - e).toNat : Int) ≤ 2 * k
  omega

/-- A number that is not too large is rounded to a finite double. -/
theorem isFinite_rounded {m : Nat} {e : Int} (s : UnpackedFloat.Sign) (accuracy : UnpackedFloat.Accuracy)
    (hm : m < 2 ^ 200) (he : e ≤ 0) :
    (Float.Model.pack (UnpackedFloat.roundWithAccuracy .binary64 s m e accuracy)).isFinite = true := by
  have he' : e ≤ (200 : Nat) := by omega
  obtain ⟨hmantissa, hexponent⟩ := shiftToTargetExponent_le accuracy hm he'
  simp only [UnpackedFloat.roundWithAccuracy]
  split
  · cases s <;> decide
  · -- rounding up can carry, so that the rounded mantissa is moved once more
    have hround := roundedMantissa_le (UnpackedFloat.shiftToTargetExponent .binary64 m e accuracy).1
    have hm' : (UnpackedFloat.shiftToTargetExponent .binary64 m e accuracy).1.roundedMantissa < 2 ^ 400 := by omega
    have he' : (UnpackedFloat.shiftToTargetExponent .binary64 m e accuracy).2 ≤ (400 : Nat) := by omega
    have hagain := (shiftToTargetExponent_le .exact hm' he').2
    exact isFinite_pack _ _ (by omega)

/-- An integer that fits in 64 bits only without a sign has a finite double. -/
theorem isFinite_roundToFloat {n : Nat} (hl : 2 ^ 63 ≤ n) (hu : n < 2 ^ 64) :
    (Decimal.roundToFloat n 0).isFinite = true := by
  have hdigits : (Nat.toDigits 10 n).length ≤ 20 := (Nat.length_toDigits_le_iff (by decide) (by decide)).2 (by omega)
  have hround : Decimal.roundToFloat n 0 = Float.ofScientific n false 0 := by
    unfold Decimal.roundToFloat
    dsimp only
    rw [if_neg (by omega), if_neg (by omega)]
    rfl
  have hmodel : Float.ofScientific n false 0 = ⟨Float.Model.ofScientific n 0⟩ := by
    unfold Float.ofScientific
    rw [dif_neg (by omega)]
    rfl
  have hsmall : ¬((0 : Int) > 2 ^ Format.binary64.exponentBits) := by decide
  have hlarge : ¬((0 : Int) < -(2 ^ Format.binary64.exponentBits + (n.log2 : Int))) := by
    have : (0 : Int) < 2 ^ Format.binary64.exponentBits := by decide
    omega
  have hproduct : UnpackedFloat.ofScientific .binary64 n 0 =
      UnpackedFloat.roundWithAccuracy .binary64 .positive (n <<< 53 * 10 ^ 0) (-53 + 0) .exact := by
    unfold UnpackedFloat.ofScientific
    rw [dif_neg (by omega), if_neg hsmall, if_neg hlarge, if_pos (Int.le_refl 0)]
    rfl
  have hlt : n <<< 53 * 10 ^ 0 < 2 ^ 200 := by
    rw [Nat.shiftLeft_eq]
    omega
  have hfinite := isFinite_rounded .positive .exact hlt (e := -53 + 0) (by decide)
  rw [← hproduct] at hfinite
  rw [hround, hmodel]
  exact hfinite

end Doubles

/-! ### Documents that are read -/

/-- The numbers of a document are 64-bit integers, with a sign or without, and finite doubles. -/
inductive Json.Lawful : Json → Prop where
  | null : Lawful .null
  | bool (b : Bool) : Lawful (.bool b)
  | int {n : Int} (hl : -2 ^ 63 ≤ n) (hu : n < 2 ^ 64) : Lawful (.int n)
  | float {x : Float} (h : x.isFinite = true) : Lawful (.float x)
  | string (s : String) : Lawful (.string s)
  | array {items : List Json} (h : ∀ j ∈ items, Lawful j) : Lawful (.array items)
  | object {entries : List (String × Json)} (h : ∀ e ∈ entries, Lawful e.2) : Lawful (.object entries)

namespace Value

/-- JSON has a form for the value that nothing else is written in: there are no dates, no doubles that are not finite,
no texts that read as references and no references that read as something else. -/
inductive Portable : Value → Prop where
  | null : Portable .null
  | bool (b : Bool) : Portable (.bool b)
  | int (n : Int64) : Portable (.int n)
  | float {x : Float} (h : x.isFinite = true) : Portable (.float x)
  | string {s : String} (h : Reference.parse? s = none) : Portable (.string s)
  | array {items : List Value} (h : ∀ v ∈ items, Portable v) : Portable (.array items)
  | object {entries : Document} (h : ∀ e ∈ entries, Portable e.2) : Portable (.object entries)
  | ref {path : String} (h : Reference.isPath path = true) : Portable (.ref path)

theorem portable_array {items : List Value} : Portable (.array items) ↔ ∀ v ∈ items, Portable v := by
  constructor
  · rintro (_ | _ | _ | _ | _ | h)
    exact h
  · exact .array

theorem portable_object {entries : Document} : Portable (.object entries) ↔ ∀ e ∈ entries, Portable e.2 := by
  constructor
  · rintro (_ | _ | _ | _ | _ | _ | h)
    exact h
  · exact .object

/-! ### Items and entries -/

theorem encodeItems_eq (items : List Value) : encodeItems items = items.map encode := by
  induction items with
  | nil => rfl
  | cons item items ih => rw [encodeItems, ih, List.map_cons]

theorem encodeEntries_eq (entries : Document) : encodeEntries entries = entries.map fun e => (e.1, encode e.2) := by
  induction entries with
  | nil => rfl
  | cons e entries ih => rw [encodeEntries, ih, List.map_cons]

theorem decodeItems_eq (items : List Json) : decodeItems items = items.map decode := by
  induction items with
  | nil => rfl
  | cons item items ih => rw [decodeItems, ih, List.map_cons]

theorem decodeEntries_eq (entries : List (String × Json)) :
    decodeEntries entries = entries.map fun e => (e.1, decode e.2) := by
  induction entries with
  | nil => rfl
  | cons e entries ih => rw [decodeEntries, ih, List.map_cons]

theorem decode_encode_array (items : List Value) :
    decode (encode (.array items)) = .array (items.map fun v => decode v.encode) := by
  rw [encode, decode, encodeItems_eq, decodeItems_eq, List.map_map]
  rfl

theorem decode_encode_object (entries : Document) :
    decode (encode (.object entries)) = .object (entries.map fun e => (e.1, decode e.2.encode)) := by
  rw [encode, decode, encodeEntries_eq, decodeEntries_eq, List.map_map]
  rfl

/-! ### Round trips -/

theorem ofText_eq_string {s s' : String} : ofText s = .string s' ↔ Reference.parse? s = none ∧ s = s' := by
  rw [ofText]
  cases Reference.parse? s <;> simp

theorem ofText_eq_ref {s path : String} : ofText s = .ref path ↔ Reference.parse? s = some path := by
  rw [ofText]
  cases Reference.parse? s <;> simp

theorem ofInt_toInt (n : Int64) : ofInt n.toInt = .int n := by
  rw [ofInt, Decimal.fitInt64?, if_pos ⟨n.minValue_le_toInt, n.toInt_le⟩, Int64.ofInt_toInt]

/-- What is kept is what is portable. -/
theorem decode_encode_iff (v : Value) : decode v.encode = v ↔ v.Portable := by
  induction v using Value.induct with
  | scalar v hs =>
    cases v with
    | null => exact ⟨fun _ => .null, fun _ => rfl⟩
    | bool b => exact ⟨fun _ => .bool b, fun _ => rfl⟩
    | int n => exact ⟨fun _ => .int n, fun _ => ofInt_toInt n⟩
    | float x =>
      rw [encode]
      by_cases hx : x.isFinite = true
      · rw [if_pos hx]
        exact ⟨fun _ => .float hx, fun _ => rfl⟩
      · rw [if_neg hx]
        constructor
        · rintro ⟨⟩
        · rintro (_ | _ | _ | h)
          exact absurd h hx
    | string s =>
      rw [encode, decode, ofText_eq_string]
      constructor
      · exact fun h => .string h.1
      · rintro (_ | _ | _ | _ | h)
        exact ⟨h, rfl⟩
    | date t =>
      -- a date is written as a text and read as a text or a reference
      constructor
      · intro h
        rw [encode, decode, ofText] at h
        cases hparse : Reference.parse? (t.text "T") <;> rw [hparse] at h <;> cases h
      · rintro ⟨⟩
    | ref path =>
      rw [encode, decode, ofText_eq_ref]
      constructor
      · exact fun h => .ref (Reference.isPath_of_parse? h)
      · rintro (_ | _ | _ | _ | _ | _ | _ | h)
        exact Reference.parse?_text h
    | array | object => cases hs
  | array items ih =>
    have hmap : (items.map fun v => decode v.encode) = items ↔ ∀ v ∈ items, decode v.encode = v := by
      simpa using List.map_inj_left (l := items) (f := fun v => decode v.encode) (g := id)
    rw [decode_encode_array, portable_array, Value.array.injEq, hmap]
    exact forall₂_congr ih
  | object entries ih =>
    have hmap : (entries.map fun e => (e.1, decode e.2.encode)) = entries ↔ ∀ e ∈ entries, decode e.2.encode = e.2 := by
      simpa [Prod.ext_iff] using List.map_inj_left (l := entries) (f := fun e => (e.1, decode e.2.encode)) (g := id)
    rw [decode_encode_object, portable_object, Value.object.injEq, hmap]
    exact forall₂_congr ih

/-- What is read from a document is kept from then on. -/
theorem portable_decode {j : Json} (h : j.Lawful) : (decode j).Portable := by
  induction h with
  | null => exact .null
  | bool b => exact .bool b
  | @int n hl hu =>
    rw [decode, ofInt, Decimal.fitInt64?]
    by_cases hn : Int64.minValue.toInt ≤ n ∧ n ≤ Int64.maxValue.toInt
    · rw [if_pos hn]
      exact .int _
    · rw [if_neg hn]
      rw [Int64.toInt_minValue, Int64.toInt_maxValue] at hn
      have hpos : ¬n < 0 := by omega
      have hfinite : (Decimal.roundToFloat n.natAbs 0).isFinite = true := isFinite_roundToFloat (by omega) (by omega)
      dsimp only
      rw [if_neg hpos]
      exact .float hfinite
  | float hx => exact .float hx
  | string s =>
    rw [decode, ofText]
    cases hparse : Reference.parse? s with
    | none => exact .string hparse
    | some path => exact .ref (Reference.isPath_of_parse? hparse)
  | array _ ih =>
    rw [decode, decodeItems_eq, portable_array]
    exact List.forall_mem_map.2 ih
  | object _ ih =>
    rw [decode, decodeEntries_eq, portable_object]
    exact List.forall_mem_map.2 ih

theorem isPath_of_portable {v : Value} (h : v.Portable) {path : String} (hp : path ∈ v.references) :
    Reference.isPath path = true := by
  induction h with
  | null | bool | int | float | string => cases hp
  | ref h =>
    rw [List.mem_singleton.1 hp]
    exact h
  | array _ ih =>
    obtain ⟨v, hv, hp⟩ := mem_references_array.1 hp
    exact ih v hv hp
  | object _ ih =>
    obtain ⟨e, he, hp⟩ := mem_references_object.1 hp
    exact ih e he hp

end Value

/-- A document that is read, written and read again is what it was after the first reading, all references in it are
paths of identifiers, and the values that are kept by writing and reading are the portable ones. -/
theorem json_form_stable (j : Json) (hj : j.Lawful) (v : Value) :
    Value.decode (Value.decode j).encode = Value.decode j ∧
      (∀ path ∈ (Value.decode j).references, (Text.splitOn '.' path.toList).all Reference.isIdentifier = true) ∧
      (Value.decode v.encode = v ↔ v.Portable) := by
  have hread := Value.portable_decode hj
  exact ⟨(Value.decode_encode_iff _).2 hread, fun path hp => Value.isPath_of_portable hread hp,
    Value.decode_encode_iff v⟩

theorem json_form_stable_marked :
    Json.Lawful (.array [.string "$Person.name", .string "$5 off", .int 18446744073709551615]) ∧
      Value.decode
          (Value.decode (.array [.string "$Person.name", .string "$5 off", .int 18446744073709551615])).encode =
        Value.decode (.array [.string "$Person.name", .string "$5 off", .int 18446744073709551615]) ∧
      Value.decode (Value.encode (.ref "Person.name")) = .ref "Person.name" := by
  have hlawful : Json.Lawful (.array [.string "$Person.name", .string "$5 off", .int 18446744073709551615]) := by
    refine .array ?_
    simp only [List.forall_mem_cons]
    exact ⟨.string _, .string _, .int (by decide) (by decide), List.forall_mem_nil _⟩
  have hstable := json_form_stable _ hlawful (.ref "Person.name")
  exact ⟨hlawful, hstable.1, hstable.2.2.2 (.ref (by decide))⟩

end SqlQuery
