import SqlQuery.Decimal.Shortest

/-!
# Texts of numbers

Integers in decimal, and two layouts of doubles: `plain`, which never has an exponent, and the
layout of JSON numbers.
-/

namespace SqlQuery.Decimal

def natText (n : Nat) : String := String.ofList (Nat.toDigits 10 n)

def intText : Int → String
  | .ofNat n => natText n
  | .negSucc n => "-" ++ natText (n + 1)

/-- A natural number in decimal, with zeros in front up to a width. -/
def padded (width n : Nat) : String :=
  let digits := Nat.toDigits 10 n
  String.ofList (List.replicate (width - digits.length) '0' ++ digits)

/-- How finite doubles are written. -/
structure Layout where
  /-- Which of two equally near decimals of the same length is written. -/
  tie : Tie
  /-- The decimal exponents for which no exponent is written. -/
  positional : Int → Bool
  /-- Whether a whole number keeps a fraction of one zero. -/
  keepFraction : Bool

/-- A sign is written for negative numbers only, and an exponent never. -/
def plain : Layout := ⟨.up, fun _ => true, false⟩

/-- JSON numbers keep a fraction and have an exponent from `10^16` on and below `10^-5`. -/
def json : Layout := ⟨.toEven, fun e => -5 ≤ e && e ≤ 15, true⟩

namespace Layout

/-- Digits with a point in their midst, or with the zeros that reach to the point. -/
def place (layout : Layout) (d : Digits) : String :=
  let count := d.digits.length
  if d.point ≤ 0 then "0." ++ String.ofList (List.replicate (-d.point).toNat '0' ++ d.digits)
  else if (count : Int) ≤ d.point then
    String.ofList (d.digits ++ List.replicate (d.point.toNat - count) '0') ++
      if layout.keepFraction then ".0" else ""
  else String.ofList (d.digits.take d.point.toNat ++ '.' :: d.digits.drop d.point.toNat)

/-- Digits with a point after the first, and the exponent that moves it. -/
def withExponent (d : Digits) : String :=
  let e := d.point - 1
  let mantissa := match d.digits with
    | first :: second :: rest => String.ofList (first :: '.' :: second :: rest)
    | digits => String.ofList digits
  mantissa ++ "e" ++ (if e < 0 then "-" else "+") ++ natText e.natAbs

def magnitude (layout : Layout) (b : Binary) : String :=
  let d := b.shortest layout.tie
  if layout.positional (d.point - 1) then layout.place d else withExponent d

end Layout

/-- The text of a double without an exponent; `NaN`, `inf` and `-inf` are words. -/
def floatText (x : Float) : String :=
  let sign := if isNegative x then "-" else ""
  match classify x with
  | .nan => "NaN"
  | .infinite => sign ++ "inf"
  | .zero => sign ++ "0"
  | .positive b => sign ++ plain.magnitude b

/-- The text of a double as a JSON number, which has none for the values that are not finite. -/
def jsonText? (x : Float) : Option String :=
  let sign := if isNegative x then "-" else ""
  match classify x with
  | .nan | .infinite => none
  | .zero => some (sign ++ "0.0")
  | .positive b => some (sign ++ json.magnitude b)

end SqlQuery.Decimal
