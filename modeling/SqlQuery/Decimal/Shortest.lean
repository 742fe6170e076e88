/-!
# Shortest decimal digits of a double

A positive double is `mantissa · 2^exponent`. The reals that round to it form an interval around it,
and `shortest` finds the decimal of fewest digits in that interval, the nearest one if there are
several. Decimals of `n` digits form a grid, and a grid that meets the interval meets it in one of
the two neighbours of the value on the grid; so `n` is raised until one of them lies inside. All
comparisons are of natural numbers.
-/

namespace SqlQuery.Decimal

/-- Which of two equally near decimals is taken. -/
inductive Tie where
  | up
  | toEven
  deriving DecidableEq, Repr

/-- A positive double. `narrowBelow` says that the double below is half as far as the one above. -/
structure Binary where
  mantissa : Nat
  exponent : Int
  narrowBelow : Bool

inductive Class where
  | nan
  | infinite
  | zero
  | positive (value : Binary)

def isNegative (x : Float) : Bool := Nat.pow 2 63 ≤ x.toBits.toNat

/-- The class of a double's magnitude, from its bits: 11 of exponent and 52 of fraction. -/
def classify (x : Float) : Class :=
  let bits := x.toBits.toNat
  let biased : Nat := bits / Nat.pow 2 52 % Nat.pow 2 11
  let fraction : Nat := bits % Nat.pow 2 52
  if biased = 2047 then (if fraction = 0 then .infinite else .nan)
  else if biased = 0 then (if fraction = 0 then .zero else .positive ⟨fraction, -1074, false⟩)
  else .positive ⟨Nat.pow 2 52 + fraction, (biased : Int) - 1075, fraction = 0 ∧ 1 < biased⟩

def digitCount (n : Nat) : Nat := (Nat.toDigits 10 n).length

namespace Binary

/-- The exponent `e` with `10^e ≤ value < 10^(e+1)`. -/
def decimalExponent (b : Binary) : Int :=
  let num := b.mantissa * Nat.pow 2 b.exponent.toNat
  let den := Nat.pow 2 (-b.exponent).toNat
  if den ≤ num then (digitCount (num / den) : Int) - 1 else -(digitCount ((den - 1) / num) : Int)

/-- The decimal `d` for which `d · 10^k` lies in the interval of reals that round to the value and is
the nearest such multiple of `10^k`. The ends of the interval belong to it when the mantissa is
even. -/
def onGrid (b : Binary) (tie : Tie) (k : Int) : Option Nat :=
  -- Everything is counted in quarters of the last place, so that both ends of the interval are whole.
  let scale := Nat.pow 2 (b.exponent - 2).toNat * Nat.pow 10 (-k).toNat
  let unit := Nat.pow 2 (2 - b.exponent).toNat * Nat.pow 10 k.toNat
  let value := 4 * b.mantissa * scale
  let low := (4 * b.mantissa - if b.narrowBelow then 1 else 2) * scale
  let high := (4 * b.mantissa + 2) * scale
  let inside (d : Nat) : Bool :=
    if b.mantissa % 2 = 0 then low ≤ d * unit && d * unit ≤ high else low < d * unit && d * unit < high
  let below := value / unit
  let above := below + 1
  let gapBelow := value - below * unit
  let gapAbove := above * unit - value
  let preferBelow := gapBelow < gapAbove || (gapBelow = gapAbove && tie = .toEven && below % 2 = 0)
  match inside below, inside above with
  | true, true => some (if preferBelow then below else above)
  | true, false => some below
  | false, true => some above
  | false, false => none

end Binary

/-- Digits without trailing zeros and the place of the point: the value is `0.d₁d₂… · 10^point`. -/
structure Digits where
  digits : List Char
  point : Int

def Digits.ofNat (d : Nat) (k : Int) : Digits :=
  let all := Nat.toDigits 10 d
  ⟨(all.reverse.dropWhile (· = '0')).reverse, all.length + k⟩

def Binary.exact (b : Binary) : Digits :=
  if 0 ≤ b.exponent then .ofNat (b.mantissa * Nat.pow 2 b.exponent.toNat) 0
  else .ofNat (b.mantissa * Nat.pow 5 (-b.exponent).toNat) b.exponent

/-- The fewest digits that round to the double, and of those the nearest. Seventeen digits suffice
for every double. -/
def Binary.shortest (b : Binary) (tie : Tie) : Digits :=
  let e := b.decimalExponent
  match (List.range 17).findSome? fun (i : Nat) => (b.onGrid tie (e - i)).map (Digits.ofNat · (e - i)) with
  | some digits => digits
  | none => b.exact

end SqlQuery.Decimal
