/-!
# Reading decimal numbers

Integers of 64 bits are read exactly or not at all; floating-point numbers are rounded to the
nearest double, to an infinity when they are too large.
-/

namespace SqlQuery.Decimal

/-- The number that a non-empty run of ASCII digits denotes. -/
def readNat? (cs : List Char) : Option Nat :=
  if !cs.isEmpty && cs.all Char.isDigit then some (Nat.ofDigitChars 10 cs 0) else none

/-- The sign and the rest of a number's text. -/
def splitSign : List Char → Bool × List Char
  | '-' :: cs => (true, cs)
  | '+' :: cs => (false, cs)
  | cs => (false, cs)

/-- An integer in decimal, with an optional sign. -/
def readInt? (cs : List Char) : Option Int :=
  let (negative, digits) := splitSign cs
  (readNat? digits).map fun n => if negative then -(n : Int) else (n : Int)

/-- The 64-bit integer of a value, if there is one. -/
def fitInt64? (n : Int) : Option Int64 :=
  if Int64.minValue.toInt ≤ n ∧ n ≤ Int64.maxValue.toInt then some (Int64.ofInt n) else none

def readInt64? (cs : List Char) : Option Int64 := (readInt? cs).bind fitInt64?

/-- The double nearest to `digits · 10^exponent`. Values past the range of doubles on either side are
settled by their size alone, before any power of ten is taken. -/
def roundToFloat (digits : Nat) (exponent : Int) : Float :=
  let size := (Nat.toDigits 10 digits).length + exponent
  if digits = 0 ∨ size < -330 then 0
  else if size > 310 then 1 / 0
  else if exponent < 0 then Float.ofScientific digits true exponent.natAbs
  else Float.ofScientific digits false exponent.natAbs

/-- The parts of a decimal number: digits before the point, digits after it, the exponent. -/
structure Parts where
  whole : List Char
  fraction : List Char
  exponent : Int

/-- The digits after a point, and what follows them. A text without a point has none. -/
def splitFraction : List Char → List Char × List Char
  | '.' :: cs => cs.span Char.isDigit
  | cs => ([], cs)

/-- The exponent that ends a number; no text is the exponent zero. -/
def readExponent? : List Char → Option Int
  | [] => some 0
  | c :: cs => if c = 'e' ∨ c = 'E' then readInt? cs else none

def readParts? (cs : List Char) : Option Parts :=
  let (whole, rest) := cs.span Char.isDigit
  let (fraction, rest) := splitFraction rest
  if whole.isEmpty && fraction.isEmpty then none
  else (readExponent? rest).map fun exponent => ⟨whole, fraction, exponent⟩

/-- The double nearest to a decimal number with an optional sign, fraction and exponent. -/
def readFloat? (cs : List Char) : Option Float :=
  let (negative, digits) := splitSign cs
  (readParts? digits).map fun parts =>
    let x := roundToFloat (Nat.ofDigitChars 10 (parts.whole ++ parts.fraction) 0)
      (parts.exponent - parts.fraction.length)
    if negative then -x else x

end SqlQuery.Decimal
