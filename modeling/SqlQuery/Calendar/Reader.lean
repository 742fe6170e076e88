import SqlQuery.Calendar.Timestamp
import SqlQuery.Text.CharClass

/-!
# Reading moments

`Timestamp.read?` reads a local moment in one of the accepted layouts: a date, alone or followed by
`T` or blanks and a time with or without seconds. A layout is a text in which a percent sign and what
follows it mark an item; its items are read in their order, into the parts of a moment.
`Timestamp.readOffset?` reads a moment with an offset from universal time in the one layout of the
internet date format, and gives it in universal time.
-/

namespace SqlQuery.Calendar

open SqlQuery.Text

/-- The number that the first digits denote, of which at most `width` are taken. -/
def number (width : Nat) (cs : List Char) : Option (Nat × List Char) :=
  let digits := (cs.take width).takeWhile Char.isDigit
  if digits.isEmpty then none else some (Nat.ofDigitChars 10 digits 0, cs.drop digits.length)

def fixedNumber (width : Nat) (cs : List Char) : Option (Nat × List Char) :=
  let digits := cs.take width
  if digits.length = width ∧ digits.all Char.isDigit then
    some (Nat.ofDigitChars 10 digits 0, cs.drop width)
  else none

/-- What follows a given character. -/
def expect (c : Char) : List Char → Option (List Char)
  | [] => none
  | d :: cs => if d = c then some cs else none

/-- A number of one or two digits, after any blanks. -/
def twoDigits (cs : List Char) : Option (Nat × List Char) := number 2 (cs.dropWhile isBlank)

/-- A year after any blanks: up to four digits, or a sign and any number of them. -/
def year (cs : List Char) : Option (Int × List Char) :=
  match cs.dropWhile isBlank with
  | '-' :: cs => (number cs.length cs).map fun (n, rest) => (-(n : Int), rest)
  | '+' :: cs => (number cs.length cs).map fun (n, rest) => ((n : Int), rest)
  | cs => (number 4 cs).map fun (n, rest) => ((n : Int), rest)

/-- The nanoseconds of a fraction of a second, whose digits past the ninth are dropped. -/
def fraction (cs : List Char) : Option (Nat × List Char) :=
  let digits := cs.takeWhile Char.isDigit
  if digits.isEmpty then none
  else
    let nano := digits.take 9 ++ List.replicate (9 - digits.length) '0'
    some (Nat.ofDigitChars 10 nano 0, cs.dropWhile Char.isDigit)

/-- A fraction after a point; without a point there is none. -/
def optionalFraction : List Char → Option (Option Nat × List Char)
  | '.' :: cs => (fraction cs).map fun (nano, rest) => (some nano, rest)
  | cs => some (none, cs)

/-! ### Parts of a moment -/

/-- What has been read of a moment, before it is known to be one. -/
structure Parts where
  year : Option Int := none
  month : Option Nat := none
  day : Option Nat := none
  hour : Option Nat := none
  minute : Option Nat := none
  second : Option Nat := none
  nano : Option Nat := none

namespace Parts

/-- The second and the nanoseconds since it began. Second 60 is a leap second after second 59; a
fraction needs a second. -/
def seconds? (p : Parts) : Option (Nat × Nat) :=
  match p.second, p.nano with
  | none, none => some (0, 0)
  | none, some _ => none
  | some second, nano =>
    if second = 60 then some (59, 1000000000 + nano.getD 0) else some (second, nano.getD 0)

def moment? (p : Parts) : Option Timestamp := do
  let (second, subsecond) ← p.seconds?
  Timestamp.of? (← p.year) (← p.month) (← p.day) (← p.hour) (← p.minute) second subsecond

/-- The start of the day. -/
def midnight? (p : Parts) : Option Timestamp := do
  Timestamp.of? (← p.year) (← p.month) (← p.day) 0 0 0 0

end Parts

/-! ### Layouts -/

/-- What a layout has in one place. -/
inductive Item where
  | year
  | month
  | day
  | hour
  | minute
  | second
  /-- A point and a fraction of the second, or nothing. -/
  | fraction
  /-- Any number of blanks, also none. -/
  | blanks
  | literal (c : Char)
  /-- A percent sign with something that it does not mark. -/
  | unknown

namespace Item

/-- The items of a layout. -/
def ofLayout : List Char → List Item
  | [] => []
  | '%' :: 'Y' :: cs => .year :: ofLayout cs
  | '%' :: 'm' :: cs => .month :: ofLayout cs
  | '%' :: 'd' :: cs => .day :: ofLayout cs
  | '%' :: 'H' :: cs => .hour :: ofLayout cs
  | '%' :: 'M' :: cs => .minute :: ofLayout cs
  | '%' :: 'S' :: cs => .second :: ofLayout cs
  | '%' :: '.' :: 'f' :: cs => .fraction :: ofLayout cs
  | '%' :: _ => [.unknown]
  | c :: cs => (if isBlank c then .blanks else .literal c) :: ofLayout cs

/-- Adds what an item stands for to the parts. -/
def read (p : Parts) (cs : List Char) : Item → Option (Parts × List Char)
  | .year => (Calendar.year cs).map fun (n, rest) => ({ p with year := some n }, rest)
  | .month => (twoDigits cs).map fun (n, rest) => ({ p with month := some n }, rest)
  | .day => (twoDigits cs).map fun (n, rest) => ({ p with day := some n }, rest)
  | .hour => (twoDigits cs).map fun (n, rest) => ({ p with hour := some n }, rest)
  | .minute => (twoDigits cs).map fun (n, rest) => ({ p with minute := some n }, rest)
  | .second => (twoDigits cs).map fun (n, rest) => ({ p with second := some n }, rest)
  | .fraction => (optionalFraction cs).map fun (nano, rest) => ({ p with nano }, rest)
  | .blanks => some (p, cs.dropWhile isBlank)
  | .literal c => (expect c cs).map fun rest => (p, rest)
  | .unknown => none

end Item

/-- Reads items one after the other, which leave nothing unread. -/
def readItems : List Item → Parts → List Char → Option Parts
  | [], p, [] => some p
  | [], _, _ :: _ => none
  | item :: items, p, cs => do
    let (p, cs) ← item.read p cs
    readItems items p cs

def readLayout (layout text : String) : Option Parts := readItems (Item.ofLayout layout.toList) {} text.toList

/-- The layouts of a date with a time, in the order in which they are tried. -/
def momentLayouts : List String :=
  ["%Y-%m-%dT%H:%M:%S%.f",
   "%Y-%m-%dT%H:%M:%S",
   "%Y-%m-%dT%H:%M",
   "%Y-%m-%d %H:%M:%S%.f",
   "%Y-%m-%d %H:%M:%S",
   "%Y-%m-%d %H:%M"]

/-- A local moment; a date alone means its midnight. -/
def Timestamp.read? (text : String) : Option Timestamp :=
  (momentLayouts.findSome? fun layout => (readLayout layout text).bind Parts.moment?).or
    ((readLayout "%Y-%m-%d" text).bind Parts.midnight?)

/-! ### Moments with an offset -/

/-- The result of a reader that leaves nothing unread. -/
def complete {α : Type} : α × List Char → Option α
  | (a, []) => some a
  | (_, _ :: _) => none

/-- An offset from universal time in minutes, less than a day either way. -/
def offset : List Char → Option (Int × List Char)
  | [] => none
  | c :: cs => do
    if c = 'Z' ∨ c = 'z' then return (0, cs)
    let negative ← if c = '+' then some false else if c = '-' ∨ c = '−' then some true else none
    let (hours, cs) ← fixedNumber 2 cs
    let cs ← expect ':' cs
    let (minutes, cs) ← fixedNumber 2 cs
    let total := hours * 60 + minutes
    if minutes < 60 ∧ total < 1440 then return (if negative then -(total : Int) else total, cs) else none

/-- A moment with an offset, given in universal time. -/
def Timestamp.readOffset? (text : String) : Option Timestamp := do
  let (y, cs) ← fixedNumber 4 text.toList
  let cs ← expect '-' cs
  let (month, cs) ← fixedNumber 2 cs
  let cs ← expect '-' cs
  let (day, cs) ← fixedNumber 2 cs
  let cs ← match cs with
    | [] => none
    | c :: cs => if c = 'T' ∨ c = 't' ∨ c = ' ' then some cs else none
  let (hour, cs) ← fixedNumber 2 cs
  let cs ← expect ':' cs
  let (minute, cs) ← fixedNumber 2 cs
  let cs ← expect ':' cs
  let (second, cs) ← fixedNumber 2 cs
  let (nano, cs) ← optionalFraction cs
  let minutes ← complete (← offset cs)
  let parts : Parts :=
    { year := some y, month := some month, day := some day,
      hour := some hour, minute := some minute, second := some second, nano }
  (← parts.moment?).subtractMinutes? minutes

end SqlQuery.Calendar
