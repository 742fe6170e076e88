import SqlQuery.Calendar.Reader
import SqlQuery.Filter.Token

/-!
# Literals of filters

The text of numbers, of quoted literals and of the literals with a tag. Each reader of a beginning gives
the characters it takes or their number, so that what follows is what `List.drop` leaves.
-/

namespace SqlQuery.Filter

open SqlQuery.Text

/-- Letters, the underscore and the dollar sign start a word. -/
def isWordStart (c : Char) : Bool := isAlphabetic c || c = '_' || c = '$'

def isWordChar (c : Char) : Bool := isWordStart c || c.isDigit

/-- Whether a word goes on in what follows it. -/
def wordGoesOn : List Char → Bool
  | [] => false
  | c :: _ => isWordChar c

/-! ### Quoted text -/

/-- The character that a letter stands for after a backslash. -/
def unescape? (c : Char) : Option Char :=
  if c = 'n' then some '\n'
  else if c = 'r' then some '\r'
  else if c = 't' then some '\t'
  else if c = 'b' then some '\x08'
  else if c = '0' then some '\x00'
  else if c = 'Z' then some '\x1a'
  else if c = '\\' ∨ c = '\x27' ∨ c = '"' then some c
  else none

/-- The text up to the closing quote, and how many characters were read, with that quote. A quote is
written twice or after a backslash; a backslash before any other character than those of `unescape?`
is itself. -/
def quoted? : List Char → Option (List Char × Nat)
  | [] => none
  | '\x27' :: '\x27' :: cs => (quoted? cs).map fun (text, n) => ('\x27' :: text, n + 2)
  | '\x27' :: _ => some ([], 1)
  | ['\\'] => none
  | '\\' :: c :: cs =>
    match unescape? c with
    | some e => (quoted? cs).map fun (text, n) => (e :: text, n + 2)
    | none => (quoted? (c :: cs)).map fun (text, n) => ('\\' :: text, n + 1)
  | c :: cs => (quoted? cs).map fun (text, n) => (c :: text, n + 1)

/-! ### Numbers -/

/-- The point and the digits after it that continue a number. -/
def fractionText : List Char → List Char
  | '.' :: d :: cs => if d.isDigit then '.' :: d :: cs.takeWhile Char.isDigit else []
  | _ => []

def exponentSign : List Char → List Char
  | '+' :: _ => ['+']
  | '-' :: _ => ['-']
  | _ => []

def exponentText : List Char → List Char
  | e :: cs =>
    let sign := exponentSign cs
    let digits := (cs.drop sign.length).takeWhile Char.isDigit
    if (e = 'e' ∨ e = 'E') ∧ digits ≠ [] then e :: (sign ++ digits) else []
  | [] => []

/-- The letters that end a number and say its type. -/
inductive Suffix where
  | long | decimal | single | double
  deriving DecidableEq, Repr

/-- The suffix of a letter, in any case. -/
def Suffix.ofChar? (c : Char) : Option Suffix :=
  if c = 'L' ∨ c = 'l' then some .long
  else if c = 'M' ∨ c = 'm' then some .decimal
  else if c = 'F' ∨ c = 'f' then some .single
  else if c = 'D' ∨ c = 'd' then some .double
  else none

/-- The suffix that follows a number, unless it starts a longer word. -/
def suffix? : List Char → Option Suffix
  | [] => none
  | c :: cs => if wordGoesOn cs then none else Suffix.ofChar? c

/-- Whether an integer fits in 32 bits. -/
def fitsInt32 (n : Int64) : Bool := Int32.minValue.toInt ≤ n.toInt && n.toInt ≤ Int32.maxValue.toInt

def plainLiteral (value : Value) (kind : LiteralKind) : Lexeme := .literal value kind .plain

def floatLiteral (text : List Char) (kind : LiteralKind) (position : Nat) : Except LexError Lexeme :=
  match Decimal.readFloat? text with
  | some x => .ok (plainLiteral (.float x) kind)
  | none => .error (.invalidLiteral kind (String.ofList text) position)

/-- The integer literal of a text; its type depends on the value. -/
def intLiteral (text : List Char) (kind : Int64 → LiteralKind) (position : Nat) : Except LexError Lexeme :=
  match Decimal.readInt64? text with
  | some n => .ok (plainLiteral (.int n) (kind n))
  | none => .error (.invalidLiteral .long (String.ofList text) position)

/-- The literal of a number. Without a suffix it is a double if it has a fraction or an exponent, and
otherwise an integer of the smallest type that it fits in. -/
def numberLiteral (text : List Char) (isFloat : Bool) (suffix : Option Suffix) (position : Nat) :
    Except LexError Lexeme :=
  match suffix with
  | some .long => intLiteral text (fun _ => .long) position
  | some .decimal => floatLiteral text .decimal position
  | some .single => floatLiteral text .single position
  | some .double => floatLiteral text .double position
  | none =>
    if isFloat then floatLiteral text .double position
    else intLiteral text (fun n => if fitsInt32 n then .int else .long) position

/-! ### Literals with a tag -/

def isHexDigit (c : Char) : Bool := c.isDigit || ('a' ≤ c && c ≤ 'f') || ('A' ≤ c && c ≤ 'F')

/-- Groups of 8, 4, 4, 4 and 12 hexadecimal digits. -/
def isGuid (text : List Char) : Bool :=
  let groups := splitOn '-' text
  groups.map List.length = [8, 4, 4, 4, 12] && groups.all fun group => group.all isHexDigit

/-- Pairs of hexadecimal digits. -/
def isHexPairs (text : List Char) : Bool := text.length % 2 = 0 && text.all isHexDigit

/-- What follows digits with a letter after them, if the text starts so, and else the text itself. -/
def dropAmount (letter : Char) (text : List Char) : List Char :=
  match text.takeWhile isDecimalDigit, text.dropWhile isDecimalDigit with
  | _ :: _, c :: rest => if c = letter then rest else text
  | _, _ => text

/-- What follows an amount of seconds, which may have a fraction. -/
def dropSeconds (text : List Char) : List Char :=
  match text.takeWhile isDecimalDigit, text.dropWhile isDecimalDigit with
  | _ :: _, 'S' :: rest => rest
  | _ :: _, '.' :: fraction =>
    match fraction.takeWhile isDecimalDigit, fraction.dropWhile isDecimalDigit with
    | _ :: _, 'S' :: rest => rest
    | _, _ => text
  | _, _ => text

/-- What follows the times of a duration. -/
def dropTimes : List Char → List Char
  | 'T' :: text => dropSeconds (dropAmount 'M' (dropAmount 'H' text))
  | text => text

/-- A duration without its sign. -/
def isUnsignedDuration : List Char → Bool
  | 'P' :: text => dropTimes (dropAmount 'D' text) = []
  | _ => false

/-- A duration: a sign, `P`, days, `T`, hours, minutes and seconds, each of them optional, but not
ending in `P` or `T`. -/
def isDuration (text : List Char) : Bool :=
  (match text with
    | '-' :: rest => isUnsignedDuration rest
    | _ => isUnsignedDuration text) && text.getLast? ≠ some 'P' && text.getLast? ≠ some 'T'

def QuoteTag.kind : QuoteTag → LiteralKind
  | .plain => .string
  | .binary => .binary
  | .dateTime => .dateTime
  | .guid => .guid
  | .time => .duration
  | .dateTimeOffset => .dateTime

/-- The value of a literal with a tag. -/
def QuoteTag.value? (tag : QuoteTag) (text : String) : Option Value :=
  match tag with
  | .plain => some (.string text)
  | .guid => if isGuid text.toList then some (.string text) else none
  | .binary => if isHexPairs text.toList then some (.string (upperCase text)) else none
  | .dateTime => (Calendar.Timestamp.read? text).map Value.date
  | .dateTimeOffset => (Calendar.Timestamp.readOffset? text).map Value.date
  | .time => if isDuration text.toList then some (.string text) else none

/-- The literal of a tag and a text. -/
def taggedLiteral (tag : QuoteTag) (text : String) (position : Nat) : Except LexError Lexeme :=
  match tag.value? text with
  | some value => .ok (.literal value tag.kind tag)
  | none => .error (.invalidLiteral tag.kind text position)

/-- A word that is no tag: one of the literals that are words, or a name. -/
def wordLexeme (word : String) : Lexeme :=
  let lower := lowerCase word
  if lower = "null" then plainLiteral .null .null
  else if lower = "true" then plainLiteral (.bool true) .boolean
  else if lower = "false" then plainLiteral (.bool false) .boolean
  else if word = "INF" then plainLiteral (.float (1 / 0)) .double
  else if word = "NaN" then plainLiteral (.float (0 / 0)) .double
  else .word word

end SqlQuery.Filter
