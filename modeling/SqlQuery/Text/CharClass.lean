import SqlQuery.Text.Alphabetic
import SqlQuery.Text.Numeric
import SqlQuery.Text.Word

/-!
# Character classes

The classes that the filter grammar, names and dates are written in. All of them are Unicode
properties; only digits of numbers are ASCII, and for those core's `Char.isDigit` is used.
-/

namespace SqlQuery.Text

def isAlphabetic (c : Char) : Bool := alphabeticRanges.contains c.toNat

def isDecimalDigit (c : Char) : Bool := decimalDigitRanges.contains c.toNat

def isAlphanumeric (c : Char) : Bool := isAlphabetic c || numberRanges.contains c.toNat

/-- Characters of a word: letters, marks, decimal digits, connectors and join controls. -/
def isWord (c : Char) : Bool := isAlphabetic c || wordExtraRanges.contains c.toNat

/-- White space: the ASCII controls and space, the next-line control and the Unicode spaces. -/
def blankRanges : Ranges :=
  [(0x9, 0xD), (0x20, 0x20), (0x85, 0x85), (0xA0, 0xA0), (0x1680, 0x1680), (0x2000, 0x200A),
   (0x2028, 0x2029), (0x202F, 0x202F), (0x205F, 0x205F), (0x3000, 0x3000)]

def isBlank (c : Char) : Bool := blankRanges.contains c.toNat

/-- Whether a text is empty or holds white space only. -/
def isBlankText (s : String) : Bool := s.toList.all isBlank

/-- The text with its ASCII capitals in lower case. -/
def lowerCase (s : String) : String := String.ofList (s.toList.map Char.toLower)

/-- The text with its ASCII small letters in upper case. -/
def upperCase (s : String) : String := String.ofList (s.toList.map Char.toUpper)

/-- The number of bytes that characters take in UTF-8. -/
def byteLength (cs : List Char) : Nat := cs.foldr (fun c n => c.utf8Size + n) 0

/-- Texts written one after the other with a separator between each two. -/
def joinWith (separator : String) : List String → String
  | [] => ""
  | [s] => s
  | s :: t :: rest => s ++ separator ++ joinWith separator (t :: rest)

/-- The pieces between the occurrences of a character; a text without it is one piece. -/
def splitOn (separator : Char) : List Char → List (List Char)
  | [] => [[]]
  | c :: cs =>
    if c = separator then [] :: splitOn separator cs
    else match splitOn separator cs with
      | [] => [[c]]
      | piece :: pieces => (c :: piece) :: pieces

end SqlQuery.Text
