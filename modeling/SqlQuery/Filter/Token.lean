import SqlQuery.Decimal.Layout
import SqlQuery.Value.Encoding

/-!
# Tokens of filters

A filter is made of literals, words and punctuation. Operators are words like members and methods;
the grammar tells them apart. Positions are byte offsets.
-/

namespace SqlQuery.Filter

/-- The type that a literal is written in. -/
inductive LiteralKind where
  | null | string | boolean | single | double | decimal | int | long | binary | dateTime | guid | duration
  deriving DecidableEq, Repr

/-- The word in front of a quoted literal. -/
inductive QuoteTag where
  | plain | binary | dateTime | guid | time | dateTimeOffset
  deriving DecidableEq, Repr

/-- The name of a literal's type in messages. -/
def LiteralKind.name : LiteralKind → String
  | .null => "Null"
  | .string => "String"
  | .boolean => "Boolean"
  | .single => "Single"
  | .double => "Double"
  | .decimal => "Decimal"
  | .int => "Int"
  | .long => "Long"
  | .binary => "Binary"
  | .dateTime => "DateTime"
  | .guid => "Guid"
  | .duration => "Duration"

/-- The words that tag a quoted literal, in lower case. -/
def QuoteTag.words : List (String × QuoteTag) :=
  [("binary", .binary), ("x", .binary), ("datetime", .dateTime), ("guid", .guid), ("time", .time),
   ("duration", .time), ("datetimeoffset", .dateTimeOffset)]

/-- The tag of a word, in any case. -/
def QuoteTag.ofWord? (word : String) : Option QuoteTag := words.lookup (Text.lowerCase word)

/-- The characters that stand for themselves. -/
inductive Punctuation where
  | parenOpen | parenClose | slash | comma | minus
  deriving DecidableEq, Repr

def Punctuation.char : Punctuation → Char
  | .parenOpen => '('
  | .parenClose => ')'
  | .slash => '/'
  | .comma => ','
  | .minus => '-'

inductive Lexeme where
  | literal (value : Value) (kind : LiteralKind) (tag : QuoteTag)
  | word (name : String)
  | punctuation (p : Punctuation)

/-- A lexeme with the byte offsets where it starts and where it ends. -/
structure Token where
  start : Nat
  stop : Nat
  lexeme : Lexeme

def Lexeme.describe : Lexeme → String
  | .literal value kind _ => kind.name ++ " literal " ++ value.text
  | .word name => "identifier '" ++ name ++ "'"
  | .punctuation p => "'" ++ String.ofList [p.char] ++ "'"

/-- Why a text has no tokens. -/
inductive LexError where
  | unterminatedString (start : Nat)
  | unexpectedCharacter (c : Char) (position : Nat)
  | invalidLiteral (kind : LiteralKind) (text : String) (position : Nat)

def LexError.message : LexError → String
  | .unterminatedString start => "Unterminated string literal starting at " ++ Decimal.natText start
  | .unexpectedCharacter c position =>
    "Unexpected character '" ++ String.ofList [c] ++ "' at " ++ Decimal.natText position
  | .invalidLiteral kind text position =>
    "Invalid " ++ kind.name ++ " literal '" ++ text ++ "' at " ++ Decimal.natText position

end SqlQuery.Filter
