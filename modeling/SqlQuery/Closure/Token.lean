import SqlQuery.Decimal.Layout
import SqlQuery.Text.Utf8

/-!
# Tokens of closures

Closures are read as bytes. A token keeps the bytes it was read from; the text of a string token is
what they say between the quotes.
-/

namespace SqlQuery.Closure

inductive TokenKind where
  | parenLeft | parenRight | braceLeft | braceRight | bracketLeft | bracketRight
  | comma | semicolon | colon | doubleColon | dot | arrow | pipe | orOr | ampersand | andAnd
  | bang | plus | minus | asterisk | slash | percent
  | equal | notEqual | less | greater | lessEqual | greaterEqual
  | number | word | doubleQuoted | singleQuoted
  deriving DecidableEq, Repr

/-- A token with the byte offsets where it starts and ends, and its bytes. -/
structure Token where
  kind : TokenKind
  start : Nat
  stop : Nat
  bytes : List UInt8

/-- Why bytes have no tokens. -/
inductive LexError where
  | unterminatedString (start : Nat)
  | unexpectedCharacter (position : Nat)

def LexError.message : LexError → String
  | .unterminatedString start => "Unterminated string literal starting at " ++ Decimal.natText start
  | .unexpectedCharacter position => "Unexpected character at " ++ Decimal.natText position

namespace Token

def text (t : Token) : String := Text.Utf8.decode t.bytes

def isString (t : Token) : Bool := t.kind = .doubleQuoted || t.kind = .singleQuoted

/-- The bytes of a token, those of a string without its quotes. -/
def contents (t : Token) : List UInt8 := if t.isString then (t.bytes.drop 1).dropLast else t.bytes

/-- The character that a letter stands for after a backslash; any other stands for itself. -/
def unescapeChar (c : Char) : Char :=
  if c = 'n' then '\n' else if c = 't' then '\t' else if c = 'r' then '\r' else if c = '0' then '\x00' else c

def unescape : List Char → List Char
  | [] => []
  | ['\\'] => ['\\']
  | '\\' :: c :: cs => unescapeChar c :: unescape cs
  | c :: cs => c :: unescape cs

/-- The text that a token says: its contents with their escapes resolved. -/
def value (t : Token) : String := String.ofList (unescape (Text.Utf8.decode t.contents).toList)

end Token

end SqlQuery.Closure
