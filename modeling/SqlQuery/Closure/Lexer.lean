import SqlQuery.Closure.Token

/-!
# Scanning closures

Bytes from 0x80 on belong to words, so that every letter outside of ASCII can be part of a name. A
backslash in a string takes the next byte along, whatever it is.
-/

namespace SqlQuery.Closure

/-- A byte as the ASCII character that it is; bytes from 0x80 on are no ASCII character. -/
def asChar (b : UInt8) : Char := Char.ofNat b.toNat

def isBlank (b : UInt8) : Bool := b = 0x20 || b = 0x09 || b = 0x0A || b = 0x0C || b = 0x0D

def isDigit (b : UInt8) : Bool := 0x30 ≤ b && b ≤ 0x39

/-- Letters, the underscore and all bytes outside of ASCII start a word. -/
def isWordStart (b : UInt8) : Bool := (asChar b).isAlpha || b = 0x5F || 0x80 ≤ b

def isWordByte (b : UInt8) : Bool := isWordStart b || isDigit b

/-- The bytes of a number: digits, and underscores between them. -/
def isNumberByte (b : UInt8) : Bool := isDigit b || b = 0x5F

/-- One if the next byte is the given character, and else zero. -/
def follows (c : Char) (rest : List UInt8) : Nat :=
  match rest with
  | b :: _ => if asChar b = c then 1 else 0
  | [] => 0

/-- The number of bytes up to and with the closing quote of a string. -/
def stringLength? (quote : UInt8) : List UInt8 → Option Nat
  | [] => none
  | [b] => if b = quote then some 1 else none
  | b :: c :: rest =>
    if b = 0x5C then (stringLength? quote rest).map (· + 2)
    else if b = quote then some 1
    else (stringLength? quote (c :: rest)).map (· + 1)

/-- The number of bytes after a number's first digit. A point belongs to it only if a digit follows. -/
def numberLength (rest : List UInt8) : Nat :=
  let whole := (rest.takeWhile isNumberByte).length
  match rest.drop whole with
  | point :: d :: later =>
    if asChar point = '.' ∧ isDigit d then whole + 1 + ((d :: later).takeWhile isNumberByte).length
    else whole
  | _ => whole

/-- What a first byte starts: a token that takes some more bytes, or none. -/
inductive Lexed where
  | token (kind : TokenKind) (more : Nat)
  | unterminated
  | unexpected

/-- A token of one or two characters. -/
def oneOrTwo (second : Char) (rest : List UInt8) (two one : TokenKind) : Lexed :=
  if follows second rest = 1 then .token two 1 else .token one 0

def singles : List (Char × TokenKind) :=
  [('(', .parenLeft), (')', .parenRight), ('\x7b', .braceLeft), ('\x7d', .braceRight),
   ('[', .bracketLeft), (']', .bracketRight), (',', .comma), (';', .semicolon), ('.', .dot),
   ('+', .plus), ('-', .minus), ('*', .asterisk), ('/', .slash), ('%', .percent)]

/-- What a byte and those that follow it start. -/
def lexeme (b : UInt8) (rest : List UInt8) : Lexed :=
  match singles.lookup (asChar b) with
  | some kind => .token kind 0
  | none =>
    if isDigit b then .token .number (numberLength rest)
    else if isWordStart b then .token .word (rest.takeWhile isWordByte).length
    else if asChar b = ':' then oneOrTwo ':' rest .doubleColon .colon
    else if asChar b = '<' then oneOrTwo '=' rest .lessEqual .less
    else if asChar b = '>' then oneOrTwo '=' rest .greaterEqual .greater
    else if asChar b = '|' then oneOrTwo '|' rest .orOr .pipe
    else if asChar b = '&' then oneOrTwo '&' rest .andAnd .ampersand
    else if asChar b = '=' then
      if follows '>' rest = 1 then .token .arrow 1
      else if follows '=' rest = 1 then .token .equal (1 + follows '=' (rest.drop 1))
      else .unexpected
    else if asChar b = '!' then
      if follows '=' rest = 1 then .token .notEqual (1 + follows '=' (rest.drop 1))
      else .token .bang 0
    else if asChar b = '"' ∨ asChar b = '\x27' then
      match stringLength? b rest with
      | some n => .token (if asChar b = '"' then .doubleQuoted else .singleQuoted) n
      | none => .unterminated
    else .unexpected

/-- The tokens up to the end or the first failure, the failure, and whether nothing is left unread. -/
structure Scanned where
  tokens : List Token
  failure : Option LexError
  finished : Bool

def scanFrom (position : Nat) (bytes : List UInt8) : Scanned :=
  let start := position + (bytes.takeWhile isBlank).length
  match _h : bytes.dropWhile isBlank with
  | [] => ⟨[], none, true⟩
  | b :: rest =>
    match lexeme b rest with
    | .unterminated => ⟨[], some (.unterminatedString start), true⟩
    | .unexpected => ⟨[], some (.unexpectedCharacter start), rest.isEmpty⟩
    | .token kind more =>
      let t : Token := ⟨kind, start, start + 1 + more, b :: rest.take more⟩
      let later := scanFrom t.stop (rest.drop more)
      ⟨t :: later.tokens, later.failure, later.finished⟩
termination_by bytes.length
decreasing_by
  have := (List.dropWhile_suffix (l := bytes) isBlank).length_le
  rw [_h, List.length_cons] at this
  simp only [List.length_drop]
  omega

def scan (bytes : List UInt8) : Scanned := scanFrom 0 bytes

end SqlQuery.Closure
