import SqlQuery.Filter.Literal

/-!
# Scanning filters

`Cursor.scan` reads the next token, `tokenize` all of them. A scan that fails has still read the
characters that it looked at, and `Scanned.rest` is what was left unread. Every token takes its first
character and then some number of those that follow, so that what is left gets shorter
(`scan_length_lt`), on which the loop over all tokens is founded.
-/

namespace SqlQuery.Filter

open SqlQuery.Text

/-- What starts with a character: a lexeme or a failure, and how many of the characters that follow
were read for it. -/
abbrev Scanning := Except LexError Lexeme × Nat

/-- A number that starts with a digit or a minus sign. -/
def scanNumber (start : Nat) (c : Char) (cs : List Char) : Scanning :=
  let whole := cs.takeWhile Char.isDigit
  let fraction := fractionText (cs.drop whole.length)
  let exponent := exponentText (cs.drop (whole.length + fraction.length))
  let body := whole ++ fraction ++ exponent
  let suffix := suffix? (cs.drop body.length)
  (numberLiteral (c :: body) (!fraction.isEmpty || !exponent.isEmpty) suffix start,
    body.length + if suffix.isSome then 1 else 0)

/-- A quoted literal after its opening quote. -/
def scanQuoted (start : Nat) (tag : QuoteTag) (cs : List Char) : Scanning :=
  match quoted? cs with
  | some (text, n) => (taggedLiteral tag (String.ofList text) start, n)
  | none => (.error (.unterminatedString start), cs.length)

/-- A word, or the quoted literal that it tags. -/
def scanWord (start : Nat) (c : Char) (cs : List Char) : Scanning :=
  let more := cs.takeWhile isWordChar
  let word := String.ofList (c :: more)
  match QuoteTag.ofWord? word, cs.drop more.length with
  | some tag, '\x27' :: later =>
    let (lexeme, n) := scanQuoted start tag later
    (lexeme, more.length + 1 + n)
  | _, _ => (.ok (wordLexeme word), more.length)

/-- What a minus sign starts: a number, negative infinity, or nothing but itself. -/
def scanMinus (start : Nat) (cs : List Char) : Scanning :=
  match cs with
  | 'I' :: 'N' :: 'F' :: rest =>
    if wordGoesOn rest then (.ok (.punctuation .minus), 0)
    else (.ok (plainLiteral (.float (-(1 / 0))) .double), 3)
  | c :: _ => if c.isDigit then scanNumber start '-' cs else (.ok (.punctuation .minus), 0)
  | [] => (.ok (.punctuation .minus), 0)

def scanLexeme (start : Nat) (c : Char) (cs : List Char) : Scanning :=
  if c = '(' then (.ok (.punctuation .parenOpen), 0)
  else if c = ')' then (.ok (.punctuation .parenClose), 0)
  else if c = '/' then (.ok (.punctuation .slash), 0)
  else if c = ',' then (.ok (.punctuation .comma), 0)
  else if c = '-' then scanMinus start cs
  else if c = '\x27' then scanQuoted start .plain cs
  else if c.isDigit then scanNumber start c cs
  else if isWordStart c then scanWord start c cs
  else (.error (.unexpectedCharacter c start), 0)

/-- A place in a text: the byte offset and the characters from there on. -/
structure Cursor where
  position : Nat
  rest : List Char

def Cursor.advance (c : Cursor) (n : Nat) : Cursor := ⟨c.position + byteLength (c.rest.take n), c.rest.drop n⟩

/-- The place after any white space. -/
def Cursor.skipBlanks (c : Cursor) : Cursor := c.advance (c.rest.takeWhile isBlank).length

/-- A token, the end of the text, or a failure; with the place after it. -/
inductive Scan where
  | finished
  | token (t : Token) (after : Cursor)
  | failed (cause : LexError) (after : Cursor)

/-- Reads the next token after any white space. -/
def Cursor.scan (cursor : Cursor) : Scan :=
  let start := cursor.skipBlanks
  match start.rest with
  | [] => .finished
  | c :: cs =>
    match scanLexeme start.position c cs with
    | (.ok lexeme, n) => .token ⟨start.position, (start.advance (n + 1)).position, lexeme⟩ (start.advance (n + 1))
    | (.error cause, n) => .failed cause (start.advance (n + 1))

theorem Cursor.length_rest_advance (c : Cursor) (n : Nat) : (c.advance n).rest.length = c.rest.length - n :=
  List.length_drop

/-- A token takes at least one character. -/
theorem scan_length_lt {cursor after : Cursor} {t : Token} (h : cursor.scan = .token t after) :
    after.rest.length < cursor.rest.length := by
  have hs : cursor.skipBlanks.rest.length ≤ cursor.rest.length := by
    rw [Cursor.skipBlanks, Cursor.length_rest_advance]
    exact Nat.sub_le ..
  simp only [Cursor.scan] at h
  split at h
  · simp at h
  · next c cs hc =>
    split at h
    · simp only [Scan.token.injEq] at h
      rw [hc, List.length_cons] at hs
      rw [← h.2, Cursor.length_rest_advance, hc, List.length_cons]
      omega
    · simp at h

/-! ### All tokens of a text -/

/-- The tokens up to the end or the first failure, the failure, and what was left unread. -/
structure Scanned where
  tokens : List Token
  failure : Option LexError
  rest : List Char

/-- All tokens from a place on. -/
def Cursor.scanAll (cursor : Cursor) : Scanned :=
  match _h : cursor.scan with
  | .finished => ⟨[], none, []⟩
  | .failed cause after => ⟨[], some cause, after.rest⟩
  | .token t after =>
    let later := after.scanAll
    ⟨t :: later.tokens, later.failure, later.rest⟩
termination_by cursor.rest.length
decreasing_by exact scan_length_lt _h

def scanText (text : String) : Scanned := Cursor.scanAll ⟨0, text.toList⟩

def tokenize (text : String) : Except LexError (List Token) :=
  let scanned := scanText text
  match scanned.failure with
  | none => .ok scanned.tokens
  | some cause => .error cause

end SqlQuery.Filter
