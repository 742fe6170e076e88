/-!
# Text as bytes

`encode` writes a text as UTF-8 bytes. `decode` reads bytes that need not be UTF-8: each maximal
run of bytes that starts a character and cannot go on becomes one replacement character.
-/

namespace SqlQuery.Text.Utf8

def encode (s : String) : List UInt8 := s.toList.flatMap String.utf8EncodeChar

/-- What stands for bytes that are no character. -/
def replacement : Char := '�'

/-- Where a reader stands: between characters, or inside one whose next byte must lie between `low`
and `high`, with `more` further bytes after it and the bits of `bits` read. -/
inductive State where
  | ready
  | inside (more : Nat) (low high : UInt8) (bits : Nat)

def first (b : UInt8) : List Char × State :=
  if b < 0x80 then ([Char.ofNat b.toNat], .ready)
  else if b < 0xC2 then ([replacement], .ready)
  else if b < 0xE0 then ([], .inside 0 0x80 0xBF (b.toNat - 0xC0))
  else if b = 0xE0 then ([], .inside 1 0xA0 0xBF 0)
  else if b = 0xED then ([], .inside 1 0x80 0x9F 0xD)
  else if b < 0xF0 then ([], .inside 1 0x80 0xBF (b.toNat - 0xE0))
  else if b = 0xF0 then ([], .inside 2 0x90 0xBF 0)
  else if b < 0xF4 then ([], .inside 2 0x80 0xBF (b.toNat - 0xF0))
  else if b = 0xF4 then ([], .inside 2 0x80 0x8F 4)
  else ([replacement], .ready)

/-- Reads one byte: the characters it completes and the state after it. -/
def State.feed : State → UInt8 → List Char × State
  | .ready, b => first b
  | .inside more low high bits, b =>
    if low ≤ b ∧ b ≤ high then
      let bits := bits * 64 + (b.toNat - 0x80)
      match more with
      | 0 => ([Char.ofNat bits], .ready)
      | n + 1 => ([], .inside n 0x80 0xBF bits)
    else
      let (cs, next) := first b
      (replacement :: cs, next)

/-- The characters of the bytes from a state on. -/
def State.decode : State → List UInt8 → List Char
  | .ready, [] => []
  | .inside .., [] => [replacement]
  | s, b :: bs =>
    let (cs, next) := s.feed b
    cs ++ next.decode bs

/-- The text of bytes, with a replacement character where they are not UTF-8. -/
def decode (bytes : List UInt8) : String := String.ofList (State.ready.decode bytes)

end SqlQuery.Text.Utf8
