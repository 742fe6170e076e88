import SqlQuery.Closure.Lexer
import SqlQuery.Entries
import SqlQuery.Expr.Basic
import SqlQuery.Outcome

/-!
# Reading the tokens of closures

A closure is read while it is scanned: bytes without tokens are a fault only once reading gets
there. A stream therefore holds the tokens before the fault, and the fault itself.

A `Reader` takes at least one token, so that lists of what it reads are founded on the tokens left.
-/

namespace SqlQuery.Closure

/-- Why a closure is no expression. -/
inductive ClosureError where
  | lexical (cause : LexError)
  | expected (what found : String) (position : Nat)
  | unexpectedEnd
  | unsupported (description : String)
  | unknownName (name : String)
  | invalidNumber (text : String)
  | nestingTooDeep (position : Nat)

def ClosureError.message : ClosureError → String
  | .lexical cause => "Lexical error: " ++ cause.message
  | .expected what found position =>
    "Expected " ++ what ++ " at " ++ Decimal.natText position ++ ", found '" ++ found ++ "'"
  | .unexpectedEnd => "Unexpected end of closure body"
  | .unsupported description => "Unsupported expression '" ++ description ++ "'"
  | .unknownName name => "Unknown identifier '" ++ name ++ "'"
  | .invalidNumber text => "Invalid number literal '" ++ text ++ "'"
  | .nestingTooDeep position =>
    "Closure body nested deeper than " ++ Decimal.natText Expr.maxHeight ++ " levels at " ++
      Decimal.natText position

/-- Something else was expected in the place of a token. -/
def expected (what : String) (t : Token) : ClosureError := .expected what t.text t.start

/-- The tokens left, the end of the last one read, and the fault that ends them, if there is one. -/
structure Stream where
  position : Nat
  rest : List Token
  failure : Option LexError

namespace Stream

def ofText (text : String) : Stream :=
  let scanned := scan (Text.Utf8.encode text)
  ⟨0, scanned.tokens, scanned.failure⟩

def after (s : Stream) (t : Token) (rest : List Token) : Stream := ⟨t.stop, rest, s.failure⟩

def peek (s : Stream) : Except ClosureError (Option Token) :=
  match s.rest, s.failure with
  | t :: _, _ => .ok (some t)
  | [], none => .ok none
  | [], some cause => .error (.lexical cause)

/-- Whether the next token is of some kind. -/
def startsWith (kind : TokenKind) (s : Stream) : Except ClosureError Bool := do
  let t? ← s.peek
  return t?.any fun t => t.kind = kind

def next (s : Stream) : Except ClosureError (Token × Stream) :=
  match s.rest, s.failure with
  | t :: rest, _ => .ok (t, s.after t rest)
  | [], none => .error .unexpectedEnd
  | [], some cause => .error (.lexical cause)

def expect (kind : TokenKind) (what : String) (s : Stream) : Except ClosureError (Token × Stream) := do
  let (t, s) ← s.next
  if t.kind = kind then return (t, s) else .error (expected what t)

def accept (kind : TokenKind) (s : Stream) : Except ClosureError (Option Stream) :=
  match s.rest, s.failure with
  | t :: rest, _ => .ok (if t.kind = kind then some (s.after t rest) else none)
  | [], none => .ok none
  | [], some cause => .error (.lexical cause)

theorem next_shorter {s after : Stream} {t : Token} (h : s.next = .ok (t, after)) :
    after.rest.length < s.rest.length := by
  unfold next at h
  split at h
  · next u rest hs =>
    simp only [Except.ok.injEq, Prod.mk.injEq] at h
    rw [← h.2, ‹s.rest = _›]
    simp [Stream.after]
  · simp at h
  · simp at h

theorem expect_shorter {kind : TokenKind} {what : String} {s after : Stream} {t : Token}
    (h : s.expect kind what = .ok (t, after)) : after.rest.length < s.rest.length := by
  obtain ⟨⟨u, s₁⟩, hu, h⟩ := bind_eq_ok.1 h
  simp only at h
  split at h
  · have := pure_eq_ok.1 h
    simp only [Prod.mk.injEq] at this
    exact this.2 ▸ next_shorter hu
  · simp at h

theorem accept_shorter {kind : TokenKind} {s after : Stream} (h : s.accept kind = .ok (some after)) :
    after.rest.length < s.rest.length := by
  unfold accept at h
  split at h
  · next t rest hs =>
    simp only [Except.ok.injEq] at h
    split at h
    · rw [← Option.some.inj h, ‹s.rest = _›]
      simp [Stream.after]
    · simp at h
  · simp at h
  · simp at h

end Stream

/-- A reader that takes at least one token. -/
structure Reader (α : Type) where
  run : Stream → Except ClosureError (α × Stream)
  shorter : ∀ {s after : Stream} {a : α}, run s = .ok (a, after) → after.rest.length < s.rest.length

/-- The items of a list up to its closing token. One of the separators stands between two items, and may
stand after the last. -/
def items {α : Type} (item : Reader α) (close : TokenKind) (separators : List TokenKind) (what : String)
    (s : Stream) : Except ClosureError (List α × Stream) :=
  match s.accept close with
  | .error cause => .error cause
  | .ok (some after) => .ok ([], after)
  | .ok none =>
    match _ha : item.run s with
    | .error cause => .error cause
    | .ok (a, s₁) =>
      match _ht : s₁.next with
      | .error cause => .error cause
      | .ok (t, s₂) =>
        if t.kind = close then .ok ([a], s₂)
        else if t.kind ∈ separators then
          match items item close separators what s₂ with
          | .error cause => .error cause
          | .ok (as, after) => .ok (a :: as, after)
        else .error (expected what t)
termination_by s.rest.length
decreasing_by exact Nat.lt_trans (Stream.next_shorter _ht) (item.shorter _ha)

theorem items_shorter {α : Type} {item : Reader α} {close : TokenKind} {separators : List TokenKind}
    {what : String} {s after : Stream} {as : List α}
    (h : items item close separators what s = .ok (as, after)) : after.rest.length < s.rest.length := by
  fun_induction items item close separators what s generalizing as after with
  | case1 => simp at h
  | case2 s _ hs =>
    simp only [Except.ok.injEq, Prod.mk.injEq] at h
    exact h.2 ▸ Stream.accept_shorter hs
  | case3 => simp at h
  | case4 => simp at h
  | case5 s _ a s₁ ha t s₂ ht _ =>
    simp only [Except.ok.injEq, Prod.mk.injEq] at h
    exact h.2 ▸ Nat.lt_trans (Stream.next_shorter ht) (item.shorter ha)
  | case6 => simp at h
  | case7 s _ a s₁ ha t s₂ ht _ _ more rest hi ih =>
    simp only [Except.ok.injEq, Prod.mk.injEq] at h
    have := h.2 ▸ ih hi
    have := Stream.next_shorter ht
    have := item.shorter ha
    omega
  | case8 => simp at h

end SqlQuery.Closure
