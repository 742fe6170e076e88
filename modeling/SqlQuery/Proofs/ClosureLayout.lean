import SqlQuery.Proofs.ClosureLexemes

/-!
# Blanks between the tokens of closures

`Laid` puts tokens one after the other with any blanks before, between and after them. Without blanks a token has to
keep apart from the next one (`MayFollow`); then the text is scanned into the tokens, whatever the blanks are
(`ofText_laid`).
-/

namespace SqlQuery.Closure

/-- A token, by its kind and its characters. -/
abbrev Lexeme := TokenKind × List Char

/-- The tokens, with their bytes. -/
def inBytes (lexemes : List Lexeme) : List (TokenKind × List UInt8) := lexemes.map fun l => (l.1, bytes l.2)

/-! ### Texts with blanks -/

/-- The white space of ASCII. -/
def blanks : List Char := [' ', '\t', '\n', '\x0c', '\r']

/-- The text is that of the tokens, with blanks around them. -/
inductive Laid : List Lexeme → List Char → Prop where
  | blank (gap : List Char) (h : gap.all blanks.contains = true) : Laid [] gap
  | token (gap : List Char) (h : gap.all blanks.contains = true) (l : Lexeme) {later : List Lexeme} {text : List Char}
    (ht : Laid later text) : Laid (l :: later) (gap ++ (l.2 ++ text))

theorem byte_of_blank {c : Char} (h : blanks.contains c = true) : bytes [c] = [byte c] ∧ isBlank (byte c) = true := by
  have hall : blanks.all (fun c => bytes [c] = [byte c] && isBlank (byte c)) = true := by decide +kernel
  simpa using List.all_eq_true.1 hall c (List.contains_iff_mem.1 h)

theorem scans_gap {gap : List Char} (h : gap.all blanks.contains = true) (rest : List UInt8) :
    Scans (bytes gap) [] rest := by
  induction gap with
  | nil => exact scans_nil rest
  | cons c gap ih =>
    rw [List.all_cons, Bool.and_eq_true] at h
    obtain ⟨hc, hgap⟩ := h
    obtain ⟨hbytes, hblank⟩ := byte_of_blank hc
    rw [← List.singleton_append, bytes_append, hbytes]
    exact (scans_isBlank hblank _).append (ih hgap)

/-! ### Tokens beside each other -/

/-- What can stand right after a token: no part of a word or of a number, and no second colon. -/
def MayFollow : TokenKind → List UInt8 → Prop
  | .word, rest | .number, rest => Delimited rest
  | .colon, rest => rest.head? ≠ some 0x3A
  | _, _ => True

/-- A byte that is no part of a word and no point can follow all but a colon. -/
theorem mayFollow_cons {b : UInt8} (hw : isWordByte b = false) (hd : asChar b ≠ '.') (hc : b ≠ 0x3A) (kind : TokenKind)
    (rest : List UInt8) : MayFollow kind (b :: rest) := by
  cases kind with
  | word | number => exact .cons hw hd rest
  | colon => exact fun h => hc (Option.some.inj h)
  | _ => trivial

theorem mayFollow_nil (kind : TokenKind) : MayFollow kind [] := by
  have hdelimited : Delimited [] := ⟨by simp, by simp⟩
  cases kind with
  | word | number => exact hdelimited
  | colon => simp [MayFollow]
  | _ => trivial

theorem mayFollow_gap {c : Char} (h : blanks.contains c = true) (kind : TokenKind) (gap : List Char)
    (rest : List UInt8) : MayFollow kind (bytes (c :: gap) ++ rest) := by
  have hall : blanks.all (fun c => !isWordByte (byte c) && asChar (byte c) ≠ '.' && byte c ≠ 0x3A) = true := by
    decide +kernel
  have hc := List.all_eq_true.1 hall c (List.contains_iff_mem.1 h)
  simp only [Bool.and_eq_true, Bool.not_eq_true', decide_eq_true_eq] at hc
  rw [← List.singleton_append, bytes_append, (byte_of_blank h).1]
  exact mayFollow_cons hc.1.1 hc.1.2 hc.2 kind _

/-- The token is scanned, if what follows keeps apart from it. -/
def Whole (l : Lexeme) : Prop := ∀ rest, MayFollow l.1 rest → Scans (bytes l.2) [(l.1, bytes l.2)] rest

/-- The next token keeps apart from the one before. -/
def Apart (l next : Lexeme) : Prop := ∀ rest, MayFollow l.1 (bytes next.2 ++ rest)

/-- Tokens that can stand beside each other without blanks. -/
structure Tiled (lexemes : List Lexeme) : Prop where
  whole : ∀ l ∈ lexemes, Whole l
  apart : lexemes.IsChain Apart

namespace Tiled

variable {l next : Lexeme} {later : List Lexeme}

theorem single (h : Whole l) : Tiled [l] := ⟨List.forall_mem_singleton.2 h, .singleton l⟩

theorem cons (hl : Whole l) (ha : Apart l next) (h : Tiled (next :: later)) : Tiled (l :: next :: later) :=
  ⟨List.forall_mem_cons.2 ⟨hl, h.whole⟩, List.isChain_cons_cons.2 ⟨ha, h.apart⟩⟩

end Tiled

/-- What is laid out after a token can follow it, if the next token can. -/
theorem Laid.mayFollow {lexemes : List Lexeme} {text : List Char} (h : Laid lexemes text) {kind : TokenKind}
    (hnext : ∀ next, lexemes.head? = some next → ∀ rest, MayFollow kind (bytes next.2 ++ rest)) :
    MayFollow kind (bytes text) := by
  cases h with
  | blank _ hgap =>
    cases text with
    | nil => exact mayFollow_nil kind
    | cons c gap =>
      rw [List.all_cons, Bool.and_eq_true] at hgap
      have hfollow := mayFollow_gap hgap.1 kind gap []
      rw [List.append_nil] at hfollow
      exact hfollow
  | token gap hgap next _ =>
    rw [bytes_append, bytes_append]
    cases gap with
    | nil => exact hnext next rfl _
    | cons c gap =>
      rw [List.all_cons, Bool.and_eq_true] at hgap
      exact mayFollow_gap hgap.1 kind gap _

theorem scans_laid {lexemes : List Lexeme} {text : List Char} (h : Laid lexemes text) (ht : Tiled lexemes) :
    Scans (bytes text) (inBytes lexemes) [] := by
  induction h with
  | blank gap hgap => exact scans_gap hgap []
  | @token gap hgap l later text hlater ih =>
    obtain ⟨hl, hwhole⟩ := List.forall_mem_cons.1 ht.whole
    obtain ⟨hnext, hapart⟩ := List.isChain_cons.1 ht.apart
    have hfollow : MayFollow l.1 (bytes text ++ []) := by
      rw [List.append_nil]
      exact hlater.mayFollow hnext
    rw [bytes_append, bytes_append]
    exact (scans_gap hgap _).append ((hl _ hfollow).append (ih ⟨hwhole, hapart⟩))

/-- The stream of a text with blanks holds the tokens and no fault. -/
theorem ofText_laid {lexemes : List Lexeme} {text : String} (h : Laid lexemes text.toList) (ht : Tiled lexemes) :
    ∃ tokens, Stream.ofText text = ⟨0, tokens, none⟩ ∧ tokens.map Token.lexeme = inBytes lexemes :=
  ofText_of_scans (scans_laid h ht)

end SqlQuery.Closure
