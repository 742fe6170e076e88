import Mathlib.Data.List.Forall2
import Mathlib.Tactic.SplitIfs
import SqlQuery.Proofs.LiteralReading

/-!
# SQL with its literals left out

`skeleton` replaces every quoted literal of a text by one mark, as a scanner of the dialect finds it: a
doubled quote does not end a literal, and in the default dialect neither does a quote after a backslash.
Two texts are `Alike` if they have the same skeleton and leave no literal open. Likeness goes through
concatenation where no two literals touch, so texts are built from `Sealed` ones, which end outside of
literals.
-/

namespace SqlQuery.Sql

/-- A character outside of quoted literals, or a literal as a whole. -/
inductive Mark where
  | char (c : Char)
  | literal
  /-- A literal that the text ends in. -/
  | unclosed

inductive Scanner where
  | outside
  | inside
  /-- After a backslash in a literal. -/
  | escaped
  /-- After a quote in a literal, which ends it unless it is doubled. -/
  | closing

namespace Scanner

def step (d : Dialect) : Scanner → Char → Scanner × List Mark
  | .outside, c => if c = '\x27' then (.inside, []) else (.outside, [.char c])
  | .inside, c =>
    if c = '\x27' then (.closing, [])
    else if d = .mysql ∧ c = '\\' then (.escaped, [])
    else (.inside, [])
  | .escaped, _ => (.inside, [])
  | .closing, c => if c = '\x27' then (.inside, []) else (.outside, [.literal, .char c])

def run (d : Dialect) (σ : Scanner) : List Char → Scanner × List Mark
  | [] => (σ, [])
  | c :: cs =>
    let next := σ.step d c
    let last := run d next.1 cs
    (last.1, next.2 ++ last.2)

/-- What the end of the text adds. -/
def finish : Scanner → List Mark
  | .outside => []
  | .closing => [.literal]
  | _ => [.unclosed]

variable {d : Dialect}

theorem run_append (σ : Scanner) (xs ys : List Char) :
    σ.run d (xs ++ ys) =
      (((σ.run d xs).1.run d ys).1, (σ.run d xs).2 ++ ((σ.run d xs).1.run d ys).2) := by
  induction xs generalizing σ with
  | nil => rfl
  | cons c cs ih => simp [run, ih]

/-- A literal that was closed is marked with the first character after it. -/
theorem run_closing {c : Char} (hc : c ≠ '\x27') (cs : List Char) :
    closing.run d (c :: cs) = ((outside.run d (c :: cs)).1, .literal :: (outside.run d (c :: cs)).2) := by
  simp [run, step, hc]

theorem run_of_not_mem {cs : List Char} (h : '\x27' ∉ cs) : outside.run d cs = (.outside, cs.map .char) := by
  induction cs with
  | nil => rfl
  | cons c cs ih =>
    rw [List.mem_cons, not_or] at h
    simp [run, step, Ne.symm h.1, ih h.2]

end Scanner

/-- What a text is scanned to. -/
def scan (d : Dialect) (sql : String) : Scanner × List Mark := Scanner.outside.run d sql.toList

/-- A text with a mark in the place of each quoted literal. -/
def skeleton (d : Dialect) (sql : String) : List Mark := (scan d sql).2 ++ (scan d sql).1.finish

/-- No literal is left open. -/
def Closed (d : Dialect) (sql : String) : Prop := (scan d sql).1 = .outside ∨ (scan d sql).1 = .closing

/-- The texts have the same skeleton. -/
structure Alike (d : Dialect) (s t : String) : Prop where
  left : Closed d s
  right : Closed d t
  skeleton_eq : skeleton d s = skeleton d t

/-- The texts have the same skeleton and end outside of literals. -/
structure Sealed (d : Dialect) (s t : String) : Prop where
  left : (scan d s).1 = .outside
  right : (scan d t).1 = .outside
  skeleton_eq : skeleton d s = skeleton d t

/-- The second text does not go on with a literal that the first one ends with. -/
def Parted (d : Dialect) (s p : String) : Prop :=
  (scan d s).1 = .outside ∨ Closed d s ∧ ∃ c cs, p.toList = c :: cs ∧ c ≠ '\x27'

/-- A text that parts any two others: there is no quote in it, and it is not empty. -/
def Plain (p : String) : Prop := p ≠ "" ∧ '\x27' ∉ p.toList

instance (p : String) : Decidable (Plain p) := inferInstanceAs (Decidable (_ ∧ _))

section

variable {d : Dialect} {s t p q : String}

theorem scan_append (h : Parted d s p) : scan d (s ++ p) = ((scan d p).1, skeleton d s ++ (scan d p).2) := by
  have happend : scan d (s ++ p) =
      (((scan d s).1.run d p.toList).1, (scan d s).2 ++ ((scan d s).1.run d p.toList).2) := by
    rw [scan, String.toList_append, Scanner.run_append]
    rfl
  have hp : scan d p = Scanner.outside.run d p.toList := rfl
  rw [happend, skeleton, hp]
  rcases h with hs | ⟨hs | hs, c, cs, hcs, hc⟩
  · rw [hs, Scanner.finish, List.append_nil]
  · rw [hs, Scanner.finish, List.append_nil]
  · rw [hs, Scanner.finish, hcs, Scanner.run_closing hc, List.append_assoc, List.singleton_append]

theorem skeleton_append (h : Parted d s p) : skeleton d (s ++ p) = skeleton d s ++ skeleton d p := by
  rw [skeleton, scan_append h, List.append_assoc]
  rfl

theorem scan_of_not_mem (h : '\x27' ∉ s.toList) : scan d s = (.outside, s.toList.map .char) :=
  Scanner.run_of_not_mem h

theorem Sealed.alike (h : Sealed d s t) : Alike d s t := ⟨.inl h.left, .inl h.right, h.skeleton_eq⟩

theorem Sealed.of_not_mem (h : '\x27' ∉ s.toList) : Sealed d s s :=
  ⟨by rw [scan_of_not_mem h], by rw [scan_of_not_mem h], rfl⟩

theorem Alike.append (hs : Alike d s t) (hp : Alike d p q) (hl : Parted d s p) (hr : Parted d t q) :
    Alike d (s ++ p) (t ++ q) where
  left := by
    unfold Closed
    rw [scan_append hl]
    exact hp.left
  right := by
    unfold Closed
    rw [scan_append hr]
    exact hp.right
  skeleton_eq := by rw [skeleton_append hl, skeleton_append hr, hs.skeleton_eq, hp.skeleton_eq]

theorem Sealed.append (hs : Sealed d s t) (hp : Alike d p q) : Alike d (s ++ p) (t ++ q) :=
  hs.alike.append hp (.inl hs.left) (.inl hs.right)

theorem Plain.parted (hp : Plain p) (hs : Closed d s) : Parted d s p := by
  refine .inr ⟨hs, ?_⟩
  cases hcs : p.toList with
  | nil => exact absurd (String.toList_eq_nil_iff.1 hcs) hp.1
  | cons c cs =>
    refine ⟨c, cs, rfl, ?_⟩
    rintro rfl
    exact hp.2 (by simp [hcs])

theorem Alike.append_plain (hs : Alike d s t) (hp : Plain p) : Sealed d (s ++ p) (t ++ p) := by
  have hl : Parted d s p := hp.parted hs.left
  have hr : Parted d t p := hp.parted hs.right
  refine ⟨?_, ?_, ?_⟩
  · rw [scan_append hl, scan_of_not_mem hp.2]
  · rw [scan_append hr, scan_of_not_mem hp.2]
  · rw [skeleton_append hl, skeleton_append hr, hs.skeleton_eq]

/-- A text between two others, the second of which parts it from what follows. -/
theorem Alike.between (h : Alike d s t) (hp : Plain p) (hq : Plain q) :
    Sealed d (p ++ s ++ q) (p ++ t ++ q) :=
  ((Sealed.of_not_mem hp.2).append h).append_plain hq

/-- What escaping makes of a character stays inside of the literal. -/
theorem run_escape (d : Dialect) (c : Char) : Scanner.inside.run d (d.escape c) = (.inside, []) := by
  have hdoubled : ∀ d : Dialect, d ≠ .mysql → Scanner.inside.run d (Dialect.doubledQuote c) = (.inside, []) := by
    intro d hd
    unfold Dialect.doubledQuote
    split_ifs with h
    · rfl
    · simp [Scanner.run, Scanner.step, h, hd]
  cases d with
  | mysql =>
    have hforms : Dialect.Forms c (Dialect.escape .mysql c) := Dialect.forms_backslashEscape c
    generalize Dialect.escape .mysql c = written at hforms ⊢
    cases hforms with
    | plain hb hq => simp [Scanner.run, Scanner.step, hb, hq]
    | escaped => rfl
  | postgres => exact hdoubled .postgres (by decide)
  | sqlite => exact hdoubled .sqlite (by decide)

theorem scan_quote (d : Dialect) (s : String) : scan d (d.quote s) = (.closing, []) := by
  have hinside : ∀ cs : List Char, Scanner.inside.run d (cs.flatMap d.escape) = (.inside, []) := by
    intro cs
    induction cs with
    | nil => rfl
    | cons c cs ih => rw [List.flatMap_cons, Scanner.run_append, run_escape, ih]; rfl
  have hopen : ∀ cs : List Char, Scanner.outside.run d ('\x27' :: cs) = Scanner.inside.run d cs := fun _ => rfl
  rw [scan, Dialect.quote, String.toList_ofList, hopen, Scanner.run_append, hinside]
  rfl

/-- Literals are alike, whatever they quote. -/
theorem Alike.quote (d : Dialect) (s t : String) : Alike d (d.quote s) (d.quote t) := by
  refine ⟨.inr ?_, .inr ?_, ?_⟩
  · rw [scan_quote]
  · rw [scan_quote]
  · rw [skeleton, skeleton, scan_quote, scan_quote]

theorem Alike.joinWith {separator : String} {xs ys : List String} (h : List.Forall₂ (Alike d) xs ys)
    (hs : Plain separator) :
    Alike d (Text.joinWith separator xs) (Text.joinWith separator ys) := by
  induction h with
  | nil => exact (Sealed.of_not_mem (s := "") (by decide)).alike
  | cons hx hrest ih =>
    cases hrest with
    | nil => exact hx
    | cons => exact (hx.append_plain hs).append ih

end

end SqlQuery.Sql
