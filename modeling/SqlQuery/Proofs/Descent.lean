import SqlQuery.Outcome

/-!
# Recursive descent with a counter

The grammars count levels by their recursion: each level reads its operands with the level below. Here is the other way
to count them, with a cursor that holds the tokens left and the number of levels that have been entered. A program of
the cursor gives an answer or a cause, and leaves the cursor behind in both cases. One that stops in the middle has no
outcome, and neither has one that takes more rounds than it is given: each call of an operand and each turn of a loop is
one round.

`Ends` relates a program to the outcome of a reader: it gives the same, and leaves the counter as it was.
-/

namespace SqlQuery

/-- The tokens left and the number of levels entered. -/
structure Descent.Cursor (σ : Type) where
  stream : σ
  depth : Nat

/-- A program that moves a cursor. -/
abbrev Descent (ε σ α : Type) := ExceptT ε (StateT (Descent.Cursor σ) Option) α

namespace Descent

variable {ε σ α β γ δ : Type}

/-- No outcome. -/
def stop : Descent ε σ α := fun _ => none

/-- Reads from the tokens left. -/
def read (reader : σ → Except ε (α × σ)) : Descent ε σ α := fun c =>
  match reader c.stream with
  | .ok (a, s) => some (.ok a, { c with stream := s })
  | .error cause => some (.error cause, c)

/-- Looks at the tokens left. -/
def look (f : σ → Except ε α) : Descent ε σ α := fun c => some (f c.stream, c)

/-- The outcome of a step that does not look at them. -/
def lift (x : Except ε α) : Descent ε σ α := look fun _ => x

/-- The number of levels entered. -/
def depth : Descent ε σ Nat := fun c => some (.ok c.depth, c)

/-- Counts a level. -/
def enter : StateT (Cursor σ) Option Unit := fun c => some ((), { c with depth := c.depth + 1 })

/-- Counts a level less. There is no number below zero. -/
def leave : StateT (Cursor σ) Option Unit := fun c =>
  if c.depth = 0 then none else some ((), { c with depth := c.depth - 1 })

/-- One level down and up again. -/
def descend (m : Descent ε σ α) : Descent ε σ α := ExceptT.mk do
  enter
  let answer ← m.run
  leave
  return answer

/-- From the tokens and the number of levels on, a program gives what a reader gives, up to a view of it, and the number
of levels is the same again. -/
structure Ends (view : β → α × σ) (m : Descent ε σ α) (s : σ) (d : Nat) (r : Except ε β) : Prop where
  ok : ∀ b, r = .ok b → m ⟨s, d⟩ = some (.ok (view b).1, ⟨(view b).2, d⟩)
  error : ∀ cause, r = .error cause → ∃ after, m ⟨s, d⟩ = some (.error cause, ⟨after, d⟩)

namespace Ends

variable {s : σ} {d : Nat}

theorem pure (view : β → α × σ) {b : β} {a : α} (h : view b = (a, s)) :
    Ends view (Pure.pure a : Descent ε σ α) s d (.ok b) := by
  constructor
  · rintro b' ⟨⟩
    rw [h]
    rfl
  · rintro cause ⟨⟩

theorem throw (view : β → α × σ) (cause : ε) :
    Ends view (MonadExcept.throw cause : Descent ε σ α) s d (.error cause) := by
  constructor
  · rintro b ⟨⟩
  · rintro cause' ⟨⟩
    exact ⟨s, rfl⟩

theorem read {reader : σ → Except ε (α × σ)} {r : Except ε (α × σ)} (h : reader s = r) :
    Ends id (Descent.read reader) s d r := by
  subst h
  constructor
  · intro b hb
    rw [Descent.read, hb]
    rfl
  · intro cause hc
    rw [Descent.read, hc]
    exact ⟨s, rfl⟩

theorem look {f : σ → Except ε α} {r : Except ε α} (h : f s = r) : Ends (·, s) (Descent.look f) s d r := by
  subst h
  constructor
  · intro b hb
    rw [Descent.look, hb]
  · intro cause hc
    rw [Descent.look, hc]
    exact ⟨s, rfl⟩

theorem lift (x : Except ε α) : Ends (·, s) (Descent.lift x) s d x := .look rfl

theorem depth : Ends id (Descent.depth : Descent ε σ Nat) s d (.ok (d, s)) :=
  ⟨by rintro b ⟨⟩; rfl, by rintro cause ⟨⟩⟩

theorem view_ok {view : β → α × σ} {view' : γ → α × σ} {m : Descent ε σ α} {b : β} {c : γ}
    (h : Ends view m s d (.ok b)) (hview : view b = view' c) : Ends view' m s d (.ok c) := by
  constructor
  · rintro c' ⟨⟩
    rw [← hview]
    exact h.ok b rfl
  · rintro cause ⟨⟩

theorem view_error {view : β → α × σ} {view' : γ → α × σ} {m : Descent ε σ α} {cause : ε}
    (h : Ends view m s d (.error cause)) : Ends view' m s d (.error cause) := by
  constructor
  · rintro c ⟨⟩
  · rintro cause' ⟨⟩
    exact h.error cause rfl

theorem map {view : β → α × σ} {view' : γ → α × σ} {m : Descent ε σ α} {r : Except ε β} {g : β → γ}
    (h : Ends view m s d r) (hview : ∀ b, view b = view' (g b)) : Ends view' m s d (r >>= fun b => .ok (g b)) := by
  cases r with
  | error cause => exact h.view_error
  | ok b => exact h.view_ok (hview b)

section Bind

variable {view : β → α × σ} {view' : δ → γ × σ} {m : Descent ε σ α} {f : α → Descent ε σ γ}

/-- The second program goes on where the first one ended. -/
theorem bind_run (m : Descent ε σ α) (f : α → Descent ε σ γ) (c : Cursor σ) :
    (m >>= f) c = (m c).bind fun p => ExceptT.bindCont f p.1 p.2 := rfl

theorem bind_ok {b : β} {r : Except ε δ} (h : Ends view m s d (.ok b)) (hf : Ends view' (f (view b).1) (view b).2 d r) :
    Ends view' (m >>= f) s d r := by
  have hrun : (m >>= f) ⟨s, d⟩ = f (view b).1 ⟨(view b).2, d⟩ := by
    rw [bind_run, h.ok b rfl]
    rfl
  exact ⟨fun b' hb' => hrun.trans (hf.ok b' hb'), fun cause hc => hrun ▸ hf.error cause hc⟩

theorem bind_error {cause : ε} (h : Ends view m s d (.error cause)) : Ends view' (m >>= f) s d (.error cause) := by
  obtain ⟨after, hm⟩ := h.error cause rfl
  constructor
  · rintro b ⟨⟩
  · rintro cause' ⟨⟩
    refine ⟨after, ?_⟩
    rw [bind_run, hm]
    rfl

theorem bind {r : Except ε β} {g : β → Except ε δ} (h : Ends view m s d r)
    (hf : ∀ b, r = .ok b → Ends view' (f (view b).1) (view b).2 d (g b)) : Ends view' (m >>= f) s d (r >>= g) := by
  cases r with
  | error cause => exact h.bind_error
  | ok b => exact h.bind_ok (hf b rfl)

end Bind

/-- A level that is entered is left again. -/
theorem descend {view : β → α × σ} {m : Descent ε σ α} {r : Except ε β} (h : Ends view m s (d + 1) r) :
    Ends view (Descent.descend m) s d r := by
  have hrun : Descent.descend m ⟨s, d⟩ = (m ⟨s, d + 1⟩).bind fun p => (leave p.2).bind fun q => some (p.1, q.2) := rfl
  constructor
  · intro b hb
    rw [hrun, h.ok b hb]
    rfl
  · intro cause hc
    obtain ⟨after, hm⟩ := h.error cause hc
    refine ⟨after, ?_⟩
    rw [hrun, hm]
    rfl

end Ends

end Descent

end SqlQuery
