import SqlQuery.Proofs.TextSurface
import SqlQuery.Sql.Expression

/-!
# Calls with one argument

A call with one argument is the argument between two texts, which depend on the dialect and on the method only
(`unaryCall?_framed`). Whatever is proved about such calls needs the same of these texts (`Frames`): the first one opens
parentheses and the second one closes them again.
-/

namespace SqlQuery.Sql

/-- Two texts that an argument can stand between. -/
structure Frames (d : Dialect) (before after : String) : Prop where
  opened : ∃ k, Opened d before [] (k + 1) ∧ ∀ n, descend (n + (k + 1)) (after.toList.map .char) = (n, [])
  head : before.toList.head?.any (· ≠ '$') = true
  last : before.toList.getLast? = some '(' ∨ before.toList.getLast? = some ' '
  plain : Plain after
  next : after.toList.head? = some ')' ∨ after.toList.head? = some ' '

section

variable {d : Dialect} {s t p q : String}

theorem head?_append_any {c : Char → Bool} (h : p.toList.head?.any c = true) : (p ++ q).toList.head?.any c = true := by
  obtain ⟨x, hx, hc⟩ := (Option.any_eq_true ..).1 h
  rw [String.toList_append, List.head?_append, hx]
  exact hc

theorem getLast?_append_some {c : Char} (h : q.toList.getLast? = some c) : (p ++ q).toList.getLast? = some c := by
  rw [String.toList_append, List.getLast?_append, h]
  rfl

theorem Frames.outside (h : Frames d p q) : (scan d p).1 = .outside := by
  obtain ⟨k, hopened, -⟩ := h.opened
  exact hopened.outside

/-- The names of functions are written in capitals. -/
theorem opening_of_isUpper (h : s.toList.all Char.isUpper = true) : Opening s 0 := by
  obtain ⟨hbare, hatomic⟩ := bare_of_all (by decide) (List.all_eq_true.1 h)
  exact hbare.opening hatomic

theorem isUpper_datePartWord (part : DatePart) :
    (Dialect.datePartWord part).toList.all Char.isUpper = true ∧
      (Dialect.datePartWord part).toList.head?.any (· ≠ '$') = true := by
  cases part <;> decide

theorem isUpper_functionWord {m : Method} {word : String} (h : Formatter.functionWord? m = some word) :
    word.toList.all Char.isUpper = true ∧ word.toList.head?.any (· ≠ '$') = true := by
  cases m <;> cases h <;> decide

theorem frames_word (h : s.toList.all Char.isUpper = true ∧ s.toList.head?.any (· ≠ '$') = true) :
    Frames d (s ++ "(") ")" where
  opened := ⟨0, .start ((opening_of_isUpper h.1).append (t := "(") (by decide)), fun _ => rfl⟩
  head := head?_append_any h.2
  last := .inl (getLast?_append_some (by decide))
  plain := by decide
  next := .inl (by decide)

/-- A format is a literal, which stands before the argument. -/
theorem frames_format {k : Nat} (part : DatePart) (hp : Opening p (k + 1)) (hhead : p.toList.head?.any (· ≠ '$') = true)
    (hq : Plain q) (hnext : q.toList.head? = some ')')
    (hclose : ∀ n, descend (n + (k + 1)) (q.toList.map .char) = (n, [])) :
    Frames .sqlite (p ++ ("'%" ++ Dialect.datePartLetter part ++ "'") ++ ", ") q := by
  have hquote : Dialect.quote .sqlite ("%" ++ Dialect.datePartLetter part) =
      "'%" ++ Dialect.datePartLetter part ++ "'" := by
    cases part <;> rfl
  have hopened : Opened .sqlite p [] (k + 1) := .start hp
  have hliteral := hopened.argument (hquote ▸ Balanced.quote .sqlite _) (p := ", ") (by decide) fun _ => rfl
  refine ⟨⟨k, ?_, hclose⟩, head?_append_any (head?_append_any hhead), .inr (getLast?_append_some (by decide)), hq,
    .inl hnext⟩
  exact ⟨hliteral.outside, hliteral.descend_eq, hliteral.atomic, List.forall_mem_nil _⟩

theorem frames_datePart (d : Dialect) (part : DatePart) :
    ∃ p q, Frames d p q ∧ ∀ s, d.datePart part s = p ++ s ++ q := by
  have hword := isUpper_datePartWord part
  cases d with
  | mysql => exact ⟨_, _, frames_word hword, fun _ => rfl⟩
  | postgres =>
    have hextract : Frames .postgres ("EXTRACT(" ++ Dialect.datePartWord part ++ " FROM ") ")" := by
      have hopening : Opening ("EXTRACT(" ++ Dialect.datePartWord part ++ " FROM ") (1 + 0 + 0) :=
        (Opening.append (by decide) (opening_of_isUpper hword.1)).append (by decide)
      exact ⟨⟨0, .start hopening, fun _ => rfl⟩, head?_append_any (head?_append_any (by decide)),
        .inr (getLast?_append_some (by decide)), by decide, .inl (by decide)⟩
    cases part with
    | date =>
      exact ⟨"CAST(", " AS DATE)",
        ⟨⟨0, .start (by decide), fun _ => rfl⟩, by decide, by decide, by decide, by decide⟩, fun _ => rfl⟩
    | weekday =>
      exact ⟨"(EXTRACT(DOW FROM ", ")+1)",
        ⟨⟨1, .start (by decide), fun _ => rfl⟩, by decide, by decide, by decide, by decide⟩, fun _ => rfl⟩
    | _ => exact ⟨_, _, hextract, fun _ => rfl⟩
  | sqlite =>
    have hformat : "CAST(STRFTIME('%" ++ Dialect.datePartLetter part ++ "', " =
        "CAST(STRFTIME(" ++ ("'%" ++ Dialect.datePartLetter part ++ "'") ++ ", " := by
      have hbefore : "CAST(STRFTIME('%" = "CAST(STRFTIME(" ++ "'%" := rfl
      have hafter : "', " = "'" ++ ", " := rfl
      rw [hbefore, hafter]
      simp only [String.append_assoc]
    have hframes : Frames .sqlite ("CAST(STRFTIME('%" ++ Dialect.datePartLetter part ++ "', ") ") AS INTEGER)" := by
      rw [hformat]
      exact frames_format part (k := 1) (by decide) (by decide) (by decide) (by decide) fun _ => rfl
    cases part with
    | date => exact ⟨_, _, frames_word hword, fun _ => rfl⟩
    | weekday =>
      have hweekday : Frames .sqlite ("(CAST(STRFTIME(" ++ ("'%" ++ "w" ++ "'") ++ ", ") ") AS INTEGER)+1)" :=
        frames_format .weekday (k := 2) (by decide) (by decide) (by decide) (by decide) fun _ => rfl
      exact ⟨_, _, hweekday, fun _ => rfl⟩
    | _ => exact ⟨_, _, hframes, fun _ => rfl⟩

/-- A method has no call with one argument, or has its argument between two texts. -/
theorem unaryCall?_framed (f : Formatter) (m : Method) :
    (∀ s, f.unaryCall? m s = none) ∨ ∃ p q, Frames f.dialect p q ∧ ∀ s, f.unaryCall? m s = some (p ++ s ++ q) := by
  unfold Formatter.unaryCall?
  cases m.datePart? with
  | some part =>
    obtain ⟨p, q, hframes, heq⟩ := frames_datePart f.dialect part
    exact .inr ⟨p, q, hframes, fun s => congrArg some (heq s)⟩
  | none =>
    cases hword : Formatter.functionWord? m with
    | some word => exact .inr ⟨_, _, frames_word (isUpper_functionWord hword), fun _ => rfl⟩
    | none => exact .inl fun _ => rfl

theorem exists_frames_of_unaryCall? {f : Formatter} {m : Method} (h : f.unaryCall? m s = some t) :
    ∃ p q, Frames f.dialect p q ∧ t = p ++ s ++ q := by
  rcases unaryCall?_framed f m with hnone | ⟨p, q, hframes, hsome⟩
  · rw [hnone] at h
    cases h
  · rw [hsome] at h
    exact ⟨p, q, hframes, (Option.some.inj h).symm⟩

end

end SqlQuery.Sql
