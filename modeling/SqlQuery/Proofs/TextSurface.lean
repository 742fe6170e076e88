import SqlQuery.Proofs.LiteralSkeleton

/-!
# The surface of SQL

The surface of a text is what stands in it outside of parentheses and quoted literals. It is put together from the
surfaces of the parts of the text, if these are `Balanced`: they close what they open and nothing else. SQL that is
written around arguments is `Opened` with each piece of its own text, and balanced when everything is closed again; its
arguments then are in parentheses, and only its own words are on the surface.
-/

namespace SqlQuery.Sql

/-- The depth after a mark, and the mark's character if it stands outside of parentheses. -/
def Mark.descend (n : Nat) : Mark → Nat × List Char
  | .char c => if c = '(' then (n + 1, []) else if c = ')' then (n - 1, []) else (n, if n = 0 then [c] else [])
  | _ => (n, [])

/-- The depth after marks, and the characters outside of parentheses. -/
def descend (n : Nat) : List Mark → Nat × List Char
  | [] => (n, [])
  | m :: ms =>
    let next := m.descend n
    let last := descend next.1 ms
    (last.1, next.2 ++ last.2)

/-- The characters outside of parentheses and literals. -/
def surface (d : Dialect) (sql : String) : List Char := (descend 0 (skeleton d sql)).2

/-- The characters of the symbols of comparisons. -/
def isComparisonChar (c : Char) : Bool := c = '=' || c = '<' || c = '>'

/-- No comparison is on the surface. -/
def Atomic (d : Dialect) (sql : String) : Prop := (surface d sql).all (fun c => !isComparisonChar c) = true

instance (d : Dialect) (sql : String) : Decidable (Atomic d sql) := inferInstanceAs (Decidable (_ = true))

/-- Every literal and every parenthesis is closed, and no parenthesis is closed that was not opened. -/
structure Balanced (d : Dialect) (sql : String) : Prop where
  closed : Closed d sql
  descend_eq : ∀ n, descend n (skeleton d sql) = (n, if n = 0 then surface d sql else [])

/-- Balanced and without a comparison on the surface. -/
structure Shielded (d : Dialect) (sql : String) : Prop where
  balanced : Balanced d sql
  atomic : Atomic d sql

/-- One text is a part of another. -/
def Occurs (s t : String) : Prop := s.toList <:+: t.toList

/-- The text has arguments in parentheses, of which it has a number still to close, and compares nothing outside of
them. -/
structure Opened (d : Dialect) (sql : String) (args : List String) (count : Nat) : Prop where
  outside : (scan d sql).1 = .outside
  descend_eq : ∀ n, descend n (skeleton d sql) = (n + count, if n = 0 then surface d sql else [])
  atomic : Atomic d sql
  occurs : ∀ a ∈ args, Occurs a sql

/-- The text has arguments in parentheses. -/
structure Encloses (d : Dialect) (sql : String) (args : List String) : Prop where
  shielded : Shielded d sql
  occurs : ∀ a ∈ args, Occurs a sql

section

variable {d : Dialect} {s t p : String}

theorem descend_append (n : Nat) (xs ys : List Mark) :
    descend n (xs ++ ys) = ((descend (descend n xs).1 ys).1, (descend n xs).2 ++ (descend (descend n xs).1 ys).2) := by
  induction xs generalizing n with
  | nil => rfl
  | cons x xs ih => simp [descend, ih]

theorem descend_chars {cs : List Char} (hopen : '(' ∉ cs) (hclose : ')' ∉ cs) (n : Nat) :
    descend n (cs.map .char) = (n, if n = 0 then cs else []) := by
  induction cs with
  | nil => simp [descend]
  | cons c cs ih =>
    rw [List.mem_cons, not_or] at hopen hclose
    have hmark : (Mark.char c).descend n = (n, if n = 0 then [c] else []) := by
      rw [Mark.descend, if_neg (Ne.symm hopen.1), if_neg (Ne.symm hclose.1)]
    rw [List.map_cons, descend, hmark, ih hopen.2 hclose.2]
    split <;> rfl

/-- Without a closing parenthesis the depth grows with each opening one, and nothing is on the surface once it is not
zero. -/
theorem descend_opening {cs : List Char} (hclose : ')' ∉ cs) (n : Nat) :
    descend n (cs.map .char) = (n + cs.count '(', if n = 0 then (descend 0 (cs.map .char)).2 else []) := by
  induction cs generalizing n with
  | nil => simp [descend]
  | cons c cs ih =>
    rw [List.mem_cons, not_or] at hclose
    by_cases hc : c = '('
    · subst hc
      have hmark : ∀ n, (Mark.char '(').descend n = (n + 1, []) := fun _ => rfl
      simp only [List.map_cons, descend, hmark, ih hclose.2 (n + 1), ih hclose.2 1]
      simp [Nat.add_comm, Nat.add_left_comm]
    · have hmark : ∀ n, (Mark.char c).descend n = (n, if n = 0 then [c] else []) := fun n => by
        rw [Mark.descend, if_neg hc, if_neg (Ne.symm hclose.1)]
      rw [List.count_cons_of_ne hc]
      simp only [List.map_cons, descend, hmark, ih hclose.2 n]
      split
      · next hn => rw [hn, if_pos trivial]
      · rfl

theorem descend_subset {cs : List Char} {n : Nat} : (descend n (cs.map .char)).2 ⊆ cs := by
  induction cs generalizing n with
  | nil => exact List.nil_subset _
  | cons c cs ih =>
    refine List.append_subset.2 ⟨?_, fun x hx => List.mem_cons_of_mem c (ih hx)⟩
    unfold Mark.descend
    dsimp only
    split_ifs <;> simp

theorem skeleton_of_not_mem (h : '\x27' ∉ s.toList) : skeleton d s = s.toList.map .char := by
  rw [skeleton, scan_of_not_mem h]
  exact List.append_nil _

/-! ### Occurrences -/

namespace Occurs

theorem refl (s : String) : Occurs s s := List.infix_rfl

theorem trans {r : String} (hs : Occurs s t) (ht : Occurs t r) : Occurs s r := List.IsInfix.trans hs ht

theorem append_right (h : Occurs s t) (p : String) : Occurs s (t ++ p) := by
  rw [Occurs, String.toList_append]
  exact List.infix_append_of_infix_left h

theorem append_left (h : Occurs s t) (p : String) : Occurs s (p ++ t) := by
  rw [Occurs, String.toList_append]
  exact List.infix_append_of_infix_right h

end Occurs

/-! ### Balanced texts -/

/-- A name, a number or a word. -/
structure Bare (s : String) : Prop where
  quote : '\x27' ∉ s.toList
  parenOpen : '(' ∉ s.toList
  parenClose : ')' ∉ s.toList

instance (s : String) : Decidable (Bare s) :=
  decidable_of_iff ('\x27' ∉ s.toList ∧ '(' ∉ s.toList ∧ ')' ∉ s.toList)
    ⟨fun h => ⟨h.1, h.2.1, h.2.2⟩, fun h => ⟨h.1, h.2, h.3⟩⟩

/-- Words and opening parentheses. -/
structure Opening (s : String) (count : Nat) : Prop where
  quote : '\x27' ∉ s.toList
  parenClose : ')' ∉ s.toList
  atomic : s.toList.all (fun c => !isComparisonChar c) = true
  count : s.toList.count '(' = count

instance (s : String) (k : Nat) : Decidable (Opening s k) :=
  decidable_of_iff ('\x27' ∉ s.toList ∧ ')' ∉ s.toList ∧ s.toList.all (fun c => !isComparisonChar c) = true ∧
    s.toList.count '(' = k) ⟨fun h => ⟨h.1, h.2.1, h.2.2.1, h.2.2.2⟩, fun h => ⟨h.1, h.2, h.3, h.4⟩⟩

theorem Opening.append {k l : Nat} (hs : Opening s k) (ht : Opening t l) : Opening (s ++ t) (k + l) where
  quote := by
    rw [String.toList_append, List.mem_append, not_or]
    exact ⟨hs.quote, ht.quote⟩
  parenClose := by
    rw [String.toList_append, List.mem_append, not_or]
    exact ⟨hs.parenClose, ht.parenClose⟩
  atomic := by rw [String.toList_append, List.all_append, hs.atomic, ht.atomic, Bool.and_self]
  count := by rw [String.toList_append, List.count_append, hs.count, ht.count]

/-- What is made of characters that are no quote, no parenthesis and no symbol of a comparison. -/
theorem bare_of_all {isPart : Char → Bool} (hpart : "'()=<>".toList.all (fun c => !isPart c) = true)
    (h : ∀ c ∈ s.toList, isPart c = true) : Bare s ∧ s.toList.all (fun c => !isComparisonChar c) = true := by
  have hnot : ∀ c ∈ "'()=<>".toList, c ∉ s.toList := by
    intro c hc hmem
    have := List.all_eq_true.1 hpart c hc
    rw [h c hmem] at this
    cases this
  refine ⟨⟨hnot _ (by decide), hnot _ (by decide), hnot _ (by decide)⟩, List.all_eq_true.2 fun c hc => ?_⟩
  have hchar : c ≠ '=' ∧ c ≠ '<' ∧ c ≠ '>' := by
    refine ⟨?_, ?_, ?_⟩ <;> rintro rfl <;> exact hnot _ (by decide) hc
  simp [isComparisonChar, hchar]

namespace Bare

theorem opening (h : Bare s) (ha : s.toList.all (fun c => !isComparisonChar c) = true) : Opening s 0 :=
  ⟨h.quote, h.parenClose, ha, List.count_eq_zero.2 h.parenOpen⟩

theorem surface_eq (h : Bare s) : surface d s = s.toList := by
  rw [surface, skeleton_of_not_mem h.quote, descend_chars h.parenOpen h.parenClose]
  rfl

theorem balanced (h : Bare s) : Balanced d s where
  closed := .inl (by rw [scan_of_not_mem h.quote])
  descend_eq n := by rw [h.surface_eq, skeleton_of_not_mem h.quote, descend_chars h.parenOpen h.parenClose]

end Bare

namespace Balanced

theorem surface_append (hs : Balanced d s) (h : Parted d s t) : surface d (s ++ t) = surface d s ++ surface d t := by
  rw [surface, skeleton_append h, descend_append, hs.descend_eq]
  rfl

theorem append (hs : Balanced d s) (ht : Balanced d t) (h : Parted d s t) : Balanced d (s ++ t) where
  closed := by
    unfold Closed
    rw [scan_append h]
    exact ht.closed
  descend_eq n := by
    simp only [hs.surface_append h, skeleton_append h, descend_append, hs.descend_eq, ht.descend_eq]
    split <;> rfl

theorem quote (d : Dialect) (s : String) : Balanced d (d.quote s) where
  closed := .inr (by rw [scan_quote])
  descend_eq n := by
    rw [surface, skeleton, scan_quote]
    simp [Scanner.finish, descend, Mark.descend]

theorem surface_quote (d : Dialect) (s : String) : surface d (d.quote s) = [] := by
  rw [surface, skeleton, scan_quote]
  rfl

theorem between (hs : Balanced d s) (hp : Plain p) (hb : Bare p) (ht : Balanced d t) :
    Balanced d (s ++ p ++ t) ∧ surface d (s ++ p ++ t) = surface d s ++ p.toList ++ surface d t := by
  have hsp : Parted d s p := hp.parted hs.closed
  have hpt : Parted d (s ++ p) t := .inl (by rw [scan_append hsp, scan_of_not_mem hb.quote])
  have hfirst : Balanced d (s ++ p) := hs.append hb.balanced hsp
  refine ⟨hfirst.append ht hpt, ?_⟩
  rw [hfirst.surface_append hpt, hs.surface_append hsp, hb.surface_eq]

theorem joinWith {separator : String} {texts : List String} (h : ∀ t ∈ texts, Balanced d t) (hp : Plain separator)
    (hb : Bare separator) : Balanced d (Text.joinWith separator texts) := by
  induction texts with
  | nil => exact Bare.balanced (s := "") (by decide)
  | cons t texts ih =>
    obtain ⟨ht, hrest⟩ := List.forall_mem_cons.1 h
    cases texts with
    | nil => exact ht
    | cons => exact (ht.between hp hb (ih hrest)).1

end Balanced

/-! ### Opened texts -/

namespace Opened

variable {args : List String} {k k' : Nat}

/-- The text that SQL starts with, up to its first argument. -/
theorem start (h : Opening s k) : Opened d s [] k := by
  have hdescend : ∀ n, descend n (skeleton d s) = (n + k, if n = 0 then surface d s else []) := by
    intro n
    rw [surface, skeleton_of_not_mem h.quote, descend_opening h.parenClose, descend_opening h.parenClose, h.count]
  refine ⟨by rw [scan_of_not_mem h.quote], hdescend, ?_, List.forall_mem_nil _⟩
  rw [Atomic, surface, skeleton_of_not_mem h.quote]
  exact List.all_eq_true.2 fun c hc => List.all_eq_true.1 h.atomic c (descend_subset hc)

/-- An argument in the parentheses, and the piece that follows it. -/
theorem argument (h : Opened d s args (k + 1)) (ht : Balanced d t) (hp : Plain p)
    (hd : ∀ n, descend (n + (k + 1)) (p.toList.map .char) = (n + k', [])) :
    Opened d (s ++ t ++ p) (t :: args) k' := by
  have hclosed : Closed d (s ++ t) := by
    unfold Closed
    rw [scan_append (.inl h.outside)]
    exact ht.closed
  have hdescend : ∀ n, descend n (skeleton d (s ++ t ++ p)) = (n + k', if n = 0 then surface d s else []) := by
    intro n
    rw [skeleton_append (hp.parted hclosed), skeleton_append (.inl h.outside), descend_append, descend_append,
      h.descend_eq, ht.descend_eq, skeleton_of_not_mem hp.2, hd]
    simp
  have hsurface : surface d (s ++ t ++ p) = surface d s := by
    rw [surface, hdescend]
    rfl
  refine ⟨?_, by rwa [hsurface], by rw [Atomic, hsurface]; exact h.atomic, List.forall_mem_cons.2 ⟨?_, fun a ha => ?_⟩⟩
  · rw [scan_append (hp.parted hclosed), scan_of_not_mem hp.2]
  · exact ((Occurs.refl t).append_left s).append_right p
  · exact ((h.occurs a ha).append_right t).append_right p

theorem encloses (h : Opened d s args 0) : Encloses d s args :=
  ⟨⟨⟨.inl h.outside, h.descend_eq⟩, h.atomic⟩, h.occurs⟩

end Opened

theorem Encloses.mono {args args' : List String} (h : Encloses d s args) (hsub : args' ⊆ args) : Encloses d s args' :=
  ⟨h.shielded, fun a ha => h.occurs a (hsub ha)⟩

theorem Encloses.cons {args : List String} {a : String} (h : Encloses d s args) (ha : Occurs a s) :
    Encloses d s (a :: args) :=
  ⟨h.shielded, List.forall_mem_cons.2 ⟨ha, h.occurs⟩⟩

theorem Encloses.parens (h : Balanced d s) : Encloses d ("(" ++ s ++ ")") [s] := by
  have hopened : Opened d "(" [] 1 := .start (by decide)
  exact (hopened.argument h (by decide) fun _ => rfl).encloses

namespace Shielded

theorem of_bare (h : Bare s) (ha : s.toList.all (fun c => !isComparisonChar c) = true) : Shielded d s :=
  ⟨h.balanced, by rw [Atomic, h.surface_eq, ha]⟩

theorem quote (d : Dialect) (s : String) : Shielded d (d.quote s) :=
  ⟨.quote d s, by rw [Atomic, Balanced.surface_quote]; rfl⟩

end Shielded

end

end SqlQuery.Sql
