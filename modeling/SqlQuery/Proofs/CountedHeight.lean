import SqlQuery.Closure.Basic
import SqlQuery.Filter.Grammar
import SqlQuery.Proofs.EntryLookup

/-!
# The height that the grammars count

Both grammars count the height of a tree while they read it, and refuse a tree whose count passes
`Expr.maxHeight` after an operator or a call in a chain. The count is never less than the height
(`Counted.height_le`), and each level of nesting adds at most one to it. What no check follows are the levels that
stand above the outermost operators: signs, `not`, calls, objects and sequences. `Expr.overhang` is the number of
these, and a tree that was read is at most that much taller than `Expr.maxHeight`.
-/

namespace SqlQuery

namespace Expr

/-- The literal zero, from which a sign subtracts its operand. -/
def isZero : Expr → Bool
  | .literal (.int n) => n = 0
  | _ => false

mutual

/-- The levels above the outermost operators of a tree. -/
def overhang : Expr → Nat
  | .member _ => 0
  | .literal _ => 0
  | .arithmetic op left right => if op = .subtract ∧ left.isZero then right.overhang + 1 else 0
  | .comparison .. => 0
  | .logical op args => if op = .not then overhangs args + 1 else 0
  | .call _ args => overhangs args + 1
  | .sequence items => overhangs items + 1
  | .object members => memberOverhangs members + 1

/-- The most levels above the operators in a list. -/
def overhangs : List Expr → Nat
  | [] => 0
  | e :: es => max e.overhang (overhangs es)

/-- The most levels above the operators in an object's members. -/
def memberOverhangs : List (String × Expr) → Nat
  | [] => 0
  | (_, e) :: es => max e.overhang (memberOverhangs es)

end

theorem one_le_height (e : Expr) : 1 ≤ e.height := by
  cases e with
  | comparison op left right => cases right <;> simp [height]
  | _ => simp [height]

theorem heights_le_iff {es : List Expr} {n : Nat} : heights es ≤ n ↔ ∀ e ∈ es, e.height ≤ n := by
  induction es with
  | nil => simp [heights]
  | cons e es ih => rw [heights, Nat.max_le, ih, List.forall_mem_cons]

theorem heights_append (es fs : List Expr) : heights (es ++ fs) = max (heights es) (heights fs) := by
  induction es with
  | nil => simp [heights]
  | cons e es ih => simp [heights, ih, Nat.max_assoc]

theorem memberHeights_le_iff {es : List (String × Expr)} {n : Nat} :
    memberHeights es ≤ n ↔ ∀ e ∈ es, e.2.height ≤ n := by
  induction es with
  | nil => simp [memberHeights]
  | cons e es ih => rw [memberHeights, Nat.max_le, ih, List.forall_mem_cons]

theorem overhang_le_overhangs {e : Expr} {es : List Expr} (h : e ∈ es) : e.overhang ≤ overhangs es := by
  induction es with
  | nil => cases h
  | cons f es ih =>
    rw [overhangs]
    rcases List.mem_cons.1 h with rfl | h
    · exact Nat.le_max_left ..
    · exact Nat.le_trans (ih h) (Nat.le_max_right ..)

theorem overhang_le_memberOverhangs {e : String × Expr} {es : List (String × Expr)} (h : e ∈ es) :
    e.2.overhang ≤ memberOverhangs es := by
  induction es with
  | nil => cases h
  | cons f es ih =>
    rw [memberOverhangs]
    rcases List.mem_cons.1 h with rfl | h
    · exact Nat.le_max_left ..
    · exact Nat.le_trans (ih h) (Nat.le_max_right ..)

theorem height_negated_le (e : Expr) : e.negated.height ≤ e.height + 1 := by
  have := e.one_le_height
  unfold negated
  split
  · split <;> simp [height]
  · simp [height]
  · simp only [height]
    omega

/-- Joining two operands adds a level, except that one which goes into a list is below it already. -/
theorem height_combine (op : LogicalOp) (left right : Expr) :
    (left.combine op right).height =
      if left.absorbs op then max left.height (right.height + 1) else max left.height right.height + 1 := by
  have hpair : (Expr.logical op [left, right]).height = max left.height right.height + 1 := by
    simp [height, heights]
  unfold combine
  split
  · next lop args =>
    by_cases h : lop = op
    · simp only [h, absorbs, if_true, decide_true, height, heights_append, heights]
      omega
    · simp only [h, absorbs, if_false, decide_false, Bool.false_eq_true, hpair]
  · next hne =>
    have : left.absorbs op = false := by
      unfold absorbs
      split
      · next lop args => exact absurd rfl (hne lop args)
      · rfl
    rw [this, hpair]
    rfl

end Expr

/-- The count of a tree that has been read, where no count passes the limit. -/
structure Counted (limit : Nat) (e : Expr) (count : Nat) : Prop where
  height_le : e.height ≤ count
  count_le : count ≤ limit
  overhang : e.height ≤ Expr.maxHeight + e.overhang

namespace Counted

variable {limit count : Nat} {e : Expr}

theorem mono {limit' : Nat} (h : Counted limit e count) (hle : limit ≤ limit') : Counted limit' e count :=
  ⟨h.height_le, Nat.le_trans h.count_le hle, h.overhang⟩

theorem of_check (hh : e.height ≤ count) (hm : count ≤ Expr.maxHeight) (hl : Expr.maxHeight ≤ limit + 1) :
    Counted (limit + 1) e count :=
  ⟨hh, by omega, by omega⟩

theorem leaf (he : e.height = 1) (hl : 1 ≤ limit) : Counted limit e 1 :=
  ⟨by omega, hl, by rw [he, Expr.maxHeight]; omega⟩

theorem negated (h : Counted limit e count) : Counted (limit + 1) e.negated (count + 1) := by
  refine ⟨Nat.le_trans e.height_negated_le (Nat.succ_le_succ h.height_le), Nat.succ_le_succ h.count_le, ?_⟩
  have hover := h.overhang
  have hmax : 1 ≤ Expr.maxHeight := by decide
  unfold Expr.negated
  split
  · split <;> simp [Expr.height, Expr.overhang, Expr.isZero, Expr.maxHeight]
  · simpa [Expr.height, Expr.overhang] using hmax
  · simp only [Expr.height, Expr.overhang, Expr.isZero, decide_true, and_self, if_true]
    omega

/-- A node above some trees that no operator joins. -/
theorem above (es : List Expr) {top : Expr} (he : ∀ e ∈ es, ∃ n ≤ count, Counted limit e n)
    (hc : count ≤ limit) (hh : top.height = Expr.heights es + 1) (ho : top.overhang = Expr.overhangs es + 1) :
    Counted (limit + 1) top (count + 1) := by
  refine ⟨?_, Nat.succ_le_succ hc, ?_⟩
  · rw [hh]
    refine Nat.succ_le_succ (Expr.heights_le_iff.2 fun e hmem => ?_)
    obtain ⟨n, hn, h⟩ := he e hmem
    exact Nat.le_trans h.height_le hn
  · rw [hh, ho, ← Nat.add_assoc]
    refine Nat.succ_le_succ (Expr.heights_le_iff.2 fun e hmem => ?_)
    obtain ⟨n, -, h⟩ := he e hmem
    exact Nat.le_trans h.overhang (Nat.add_le_add_left (Expr.overhang_le_overhangs hmem) _)

end Counted

/-! ### Filters -/

namespace Filter

/-- What a reader of operands gives is counted. -/
def OperandParser.Counts (operand : OperandParser) (limit : Nat) : Prop :=
  ∀ {power : Nat} {s : Stream} {p : Parsed}, operand.run power s = .ok p → Counted limit p.expr p.height

/-- Each argument is counted, and none of the counts passes the one of them all. -/
def Arguments.Counts (list : Arguments) (limit : Nat) : Prop :=
  (∀ e ∈ list.args, ∃ n ≤ list.height, Counted limit e n) ∧ list.height ≤ limit

section Counts

variable {operand : OperandParser} {limit : Nat}

theorem Arguments.Counts.nil {s : Stream} : Arguments.Counts ⟨[], 0, s⟩ limit := ⟨nofun, Nat.zero_le _⟩

theorem Arguments.Counts.cons {p : Parsed} {list : Arguments} (hp : Counted limit p.expr p.height)
    (hl : list.Counts limit) :
    Arguments.Counts ⟨p.expr :: list.args, max p.height list.height, list.stream⟩ limit := by
  refine ⟨fun e he => ?_, Nat.max_le.2 ⟨hp.count_le, hl.2⟩⟩
  rcases List.mem_cons.1 he with rfl | he
  · exact ⟨p.height, Nat.le_max_left .., hp⟩
  · obtain ⟨n, hn, h⟩ := hl.1 e he
    exact ⟨n, Nat.le_trans hn (Nat.le_max_right ..), h⟩

theorem moreArguments_counts (ho : operand.Counts limit) {openedAt : Nat} {tokens : List Token} {list : Arguments}
    (h : moreArguments operand openedAt tokens = .ok list) : list.Counts limit := by
  fun_induction moreArguments operand openedAt tokens generalizing list with
  | case1 | case3 | case4 | case6 => cases h
  | case2 =>
    cases h
    exact .nil
  | case5 t rest _ _ p hp later hl ih =>
    cases h
    exact .cons (ho hp) (ih hl)

theorem arguments_counts (ho : operand.Counts limit) {s : Stream} {list : Arguments}
    (h : arguments operand s = .ok list) : list.Counts limit := by
  unfold arguments at h
  split at h
  · cases h
  · split at h
    · split at h
      · cases h
      · split at h
        · cases h
          exact .nil
        · obtain ⟨p, hp, h⟩ := bind_eq_ok.1 h
          obtain ⟨more, hm, h⟩ := bind_eq_ok.1 h
          cases h
          exact .cons (ho hp) (moreArguments_counts ho hm)
    · cases h

theorem mem_orderArguments {name : String} {args : List Expr} {e : Expr} (h : e ∈ orderArguments name args) :
    e ∈ args := by
  unfold orderArguments at h
  split at h
  · split at h
    · simp only [List.mem_cons, List.not_mem_nil, or_false] at h ⊢
      exact h.symm
    · exact h
  · exact h

theorem methodCall_counts (ho : operand.Counts limit) {name : String} {position : Nat} {s : Stream} {p : Parsed}
    (h : methodCall operand name position s = .ok p) : Counted (limit + 1) p.expr p.height := by
  unfold methodCall at h
  split at h
  · cases h
  · obtain ⟨list, hl, h⟩ := bind_eq_ok.1 h
    split at h
    · cases h
      obtain ⟨hargs, hheight⟩ := arguments_counts ho hl
      exact .above _ (fun e he => hargs e (mem_orderArguments he)) hheight (by rw [Expr.height])
        (by rw [Expr.overhang])
    · cases h

theorem primary_counts (ho : operand.Counts limit) {s : Stream} {p : Parsed} (h : primary operand s = .ok p) :
    Counted (limit + 1) p.expr p.height := by
  unfold primary at h
  split at h
  · cases h
  · dsimp only at h
    split at h
    · obtain ⟨q, hq, h⟩ := bind_eq_ok.1 h
      split at h
      · split at h
        · cases h
          exact (ho hq).mono (Nat.le_succ _)
        · cases h
      · cases h
    · obtain ⟨q, hq, h⟩ := bind_eq_ok.1 h
      cases h
      exact (ho hq).negated
    · cases h
    · cases h
      exact .leaf (by rw [Expr.height]) (Nat.le_add_left ..)
    · split at h
      · obtain ⟨q, hq, h⟩ := bind_eq_ok.1 h
        cases h
        refine .above [q.expr] (fun e he => ?_) (ho hq).count_le (by rw [Expr.height])
          (by rw [Expr.overhang, if_pos rfl])
        cases List.mem_singleton.1 he
        exact ⟨q.height, Nat.le_refl _, ho hq⟩
      · split at h
        · cases h
        · unfold wordOperand at h
          split at h
          · exact methodCall_counts ho h
          · obtain ⟨r, -, h⟩ := bind_eq_ok.1 h
            cases h
            exact .leaf (by rw [Expr.height]) (Nat.le_add_left ..)

/-- An operator is counted as one level more than its operands. -/
theorem operation_height_le (ho : operand.Counts limit) {op : BinaryOp} {left : Expr} {count : Nat} {s : Stream}
    {p : Parsed} (hl : left.height ≤ count) (h : operation operand op left count s = .ok p) :
    p.expr.height ≤ p.height := by
  unfold operation at h
  split at h
  · obtain ⟨⟨values, after⟩, -, h⟩ := bind_eq_ok.1 h
    cases h
    simp only [Expr.height]
    omega
  · obtain ⟨q, hq, h⟩ := bind_eq_ok.1 h
    cases h
    have := (ho hq).height_le
    simp only [Expr.height_combine]
    split <;> omega
  · obtain ⟨q, hq, h⟩ := bind_eq_ok.1 h
    cases h
    have := (ho hq).height_le
    simp only [Expr.height]
    omega
  · obtain ⟨q, hq, h⟩ := bind_eq_ok.1 h
    cases h
    have := (ho hq).height_le
    simp only [Expr.height]
    omega

theorem operations_counts (ho : operand.Counts limit) (hm : Expr.maxHeight ≤ limit + 1) {minPower count : Nat}
    {left : Expr} {s : Stream} {p : Parsed} (hl : Counted (limit + 1) left count)
    (h : operations operand minPower left count s = .ok p) : Counted (limit + 1) p.expr p.height := by
  fun_induction operations operand minPower left count s with
  | case1 =>
    cases h
    exact hl
  | case2 | case3 => cases h
  | case4 left count s op after hop q hq hcheck ih =>
    -- the check that was passed bounds the count, whatever the operands were
    exact ih (.of_check (operation_height_le ho hl.height_le hq) (Nat.le_of_not_lt hcheck) hm) h

theorem level_counts (ho : operand.Counts limit) (hm : Expr.maxHeight ≤ limit + 1) :
    (level operand).Counts (limit + 1) := by
  intro power s p h
  obtain ⟨q, hq, h⟩ := bind_eq_ok.1 h
  exact operations_counts ho hm (primary_counts ho hq) h

/-- Each level of nesting adds at most one to what an operator chain can count up to. -/
theorem expression_counts (depth : Nat) : (expression depth).Counts (Expr.maxHeight - 1 + depth) := by
  induction depth with
  | zero => exact nofun
  | succ depth ih => exact level_counts ih (by omega)

end Counts

end Filter

/-! ### Closures -/

namespace Closure

/-- What a reader of operands gives is counted. -/
def OperandParser.Counts (operand : OperandParser) (limit : Nat) : Prop :=
  ∀ {power : Nat} {s after : Stream} {o : Sized}, (operand power).run s = .ok (o, after) →
    Counted limit o.expr o.height

theorem foldr_max_le_iff {α : Type} (f : α → Nat) {as : List α} {n : Nat} :
    as.foldr (fun a h => max (f a) h) 0 ≤ n ↔ ∀ a ∈ as, f a ≤ n := by
  induction as with
  | nil => simp
  | cons a as ih => rw [List.foldr_cons, Nat.max_le, ih, List.forall_mem_cons]

theorem tallest_le_iff {operands : List Sized} {n : Nat} : tallest operands ≤ n ↔ ∀ o ∈ operands, o.height ≤ n :=
  foldr_max_le_iff Sized.height

/-- What holds of all that an item's reader gives holds of the items of a list. -/
theorem items_forall {α : Type} {item : Reader α} {P : α → Prop}
    (hP : ∀ {s after : Stream} {a : α}, item.run s = .ok (a, after) → P a) {close : TokenKind}
    {separators : List TokenKind} {what : String} {s after : Stream} {as : List α}
    (h : items item close separators what s = .ok (as, after)) : ∀ a ∈ as, P a := by
  fun_induction items item close separators what s generalizing as after with
  | case1 | case3 | case4 | case6 | case8 => cases h
  | case2 =>
    cases h
    exact List.forall_mem_nil _
  | case5 s _ a s₁ ha t s₂ ht _ =>
    cases h
    exact List.forall_mem_singleton.2 (hP ha)
  | case7 s _ a s₁ ha t s₂ ht _ _ more rest hi ih =>
    cases h
    exact List.forall_mem_cons.2 ⟨hP ha, ih hi⟩

section Counts

variable {operand : OperandParser} {limit : Nat}

theorem counted_above (operands : List Sized) {top : Expr} (ho : ∀ o ∈ operands, Counted limit o.expr o.height)
    (hh : top.height = Expr.heights (operands.map Sized.expr) + 1)
    (hover : top.overhang = Expr.overhangs (operands.map Sized.expr) + 1) :
    Counted (limit + 1) top (tallest operands + 1) := by
  refine .above _ (fun e he => ?_) (tallest_le_iff.2 fun o hmem => (ho o hmem).count_le) hh hover
  obtain ⟨o, hmem, rfl⟩ := List.mem_map.1 he
  exact ⟨o.height, tallest_le_iff.1 (Nat.le_refl _) o hmem, ho o hmem⟩

theorem arguments_counts (ho : operand.Counts limit) {s after : Stream} {args : List Sized}
    (h : arguments operand s = .ok (args, after)) : ∀ o ∈ args, Counted limit o.expr o.height := by
  obtain ⟨⟨t, s₁⟩, -, h⟩ := bind_eq_ok.1 h
  exact items_forall ho h

/-- A call on a receiver that has been counted. -/
theorem receiverCall_counts (receiver : Sized) {name : String} {args : List Sized} {e : Expr}
    (hr : Counted limit receiver.expr receiver.height) (ha : ∀ o ∈ args, Counted limit o.expr o.height)
    (h : receiverCall name receiver.expr (args.map Sized.expr) = .ok e) :
    Counted (limit + 1) e (max receiver.height (tallest args) + 1) := by
  unfold receiverCall at h
  split at h
  · cases h
    exact counted_above (receiver :: args) (List.forall_mem_cons.2 ⟨hr, ha⟩)
      (by rw [Expr.height]; rfl) (by rw [Expr.overhang]; rfl)
  · cases h

theorem counted_above_single {o : Sized} {top : Expr} (ho : Counted limit o.expr o.height)
    (hh : top.height = Expr.heights [o.expr] + 1) (hover : top.overhang = Expr.overhangs [o.expr] + 1) :
    Counted (limit + 1) top (o.height + 1) := by
  have := counted_above [o] (List.forall_mem_singleton.2 ho) hh hover
  simpa [tallest] using this

theorem lengthOf_counts (receiver : Sized) (hr : Counted limit receiver.expr receiver.height) :
    Counted (limit + 1) (lengthOf receiver.expr) (receiver.height + 1) :=
  counted_above_single hr (by rw [lengthOf, Expr.height]) (by rw [lengthOf, Expr.overhang])

theorem array_counts (ho : operand.Counts limit) {s after : Stream} {o : Sized}
    (h : array operand s = .ok (o, after)) : Counted (limit + 1) o.expr o.height := by
  obtain ⟨⟨elements, s₁⟩, hi, h⟩ := bind_eq_ok.1 h
  cases h
  have helements : ∀ e ∈ elements, e.2 ≤ limit := by
    refine items_forall (fun {s after e} he => ?_) hi
    obtain ⟨⟨o, s₂⟩, hr, he⟩ := bind_eq_ok.1 he
    dsimp only at he
    split at he
    · cases he
      exact (ho hr).count_le
    · cases he
  refine ⟨?_, Nat.succ_le_succ ((foldr_max_le_iff Prod.snd).2 helements), ?_⟩
  · simp [Expr.height]
  · simp [Expr.height, Expr.overhang, Expr.maxHeight]

theorem object_counts (ho : operand.Counts limit) {s after : Stream} {o : Sized}
    (h : object operand s = .ok (o, after)) : Counted (limit + 1) o.expr o.height := by
  obtain ⟨⟨members, s₁⟩, hi, h⟩ := bind_eq_ok.1 h
  cases h
  have hmembers : ∀ m ∈ members, Counted limit m.2.expr m.2.height := by
    refine items_forall (fun {s after m} hm => ?_) hi
    obtain ⟨⟨key, s₁⟩, -, hm⟩ := bind_eq_ok.1 hm
    obtain ⟨name, -, hm⟩ := bind_eq_ok.1 hm
    obtain ⟨⟨colon, s₂⟩, -, hm⟩ := bind_eq_ok.1 hm
    obtain ⟨⟨o, s₃⟩, hr, hm⟩ := bind_eq_ok.1 hm
    cases hm
    exact ho hr
  -- of members with one key only the last is left, so the entries are among the members
  have hentries : ∀ e ∈ Entries.ofList (members.map fun m => (m.1, m.2.expr)),
      ∃ m ∈ members, e.2 = m.2.expr := by
    intro e he
    rcases Entries.mem_of_mem_insertAll he with he | he
    · obtain ⟨m, hm, rfl⟩ := List.mem_map.1 he
      exact ⟨m, hm, rfl⟩
    · cases he
  refine ⟨?_, Nat.succ_le_succ (tallest_le_iff.2 fun o hmem => ?_), ?_⟩
  · rw [Expr.height]
    refine Nat.succ_le_succ (Expr.memberHeights_le_iff.2 fun e he => ?_)
    obtain ⟨m, hm, heq⟩ := hentries e he
    rw [heq]
    exact Nat.le_trans (hmembers m hm).height_le
      (tallest_le_iff.1 (Nat.le_refl _) m.2 (List.mem_map_of_mem hm))
  · obtain ⟨m, hm, rfl⟩ := List.mem_map.1 hmem
    exact (hmembers m hm).count_le
  · rw [Expr.height, Expr.overhang, ← Nat.add_assoc]
    refine Nat.succ_le_succ (Expr.memberHeights_le_iff.2 fun e he => ?_)
    obtain ⟨m, hm, heq⟩ := hentries e he
    refine Nat.le_trans ?_ (Nat.add_le_add_left (Expr.overhang_le_memberOverhangs he) _)
    rw [heq]
    exact (hmembers m hm).overhang

theorem ownedPath_counts (ho : operand.Counts limit) (hl : 1 ≤ limit) {owner path : List String} {whole : String}
    {s after : Stream} {o : Sized} (h : ownedPath operand owner path whole s = .ok (o, after)) :
    Counted (limit + 1) o.expr o.height := by
  obtain ⟨called, -, h⟩ := bind_eq_ok.1 h
  have hmember : ∀ path : String, Counted limit (.member path) 1 := fun path => .leaf (by rw [Expr.height]) hl
  dsimp only at h
  split at h
  · cases h
  · split at h
    · split at h
      · cases h
      · obtain ⟨⟨args, s₁⟩, ha, h⟩ := bind_eq_ok.1 h
        obtain ⟨e, he, h⟩ := bind_eq_ok.1 h
        cases h
        rw [Nat.max_comm]
        exact receiverCall_counts ⟨_, 1⟩ (hmember _) (arguments_counts ho ha) he
    · split at h
      · cases h
        exact lengthOf_counts ⟨_, 1⟩ (hmember _)
      · cases h
        exact (hmember _).mono (Nat.le_succ _)

theorem freePath_counts (ho : operand.Counts limit) {path : List String} {s after : Stream} {o : Sized}
    (h : freePath operand path s = .ok (o, after)) : Counted (limit + 1) o.expr o.height := by
  obtain ⟨called, -, h⟩ := bind_eq_ok.1 h
  split at h
  · obtain ⟨⟨args, s₁⟩, ha, h⟩ := bind_eq_ok.1 h
    obtain ⟨m, -, h⟩ := bind_eq_ok.1 h
    cases h
    exact counted_above _ (arguments_counts ho ha) (by rw [Expr.height]) (by rw [Expr.overhang])
  · cases h

/-- A call in a chain is counted as one level more than its receiver and its arguments. -/
theorem link_height_le (ho : operand.Counts limit) {receiver o : Sized} {s after : Stream}
    (hr : receiver.expr.height ≤ receiver.height) (h : link operand receiver s = .ok (o, after)) :
    o.expr.height ≤ o.height := by
  obtain ⟨⟨word, s₁⟩, -, h⟩ := bind_eq_ok.1 h
  obtain ⟨called, -, h⟩ := bind_eq_ok.1 h
  split at h
  · obtain ⟨⟨args, s₂⟩, ha, h⟩ := bind_eq_ok.1 h
    obtain ⟨e, he, h⟩ := bind_eq_ok.1 h
    cases h
    unfold receiverCall at he
    split at he
    · cases he
      have hargs : Expr.heights (args.map (·.expr)) ≤ tallest args := by
        refine Expr.heights_le_iff.2 fun e he => ?_
        obtain ⟨o, hmem, rfl⟩ := List.mem_map.1 he
        exact Nat.le_trans (arguments_counts ho ha o hmem).height_le (tallest_le_iff.1 (Nat.le_refl _) o hmem)
      simp only [Expr.height, Expr.heights]
      omega
    · cases he
  · split at h
    · cases h
      simp only [lengthOf, Expr.height, Expr.heights]
      omega
    · cases h

theorem chain_counts (ho : operand.Counts limit) (hm : Expr.maxHeight ≤ limit + 1) {receiver o : Sized}
    {s after : Stream} (hr : Counted (limit + 1) receiver.expr receiver.height)
    (h : chain operand receiver s = .ok (o, after)) : Counted (limit + 1) o.expr o.height := by
  fun_induction chain operand receiver s with
  | case1 | case3 | case4 => cases h
  | case2 =>
    cases h
    exact hr
  | case5 receiver s s₁ hd o₁ s₂ hl hcheck ih =>
    exact ih (.of_check (link_height_le ho hr.height_le hl) (Nat.le_of_not_lt hcheck) hm) h

theorem path_counts (ho : operand.Counts limit) (hm : Expr.maxHeight ≤ limit + 1) {scope : Scope} {first : String}
    {s after : Stream} {o : Sized} (h : path scope operand first s = .ok (o, after)) :
    Counted (limit + 1) o.expr o.height := by
  obtain ⟨⟨segments, s₁⟩, -, h⟩ := bind_eq_ok.1 h
  obtain ⟨⟨o₁, s₂⟩, hp, h⟩ := bind_eq_ok.1 h
  refine chain_counts ho hm ?_ h
  unfold pathOperand at hp
  split at hp
  · have : 1 ≤ limit := Nat.le_of_succ_le_succ (Nat.le_trans (by decide) hm)
    exact ownedPath_counts ho this hp
  · exact freePath_counts ho hp

theorem primary_counts (ho : operand.Counts limit) (hm : Expr.maxHeight ≤ limit + 1) {scope : Scope}
    {s after : Stream} {o : Sized} (h : primary scope operand s = .ok (o, after)) :
    Counted (limit + 1) o.expr o.height := by
  obtain ⟨⟨t, s₁⟩, -, h⟩ := bind_eq_ok.1 h
  dsimp only at h
  split at h
  · obtain ⟨e, he, h⟩ := bind_eq_ok.1 h
    cases h
    unfold number at he
    dsimp only at he
    split at he <;> cases he
    exact .leaf (by rw [Expr.height]) (Nat.le_add_left ..)
  · cases h
    exact .leaf (by rw [Expr.height]) (Nat.le_add_left ..)
  · cases h
    exact .leaf (by rw [Expr.height]) (Nat.le_add_left ..)
  · obtain ⟨⟨o₁, s₂⟩, hr, h⟩ := bind_eq_ok.1 h
    obtain ⟨⟨u, s₃⟩, -, h⟩ := bind_eq_ok.1 h
    cases h
    exact (ho hr).mono (Nat.le_succ _)
  · exact object_counts ho h
  · exact array_counts ho h
  · obtain ⟨⟨o₁, s₂⟩, hr, h⟩ := bind_eq_ok.1 h
    cases h
    exact (ho hr).negated
  · obtain ⟨⟨o₁, s₂⟩, hr, h⟩ := bind_eq_ok.1 h
    cases h
    exact counted_above_single (ho hr) (by rw [Expr.height]) (by rw [Expr.overhang, if_pos rfl])
  · split at h
    · cases h
      exact .leaf (by rw [Expr.height]) (Nat.le_add_left ..)
    · exact path_counts ho hm h
  · cases h

theorem apply_height_le {op : BinaryOp} {left right : Sized} (hl : left.expr.height ≤ left.height)
    (hr : right.expr.height ≤ right.height) : (op.apply left right).expr.height ≤ (op.apply left right).height := by
  cases op with
  | logical op =>
    simp only [BinaryOp.apply, Expr.height_combine]
    split <;> omega
  | comparison op | arithmetic op =>
    simp only [BinaryOp.apply, Expr.height]
    omega

theorem operations_counts (ho : operand.Counts limit) (hm : Expr.maxHeight ≤ limit + 1) {minPower : Nat}
    {left o : Sized} {s after : Stream} (hl : Counted (limit + 1) left.expr left.height)
    (h : operations operand minPower left s = .ok (o, after)) : Counted (limit + 1) o.expr o.height := by
  fun_induction operations operand minPower left s with
  | case1 | case3 | case4 => cases h
  | case2 =>
    cases h
    exact hl
  | case5 left s op s₁ hop right s₂ hr _ hcheck ih =>
    exact ih (.of_check (apply_height_le hl.height_le (ho hr).height_le) (Nat.le_of_not_lt hcheck) hm) h

theorem expression_counts (scope : Scope) (depth : Nat) :
    (expression scope depth).Counts (Expr.maxHeight - 1 + depth) := by
  induction depth with
  | zero => exact nofun
  | succ depth ih =>
    have hm : Expr.maxHeight ≤ Expr.maxHeight - 1 + depth + 1 := by omega
    intro power s after o h
    obtain ⟨⟨q, s₁⟩, hq, h⟩ := bind_eq_ok.1 h
    exact operations_counts ih hm (primary_counts ih hm hq) h

end Counts

end Closure

end SqlQuery
