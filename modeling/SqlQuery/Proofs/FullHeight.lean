import SqlQuery.Proofs.ClosureDescent
import SqlQuery.Proofs.FilterDescent
import SqlQuery.Proofs.GrammaticalTrees

/-!
# The height with literal lists

A literal is a leaf of a tree, but one that is a list has items in turn, and what goes through a tree goes through them
too. `Expr.fullHeight` counts them. The count that the grammars keep bounds it, and what has been read is a front of the
tokens (`nesting_counted`).
-/

namespace SqlQuery

namespace Value

mutual

/-- A scalar has height one, a list or a document one more than its tallest item. -/
def height : Value → Nat
  | .array items => heights items + 1
  | .object entries => entryHeights entries + 1
  | _ => 1

/-- The greatest height in a list, zero if it is empty. -/
def heights : List Value → Nat
  | [] => 0
  | v :: vs => max v.height (heights vs)

/-- The greatest height in a document, zero if it is empty. -/
def entryHeights : List (String × Value) → Nat
  | [] => 0
  | (_, v) :: es => max v.height (entryHeights es)

end

theorem one_le_height (v : Value) : 1 ≤ v.height := by
  cases v <;> simp [height]

theorem heights_le_iff {vs : List Value} {n : Nat} : heights vs ≤ n ↔ ∀ v ∈ vs, v.height ≤ n := by
  induction vs with
  | nil => simp [heights]
  | cons v vs ih => rw [heights, Nat.max_le, ih, List.forall_mem_cons]

theorem height_of_isLiteral {v : Value} (h : Filter.isLiteral v = true) : v.height = 1 := by
  cases v <;> first | rfl | cases h

end Value

namespace Expr

mutual

/-- The height of a tree, in which the items of literal lists count. -/
def fullHeight : Expr → Nat
  | .member _ => 1
  | .literal value => value.height
  | .arithmetic _ left right => max left.fullHeight right.fullHeight + 1
  | .comparison _ left none => left.fullHeight + 1
  | .comparison _ left (some right) => max left.fullHeight right.fullHeight + 1
  | .logical _ args => fullHeights args + 1
  | .call _ args => fullHeights args + 1
  | .sequence items => fullHeights items + 1
  | .object members => memberFullHeights members + 1

/-- The greatest height in a list, zero if it is empty. -/
def fullHeights : List Expr → Nat
  | [] => 0
  | e :: es => max e.fullHeight (fullHeights es)

/-- The greatest height of an object's members, zero if there are none. -/
def memberFullHeights : List (String × Expr) → Nat
  | [] => 0
  | (_, e) :: es => max e.fullHeight (memberFullHeights es)

end

mutual

theorem height_le_fullHeight : ∀ e : Expr, e.height ≤ e.fullHeight
  | .member _ => Nat.le_refl 1
  | .literal value => value.one_le_height
  | .arithmetic _ left right => by
    have hl := height_le_fullHeight left
    have hr := height_le_fullHeight right
    simp only [height, fullHeight]
    omega
  | .comparison _ left none => Nat.succ_le_succ (height_le_fullHeight left)
  | .comparison _ left (some right) => by
    have hl := height_le_fullHeight left
    have hr := height_le_fullHeight right
    simp only [height, fullHeight]
    omega
  | .logical _ args => Nat.succ_le_succ (heights_le_fullHeights args)
  | .call _ args => Nat.succ_le_succ (heights_le_fullHeights args)
  | .sequence items => Nat.succ_le_succ (heights_le_fullHeights items)
  | .object members => Nat.succ_le_succ (memberHeights_le_memberFullHeights members)

theorem heights_le_fullHeights : ∀ es : List Expr, heights es ≤ fullHeights es
  | [] => Nat.le_refl 0
  | e :: es => by
    have he := height_le_fullHeight e
    have hes := heights_le_fullHeights es
    simp only [heights, fullHeights]
    omega

theorem memberHeights_le_memberFullHeights : ∀ es : List (String × Expr), memberHeights es ≤ memberFullHeights es
  | [] => Nat.le_refl 0
  | (_, e) :: es => by
    have he := height_le_fullHeight e
    have hes := memberHeights_le_memberFullHeights es
    simp only [memberHeights, memberFullHeights]
    omega

end

theorem one_le_fullHeight (e : Expr) : 1 ≤ e.fullHeight := Nat.le_trans e.one_le_height e.height_le_fullHeight

theorem fullHeights_le_iff {es : List Expr} {n : Nat} : fullHeights es ≤ n ↔ ∀ e ∈ es, e.fullHeight ≤ n := by
  induction es with
  | nil => simp [fullHeights]
  | cons e es ih => rw [fullHeights, Nat.max_le, ih, List.forall_mem_cons]

theorem fullHeights_append (es fs : List Expr) : fullHeights (es ++ fs) = max (fullHeights es) (fullHeights fs) := by
  induction es with
  | nil => simp [fullHeights]
  | cons e es ih => simp [fullHeights, ih, Nat.max_assoc]

theorem memberFullHeights_le_iff {es : List (String × Expr)} {n : Nat} :
    memberFullHeights es ≤ n ↔ ∀ e ∈ es, e.2.fullHeight ≤ n := by
  induction es with
  | nil => simp [memberFullHeights]
  | cons e es ih => rw [memberFullHeights, Nat.max_le, ih, List.forall_mem_cons]

theorem fullHeight_negated_le (e : Expr) : e.negated.fullHeight ≤ e.fullHeight + 1 := by
  have := e.one_le_fullHeight
  unfold negated
  split
  · split <;> simp [fullHeight, Value.height]
  · simp [fullHeight, Value.height]
  · simp only [fullHeight, Value.height]
    omega

theorem fullHeight_combine_le {op : LogicalOp} {left right : Expr} {n m : Nat} (hl : left.fullHeight ≤ n)
    (hr : right.fullHeight ≤ m) :
    (left.combine op right).fullHeight ≤ if left.absorbs op then max n (m + 1) else max n m + 1 := by
  have hpair : (Expr.logical op [left, right]).fullHeight ≤ max n m + 1 := by
    simp only [fullHeight, fullHeights]
    omega
  unfold combine
  split
  · next lop args =>
    by_cases h : lop = op
    · simp only [fullHeight] at hl
      simp only [h, absorbs, if_true, decide_true, fullHeight, fullHeights_append, fullHeights]
      omega
    · simpa [h, absorbs] using hpair
  · next hne =>
    have hfalse : left.absorbs op = false := by
      unfold absorbs
      split
      · next lop args => exact absurd rfl (hne lop args)
      · rfl
    simpa [hfalse] using hpair

end Expr

/-! ### Filters -/

namespace Filter

theorem LawfulTokens.of_suffix {tokens rest : List Token} (h : LawfulTokens tokens) (hs : rest <:+ tokens) :
    LawfulTokens rest :=
  fun t ht => h t (hs.mem ht)

/-- From tokens of a text, what a reader of operands gives is not taller than it counts, and is read from their
front. -/
def OperandParser.Measures (operand : OperandParser) : Prop :=
  ∀ {power : Nat} {s : Stream} {p : Parsed}, LawfulTokens s.rest → operand.run power s = .ok p →
    p.expr.fullHeight ≤ p.height ∧ p.stream.rest <:+ s.rest

theorem memberPath_suffix {path : String} {last : Nat} {tokens : List Token} {r : String × Stream}
    (h : memberPath path last tokens = .ok r) : r.2.rest <:+ tokens := by
  fun_induction memberPath path last tokens with
  | case1 | case3 | case6 =>
    cases h
    exact List.suffix_refl _
  | case2 | case5 => cases h
  | case4 _ _ t u rest _ name _ ih => exact (ih h).trans ((List.suffix_cons u rest).trans (List.suffix_cons t _))

theorem nextOperator?_suffix {minPower : Nat} {s after : Stream} {op : BinaryOp}
    (h : nextOperator? minPower s = some (op, after)) : after.rest <:+ s.rest := by
  unfold nextOperator? at h
  split at h
  · cases h
  · next t rest hs =>
    rw [hs]
    split at h
    · split at h
      · split at h <;> cases h
        exact List.suffix_cons t rest
      · cases h
    · cases h

section Measures

variable {operand : OperandParser} (ho : operand.Measures)
include ho

theorem moreArguments_measures {openedAt : Nat} {tokens : List Token} {list : Arguments} (ht : LawfulTokens tokens)
    (h : moreArguments operand openedAt tokens = .ok list) :
    Expr.fullHeights list.args ≤ list.height ∧ list.stream.rest <:+ tokens := by
  fun_induction moreArguments operand openedAt tokens generalizing list with
  | case1 | case3 | case4 | case6 => cases h
  | case2 t rest =>
    cases h
    exact ⟨Nat.le_refl 0, List.suffix_cons t rest⟩
  | case5 t rest _ _ p hp later hl ih =>
    cases h
    obtain ⟨hheight, hsuffix⟩ := ho ht.tail hp
    obtain ⟨hlater, hrest⟩ := ih (ht.tail.of_suffix hsuffix) hl
    refine ⟨?_, hrest.trans (hsuffix.trans (List.suffix_cons t rest))⟩
    simp only [Expr.fullHeights]
    omega

theorem arguments_measures {s : Stream} {list : Arguments} (ht : LawfulTokens s.rest)
    (h : arguments operand s = .ok list) :
    Expr.fullHeights list.args ≤ list.height ∧ list.stream.rest <:+ s.rest := by
  unfold arguments at h
  split at h
  · cases h
  · next t rest hs =>
    rw [hs] at ht ⊢
    split at h
    · split at h
      · cases h
      · next u later =>
        split at h
        · cases h
          exact ⟨Nat.le_refl 0, (List.suffix_cons u later).trans (List.suffix_cons t _)⟩
        · obtain ⟨p, hp, h⟩ := bind_eq_ok.1 h
          obtain ⟨more, hm, h⟩ := bind_eq_ok.1 h
          cases h
          obtain ⟨hheight, hsuffix⟩ := ho ht.tail hp
          obtain ⟨hmore, hrest⟩ := moreArguments_measures ho (ht.tail.of_suffix hsuffix) hm
          refine ⟨?_, hrest.trans (hsuffix.trans (List.suffix_cons t _))⟩
          simp only [Expr.fullHeights]
          omega
    · cases h

theorem methodCall_measures {name : String} {position : Nat} {s : Stream} {p : Parsed} (ht : LawfulTokens s.rest)
    (h : methodCall operand name position s = .ok p) : p.expr.fullHeight ≤ p.height ∧ p.stream.rest <:+ s.rest := by
  unfold methodCall at h
  split at h
  · cases h
  · obtain ⟨list, hl, h⟩ := bind_eq_ok.1 h
    split at h
    · cases h
      obtain ⟨hargs, hrest⟩ := arguments_measures ho ht hl
      refine ⟨Nat.succ_le_succ (Expr.fullHeights_le_iff.2 fun e he => ?_), hrest⟩
      exact Expr.fullHeights_le_iff.1 hargs e (mem_orderArguments he)
    · cases h

theorem primary_measures {s : Stream} {p : Parsed} (ht : LawfulTokens s.rest) (h : primary operand s = .ok p) :
    p.expr.fullHeight ≤ p.height ∧ p.stream.rest <:+ s.rest := by
  unfold primary at h
  split at h
  · cases h
  · next t rest hs =>
    rw [hs] at ht ⊢
    have hcons : rest <:+ t :: rest := List.suffix_cons t rest
    have hlexeme := ht t List.mem_cons_self
    dsimp only at h
    split at h
    · obtain ⟨q, hq, h⟩ := bind_eq_ok.1 h
      obtain ⟨hheight, hsuffix⟩ := ho ht.tail hq
      split at h
      · next u later hu =>
        split at h
        · cases h
          rw [hu] at hsuffix
          exact ⟨hheight, ((List.suffix_cons u later).trans hsuffix).trans hcons⟩
        · cases h
      · cases h
    · obtain ⟨q, hq, h⟩ := bind_eq_ok.1 h
      cases h
      obtain ⟨hheight, hsuffix⟩ := ho ht.tail hq
      exact ⟨Nat.le_trans q.expr.fullHeight_negated_le (Nat.succ_le_succ hheight), hsuffix.trans hcons⟩
    · cases h
    · next value kind tag hvalue =>
      cases h
      rw [hvalue] at hlexeme
      exact ⟨Nat.le_of_eq (Value.height_of_isLiteral hlexeme), hcons⟩
    · split at h
      · obtain ⟨q, hq, h⟩ := bind_eq_ok.1 h
        cases h
        obtain ⟨hheight, hsuffix⟩ := ho ht.tail hq
        refine ⟨?_, hsuffix.trans hcons⟩
        simp only [Expr.fullHeight, Expr.fullHeights]
        omega
      · split at h
        · cases h
        · unfold wordOperand at h
          split at h
          · obtain ⟨hheight, hsuffix⟩ := methodCall_measures ho ht.tail h
            exact ⟨hheight, hsuffix.trans hcons⟩
          · obtain ⟨r, hr, h⟩ := bind_eq_ok.1 h
            cases h
            exact ⟨Nat.le_refl 1, (memberPath_suffix hr).trans hcons⟩

theorem operation_measures (hy : operand.Yields) {op : BinaryOp} {left : Expr} {height : Nat} {s : Stream} {p : Parsed}
    (hl : left.fullHeight ≤ height) (ht : LawfulTokens s.rest) (h : operation operand op left height s = .ok p) :
    p.expr.fullHeight ≤ p.height ∧ p.stream.rest <:+ s.rest := by
  unfold operation at h
  split at h
  · obtain ⟨⟨values, after⟩, hlist, h⟩ := bind_eq_ok.1 h
    obtain ⟨list, hargs, hpair⟩ := bind_eq_ok.1 hlist
    obtain ⟨_, hvalues, hpair⟩ := bind_eq_ok.1 hpair
    cases hpair
    cases h
    -- the items are literals of tokens, so that the list has height two
    have hall := all_isLiteral_of_literalValues (arguments_yields hy ht hargs).1 hvalues
    have hitems : Value.heights values ≤ 1 :=
      Value.heights_le_iff.2 fun v hv => Nat.le_of_eq (Value.height_of_isLiteral (List.all_eq_true.1 hall v hv))
    refine ⟨?_, (arguments_measures ho ht hargs).2⟩
    simp only [Expr.fullHeight, Value.height]
    omega
  · obtain ⟨q, hq, h⟩ := bind_eq_ok.1 h
    cases h
    obtain ⟨hheight, hsuffix⟩ := ho ht hq
    exact ⟨Expr.fullHeight_combine_le hl hheight, hsuffix⟩
  all_goals
    obtain ⟨q, hq, h⟩ := bind_eq_ok.1 h
    cases h
    obtain ⟨hheight, hsuffix⟩ := ho ht hq
    refine ⟨?_, hsuffix⟩
    simp only [Expr.fullHeight]
    omega

theorem operations_measures (hy : operand.Yields) {minPower height : Nat} {left : Expr} {s : Stream} {p : Parsed}
    (hl : left.fullHeight ≤ height) (ht : LawfulTokens s.rest) (h : operations operand minPower left height s = .ok p) :
    p.expr.fullHeight ≤ p.height ∧ p.stream.rest <:+ s.rest := by
  fun_induction operations operand minPower left height s with
  | case1 =>
    cases h
    exact ⟨hl, List.suffix_refl _⟩
  | case2 | case3 => cases h
  | case4 left height s op after hop q hq _ ih =>
    have hafter := nextOperator?_suffix hop
    obtain ⟨hheight, hsuffix⟩ := operation_measures ho hy hl (ht.of_suffix hafter) hq
    obtain ⟨hlast, hrest⟩ := ih hheight (ht.of_suffix (hsuffix.trans hafter)) h
    exact ⟨hlast, hrest.trans (hsuffix.trans hafter)⟩

end Measures

theorem expression_measures (depth : Nat) : (expression depth).Measures := by
  induction depth with
  | zero =>
    intro power s p _ h
    cases h
  | succ depth ih =>
    intro power s p ht h
    obtain ⟨q, hq, h⟩ := bind_eq_ok.1 h
    obtain ⟨hheight, hsuffix⟩ := primary_measures ih ht hq
    obtain ⟨hlast, hrest⟩ := operations_measures ih (expression_yields depth) hheight (ht.of_suffix hsuffix) h
    exact ⟨hlast, hrest.trans hsuffix⟩

end Filter

/-! ### Closures -/

namespace Closure

theorem Stream.next_suffix {s after : Stream} {t : Token} (h : s.next = .ok (t, after)) : after.rest <:+ s.rest := by
  unfold next at h
  split at h <;> cases h
  next hs => 
    rw [hs]
    exact List.suffix_cons t _

theorem Stream.expect_suffix {kind : TokenKind} {what : String} {s after : Stream} {t : Token}
    (h : s.expect kind what = .ok (t, after)) : after.rest <:+ s.rest := by
  obtain ⟨⟨u, s₁⟩, hu, h⟩ := bind_eq_ok.1 h
  dsimp only at h
  split at h <;> cases h
  exact next_suffix hu

theorem Stream.accept_suffix {kind : TokenKind} {s after : Stream} (h : s.accept kind = .ok (some after)) :
    after.rest <:+ s.rest := by
  unfold accept at h
  split at h
  · next t rest hs =>
    split at h <;> cases h
    rw [hs]
    exact List.suffix_cons t rest
  · cases h
  · cases h

/-- What a reader of operands gives is not taller than it counts, and is read from the front of the tokens. -/
def OperandParser.Measures (operand : OperandParser) : Prop :=
  ∀ {power : Nat} {s after : Stream} {o : Sized}, (operand power).run s = .ok (o, after) →
    o.expr.fullHeight ≤ o.height ∧ after.rest <:+ s.rest

/-- What holds of all that an item's reader gives holds of the items of a list, which is read from the front. -/
theorem items_measures {α : Type} {item : Reader α} {P : α → Prop}
    (hP : ∀ {s after : Stream} {a : α}, item.run s = .ok (a, after) → P a ∧ after.rest <:+ s.rest) {close : TokenKind}
    {separators : List TokenKind} {what : String} {s after : Stream} {as : List α}
    (h : items item close separators what s = .ok (as, after)) : (∀ a ∈ as, P a) ∧ after.rest <:+ s.rest := by
  fun_induction items item close separators what s generalizing as after with
  | case1 | case3 | case4 | case6 | case8 => cases h
  | case2 s after' hs =>
    cases h
    exact ⟨List.forall_mem_nil _, Stream.accept_suffix hs⟩
  | case5 s _ a s₁ ha t s₂ ht _ =>
    cases h
    obtain ⟨hp, hsuffix⟩ := hP ha
    exact ⟨List.forall_mem_singleton.2 hp, (Stream.next_suffix ht).trans hsuffix⟩
  | case7 s _ a s₁ ha t s₂ ht _ _ more rest hi ih =>
    cases h
    obtain ⟨hp, hsuffix⟩ := hP ha
    obtain ⟨hmore, hrest⟩ := ih hi
    exact ⟨List.forall_mem_cons.2 ⟨hp, hmore⟩, hrest.trans ((Stream.next_suffix ht).trans hsuffix)⟩

theorem pathSegments_suffix {s after : Stream} {segments : List String}
    (h : pathSegments s = .ok (segments, after)) : after.rest <:+ s.rest := by
  fun_induction pathSegments s generalizing segments after with
  | case1 | case3 | case4 | case5 => cases h
  | case2 | case7 =>
    cases h
    exact List.suffix_refl _
  | case6 s _ _ _ _ s₁ hd word s₂ hw more rest hr ih =>
    cases h
    exact (ih hr).trans ((Stream.expect_suffix hw).trans (Stream.next_suffix hd))

theorem nextOperator_suffix {minPower : Nat} {s after : Stream} {op : BinaryOp}
    (h : nextOperator minPower s = .ok (some (op, after))) : after.rest <:+ s.rest := by
  unfold nextOperator at h
  split at h
  · next t rest hs =>
    split at h
    · rw [Except.ok.injEq] at h
      split at h <;> cases h
      rw [hs]
      exact List.suffix_cons t rest
    · cases h
  · cases h
  · cases h

theorem fullHeights_le_tallest {operands : List Sized} (h : ∀ o ∈ operands, o.expr.fullHeight ≤ o.height) :
    Expr.fullHeights (operands.map Sized.expr) ≤ tallest operands := by
  refine Expr.fullHeights_le_iff.2 fun e he => ?_
  obtain ⟨o, hmem, rfl⟩ := List.mem_map.1 he
  exact Nat.le_trans (h o hmem) (tallest_le_iff.1 (Nat.le_refl _) o hmem)

theorem receiverCall_measures {name : String} {receiver e : Expr} {args : List Sized} {count : Nat}
    (h : receiverCall name receiver (args.map Sized.expr) = .ok e) (hr : receiver.fullHeight ≤ count)
    (ha : ∀ o ∈ args, o.expr.fullHeight ≤ o.height) : e.fullHeight ≤ max count (tallest args) + 1 := by
  have hargs := fullHeights_le_tallest ha
  unfold receiverCall at h
  split at h <;> cases h
  simp only [Expr.fullHeight, Expr.fullHeights]
  omega

theorem number_measures {t : Token} {e : Expr} (h : number t = .ok e) : e.fullHeight ≤ 1 := by
  have hvalue : ∀ {cs : List Char} {value : Value}, (if '.' ∈ cs then (Decimal.readFloat? cs).map Value.float
      else (Decimal.readInt64? cs).map Value.int) = some value → value.height = 1 := by
    intro cs value hvalue
    split at hvalue
    all_goals
      obtain ⟨x, -, rfl⟩ := Option.map_eq_some_iff.1 hvalue
      rfl
  unfold number at h
  dsimp only at h
  split at h <;> cases h
  next hsome => exact Nat.le_of_eq (hvalue hsome)

theorem height_of_wordLiteral? {word : String} {value : Value} (h : wordLiteral? word = some value) :
    value.height = 1 := by
  unfold wordLiteral? at h
  split at h <;> cases h <;> rfl

theorem apply_fullHeight_le {op : BinaryOp} {left right : Sized} (hl : left.expr.fullHeight ≤ left.height)
    (hr : right.expr.fullHeight ≤ right.height) :
    (op.apply left right).expr.fullHeight ≤ (op.apply left right).height := by
  cases op with
  | logical op => exact Expr.fullHeight_combine_le hl hr
  | comparison op | arithmetic op =>
    simp only [BinaryOp.apply, Expr.fullHeight]
    omega

section Measures

variable {operand : OperandParser} (ho : operand.Measures) {s after : Stream} {o : Sized}
include ho

theorem arguments_measures {args : List Sized} (h : arguments operand s = .ok (args, after)) :
    (∀ o ∈ args, o.expr.fullHeight ≤ o.height) ∧ after.rest <:+ s.rest := by
  obtain ⟨⟨t, s₁⟩, ht, h⟩ := bind_eq_ok.1 h
  obtain ⟨hargs, hsuffix⟩ := items_measures ho h
  exact ⟨hargs, hsuffix.trans (Stream.expect_suffix ht)⟩

theorem array_measures (h : array operand s = .ok (o, after)) :
    o.expr.fullHeight ≤ o.height ∧ after.rest <:+ s.rest := by
  obtain ⟨⟨elements, s₁⟩, hi, h⟩ := bind_eq_ok.1 h
  cases h
  have helement : ∀ {s after : Stream} {e : Value × Nat}, (element operand).run s = .ok (e, after) →
      e.1.height ≤ e.2 ∧ after.rest <:+ s.rest := by
    intro s after e he
    obtain ⟨⟨o, s₂⟩, hr, he⟩ := bind_eq_ok.1 he
    obtain ⟨hheight, hsuffix⟩ := ho hr
    dsimp only at he
    split at he
    · next value hvalue =>
      cases he
      rw [hvalue] at hheight
      exact ⟨hheight, hsuffix⟩
    · cases he
  obtain ⟨helements, hsuffix⟩ := items_measures helement hi
  refine ⟨Nat.succ_le_succ (Value.heights_le_iff.2 fun v hv => ?_), hsuffix⟩
  obtain ⟨e, he, rfl⟩ := List.mem_map.1 hv
  exact Nat.le_trans (helements e he) ((foldr_max_le_iff Prod.snd).1 (Nat.le_refl _) e he)

theorem object_measures (h : object operand s = .ok (o, after)) :
    o.expr.fullHeight ≤ o.height ∧ after.rest <:+ s.rest := by
  obtain ⟨⟨members, s₁⟩, hi, h⟩ := bind_eq_ok.1 h
  cases h
  have hmember : ∀ {s after : Stream} {m : String × Sized}, (member operand).run s = .ok (m, after) →
      m.2.expr.fullHeight ≤ m.2.height ∧ after.rest <:+ s.rest := by
    intro s after m hm
    obtain ⟨⟨key, s₁⟩, hk, hm⟩ := bind_eq_ok.1 hm
    obtain ⟨name, -, hm⟩ := bind_eq_ok.1 hm
    obtain ⟨⟨colon, s₂⟩, hc, hm⟩ := bind_eq_ok.1 hm
    obtain ⟨⟨o, s₃⟩, hr, hm⟩ := bind_eq_ok.1 hm
    cases hm
    obtain ⟨hheight, hsuffix⟩ := ho hr
    exact ⟨hheight, hsuffix.trans ((Stream.expect_suffix hc).trans (Stream.next_suffix hk))⟩
  obtain ⟨hmembers, hsuffix⟩ := items_measures hmember hi
  refine ⟨Nat.succ_le_succ (Expr.memberFullHeights_le_iff.2 fun e he => ?_), hsuffix⟩
  rcases Entries.mem_of_mem_insertAll he with he | he
  · obtain ⟨m, hm, rfl⟩ := List.mem_map.1 he
    exact Nat.le_trans (hmembers m hm) (tallest_le_iff.1 (Nat.le_refl _) m.2 (List.mem_map_of_mem hm))
  · cases he

theorem ownedPath_measures {owner path : List String} {whole : String}
    (h : ownedPath operand owner path whole s = .ok (o, after)) :
    o.expr.fullHeight ≤ o.height ∧ after.rest <:+ s.rest := by
  obtain ⟨called, -, h⟩ := bind_eq_ok.1 h
  dsimp only at h
  split at h
  · cases h
  · split at h
    · split at h
      · cases h
      · obtain ⟨⟨args, s₁⟩, ha, h⟩ := bind_eq_ok.1 h
        obtain ⟨e, he, h⟩ := bind_eq_ok.1 h
        cases h
        obtain ⟨hargs, hsuffix⟩ := arguments_measures ho ha
        refine ⟨?_, hsuffix⟩
        rw [Nat.max_comm]
        exact receiverCall_measures he (Nat.le_refl 1) hargs
    · split at h <;> cases h
      · exact ⟨Nat.le_refl 2, List.suffix_refl _⟩
      · exact ⟨Nat.le_refl 1, List.suffix_refl _⟩

theorem freePath_measures {path : List String} (h : freePath operand path s = .ok (o, after)) :
    o.expr.fullHeight ≤ o.height ∧ after.rest <:+ s.rest := by
  obtain ⟨called, -, h⟩ := bind_eq_ok.1 h
  split at h
  · obtain ⟨⟨args, s₁⟩, ha, h⟩ := bind_eq_ok.1 h
    obtain ⟨m, -, h⟩ := bind_eq_ok.1 h
    cases h
    obtain ⟨hargs, hsuffix⟩ := arguments_measures ho ha
    exact ⟨Nat.succ_le_succ (fullHeights_le_tallest hargs), hsuffix⟩
  · cases h

theorem link_measures {receiver : Sized} (hr : receiver.expr.fullHeight ≤ receiver.height)
    (h : link operand receiver s = .ok (o, after)) : o.expr.fullHeight ≤ o.height ∧ after.rest <:+ s.rest := by
  obtain ⟨⟨word, s₁⟩, hw, h⟩ := bind_eq_ok.1 h
  have hword := Stream.expect_suffix hw
  obtain ⟨called, -, h⟩ := bind_eq_ok.1 h
  split at h
  · obtain ⟨⟨args, s₂⟩, ha, h⟩ := bind_eq_ok.1 h
    obtain ⟨e, he, h⟩ := bind_eq_ok.1 h
    cases h
    obtain ⟨hargs, hsuffix⟩ := arguments_measures ho ha
    exact ⟨receiverCall_measures he hr hargs, hsuffix.trans hword⟩
  · split at h <;> cases h
    refine ⟨?_, hword⟩
    simp only [lengthOf, Expr.fullHeight, Expr.fullHeights]
    omega

theorem chain_measures {receiver : Sized} (hr : receiver.expr.fullHeight ≤ receiver.height)
    (h : chain operand receiver s = .ok (o, after)) : o.expr.fullHeight ≤ o.height ∧ after.rest <:+ s.rest := by
  fun_induction chain operand receiver s with
  | case1 | case3 | case4 => cases h
  | case2 =>
    cases h
    exact ⟨hr, List.suffix_refl _⟩
  | case5 receiver s s₁ hd o₁ s₂ hl _ ih =>
    obtain ⟨hheight, hsuffix⟩ := link_measures ho hr hl
    obtain ⟨hlast, hrest⟩ := ih hheight h
    exact ⟨hlast, hrest.trans (hsuffix.trans (Stream.accept_suffix hd))⟩

theorem path_measures {scope : Scope} {first : String} (h : path scope operand first s = .ok (o, after)) :
    o.expr.fullHeight ≤ o.height ∧ after.rest <:+ s.rest := by
  obtain ⟨⟨segments, s₁⟩, hs, h⟩ := bind_eq_ok.1 h
  obtain ⟨⟨o₁, s₂⟩, hp, h⟩ := bind_eq_ok.1 h
  have hoperand : o₁.expr.fullHeight ≤ o₁.height ∧ s₂.rest <:+ s₁.rest := by
    unfold pathOperand at hp
    split at hp
    · exact ownedPath_measures ho hp
    · exact freePath_measures ho hp
  obtain ⟨hheight, hsuffix⟩ := chain_measures ho hoperand.1 h
  exact ⟨hheight, hsuffix.trans (hoperand.2.trans (pathSegments_suffix hs))⟩

theorem primary_measures {scope : Scope} (h : primary scope operand s = .ok (o, after)) :
    o.expr.fullHeight ≤ o.height ∧ after.rest <:+ s.rest := by
  obtain ⟨⟨t, s₁⟩, ht, h⟩ := bind_eq_ok.1 h
  have hnext := Stream.next_suffix ht
  suffices hlater : o.expr.fullHeight ≤ o.height ∧ after.rest <:+ s₁.rest from ⟨hlater.1, hlater.2.trans hnext⟩
  dsimp only at h
  split at h
  · obtain ⟨e, he, h⟩ := bind_eq_ok.1 h
    cases h
    exact ⟨number_measures he, List.suffix_refl _⟩
  · cases h
    exact ⟨Nat.le_refl 1, List.suffix_refl _⟩
  · cases h
    exact ⟨Nat.le_refl 1, List.suffix_refl _⟩
  · obtain ⟨⟨o₁, s₂⟩, hr, h⟩ := bind_eq_ok.1 h
    obtain ⟨⟨u, s₃⟩, hu, h⟩ := bind_eq_ok.1 h
    cases h
    obtain ⟨hheight, hsuffix⟩ := ho hr
    exact ⟨hheight, (Stream.expect_suffix hu).trans hsuffix⟩
  · exact object_measures ho h
  · exact array_measures ho h
  · obtain ⟨⟨o₁, s₂⟩, hr, h⟩ := bind_eq_ok.1 h
    cases h
    obtain ⟨hheight, hsuffix⟩ := ho hr
    exact ⟨Nat.le_trans o₁.expr.fullHeight_negated_le (Nat.succ_le_succ hheight), hsuffix⟩
  · obtain ⟨⟨o₁, s₂⟩, hr, h⟩ := bind_eq_ok.1 h
    cases h
    obtain ⟨hheight, hsuffix⟩ := ho hr
    refine ⟨?_, hsuffix⟩
    simp only [Expr.fullHeight, Expr.fullHeights]
    omega
  · split at h
    · next hvalue =>
      cases h
      exact ⟨Nat.le_of_eq (height_of_wordLiteral? hvalue), List.suffix_refl _⟩
    · exact path_measures ho h
  · cases h

theorem operations_measures {minPower : Nat} {left : Sized} (hl : left.expr.fullHeight ≤ left.height)
    (h : operations operand minPower left s = .ok (o, after)) :
    o.expr.fullHeight ≤ o.height ∧ after.rest <:+ s.rest := by
  fun_induction operations operand minPower left s with
  | case1 | case3 | case4 => cases h
  | case2 =>
    cases h
    exact ⟨hl, List.suffix_refl _⟩
  | case5 left s op s₁ hop right s₂ hr _ _ ih =>
    obtain ⟨hheight, hsuffix⟩ := ho hr
    obtain ⟨hlast, hrest⟩ := ih (apply_fullHeight_le hl hheight) h
    exact ⟨hlast, hrest.trans (hsuffix.trans (nextOperator_suffix hop))⟩

end Measures

theorem expression_measures (scope : Scope) (depth : Nat) : (expression scope depth).Measures := by
  induction depth with
  | zero =>
    intro power s after o h
    cases h
  | succ depth ih =>
    intro power s after o h
    obtain ⟨⟨q, s₁⟩, hq, h⟩ := bind_eq_ok.1 h
    obtain ⟨hheight, hsuffix⟩ := primary_measures ih hq
    obtain ⟨hlast, hrest⟩ := operations_measures ih hheight h
    exact ⟨hlast, hrest.trans hsuffix⟩

end Closure

/-- What has been taken from the front of some tokens. -/
theorem exists_taken {α : Type} {tokens rest : List α} (hs : rest <:+ tokens) (hlt : rest.length < tokens.length) :
    ∃ taken, taken ≠ [] ∧ tokens = taken ++ rest := by
  obtain ⟨taken, rfl⟩ := hs
  refine ⟨taken, ?_, rfl⟩
  rintro rfl
  exact Nat.lt_irrefl _ hlt

/-- Entered at some depth, at any place of a text, a reader of operands ends at that depth, with a tree or with a cause,
within as many rounds as there are tokens left and one more. The tree is at most as tall as it is counted, the count
leaves room for the levels that have been entered, and at least one token has been taken. -/
theorem nesting_counted :
    (∀ (text : String) (tokens : List Filter.Token) (s : Filter.Stream) (minPower d rounds : Nat),
      Filter.tokenize text = .ok tokens → s.rest <:+ tokens → s.rest.length < rounds →
      (∀ p, (Filter.expression (Expr.maxHeight - d)).run minPower s = .ok p →
        Filter.Program.expression rounds minPower ⟨s, d⟩ = some (.ok (p.expr, p.height), ⟨p.stream, d⟩) ∧
        p.expr.height ≤ p.expr.fullHeight ∧ p.expr.fullHeight ≤ p.height ∧ p.height + 1 + d ≤ 2 * Expr.maxHeight ∧
        ∃ taken, taken ≠ [] ∧ s.rest = taken ++ p.stream.rest) ∧
      (∀ cause, (Filter.expression (Expr.maxHeight - d)).run minPower s = .error cause →
        ∃ after, Filter.Program.expression rounds minPower ⟨s, d⟩ = some (.error cause, ⟨after, d⟩))) ∧
    (∀ (scope : Closure.Scope) (s : Closure.Stream) (minPower d rounds : Nat), s.rest.length < rounds →
      (∀ o after, (Closure.expression scope (Expr.maxHeight - d) minPower).run s = .ok (o, after) →
        Closure.Program.expression scope rounds minPower ⟨s, d⟩ = some (.ok o, ⟨after, d⟩) ∧
        o.expr.height ≤ o.expr.fullHeight ∧ o.expr.fullHeight ≤ o.height ∧ o.height + 1 + d ≤ 2 * Expr.maxHeight ∧
        ∃ taken, taken ≠ [] ∧ s.rest = taken ++ after.rest) ∧
      (∀ cause, (Closure.expression scope (Expr.maxHeight - d) minPower).run s = .error cause →
        ∃ after, Closure.Program.expression scope rounds minPower ⟨s, d⟩ = some (.error cause, ⟨after, d⟩))) := by
  -- no level is left for a reader that is entered too deep, and it gives no tree
  have hlevels : ∀ {count d : Nat}, d < Expr.maxHeight → count ≤ Expr.maxHeight - 1 + (Expr.maxHeight - d) →
      count + 1 + d ≤ 2 * Expr.maxHeight := by
    intro count d hd hcount
    omega
  constructor
  · intro text tokens s minPower d rounds htokens hs hrounds
    have hends := Filter.Program.expression_ends minPower d hrounds
    refine ⟨fun p hp => ?_, hends.error⟩
    have hd : d < Expr.maxHeight := by
      by_contra hle
      rw [Nat.sub_eq_zero_of_le (Nat.le_of_not_lt hle)] at hp
      cases hp
    obtain ⟨hheight, hsuffix⟩ :=
      Filter.expression_measures _ ((Filter.lawfulTokens_of_tokenize htokens).of_suffix hs) hp
    have hcount := (Filter.expression_counts _ hp).count_le
    exact ⟨hends.ok p hp, p.expr.height_le_fullHeight, hheight, hlevels hd hcount,
      exists_taken hsuffix (Filter.OperandParser.shorter _ hp)⟩
  · intro scope s minPower d rounds hrounds
    have hends := Closure.Program.expression_ends scope minPower d hrounds
    refine ⟨fun o after hp => ?_, hends.error⟩
    have hd : d < Expr.maxHeight := by
      by_contra hle
      rw [Nat.sub_eq_zero_of_le (Nat.le_of_not_lt hle)] at hp
      cases hp
    obtain ⟨hheight, hsuffix⟩ := Closure.expression_measures scope _ hp
    have hcount := (Closure.expression_counts scope _ hp).count_le
    exact ⟨hends.ok _ hp, o.expr.height_le_fullHeight, hheight, hlevels hd hcount,
      exists_taken hsuffix (Closure.Reader.shorter _ hp)⟩

/-- A sign on the last level but one, and a list in a list on the last three. -/
theorem nesting_counted_last :
    (∃ tokens after, Filter.tokenize "-a" = .ok tokens ∧
      Filter.Program.expression 3 0 ⟨⟨0, tokens⟩, 254⟩ =
        some (.ok (.arithmetic .subtract (.literal (.int 0)) (.member "a"), 2), ⟨after, 254⟩)) ∧
    (∃ after, Closure.Program.expression ⟨none, []⟩ 6 0 ⟨Closure.Stream.ofText "[[1]]", 253⟩ =
        some (.ok ⟨.literal (.array [.array [.int 1]]), 3⟩, ⟨after, 253⟩) ∧
      (Expr.literal (.array [.array [.int 1]])).fullHeight ≤ 3) := by
  have htokens : Filter.tokenize "-a" = .ok [⟨0, 1, .punctuation .minus⟩, ⟨1, 2, .word "a"⟩] := by
    with_unfolding_all rfl
  have hfilter : (Filter.expression (Expr.maxHeight - 254)).run 0
      ⟨0, [⟨0, 1, .punctuation .minus⟩, ⟨1, 2, .word "a"⟩]⟩ =
      .ok ⟨.arithmetic .subtract (.literal (.int 0)) (.member "a"), 2, ⟨1, []⟩⟩ := by
    with_unfolding_all rfl
  have hclosure : (Closure.expression ⟨none, []⟩ (Expr.maxHeight - 253) 0).run (Closure.Stream.ofText "[[1]]") =
      .ok (⟨.literal (.array [.array [.int 1]]), 3⟩, ⟨5, [], none⟩) := by
    with_unfolding_all rfl
  have hread := (nesting_counted.1 "-a" _ _ 0 254 3 htokens (List.suffix_refl _) (by decide)).1 _ hfilter
  have hrounds : (Closure.Stream.ofText "[[1]]").rest.length < 6 := by
    decide +kernel
  have hlist := (nesting_counted.2 ⟨none, []⟩ _ 0 253 6 hrounds).1 _ _ hclosure
  exact ⟨⟨_, _, htokens, hread.1⟩, _, hlist.1, hlist.2.2.1⟩

end SqlQuery
