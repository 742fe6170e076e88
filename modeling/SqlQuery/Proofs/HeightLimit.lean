import SqlQuery.Proofs.CountedHeight
import SqlQuery.Proofs.FilterRoundTrip

/-!
# How tall trees get

A filter or a closure that is accepted gives a tree that passes `Expr.maxHeight` by no more than its overhang
(`height_le_of_accepted`): the limit is checked where an operator or a call in a chain is read, and not where a sign,
`not`, a call with arguments, an object or a sequence is put above. So the limit is passed, in the simplest case by
one `not` above a sum that is just as tall as can be (`tall_filter_accepted`).
-/

namespace SqlQuery

/-! ### Accepted trees -/

theorem Filter.counted_of_parse {text : String} {e : Expr} (h : Filter.parse text = .ok e) :
    ∃ count, Counted (2 * Expr.maxHeight - 1) e count := by
  unfold Filter.parse at h
  split at h
  · unfold Filter.parseTokens at h
    split at h
    · cases h
    · obtain ⟨p, hp, h⟩ := bind_eq_ok.1 h
      split at h
      · cases h
        exact ⟨p.height, (expression_counts _ hp).mono (by decide)⟩
      · cases h
  · cases h

theorem Closure.body_counts {operand : OperandParser} {limit : Nat} (ho : operand.Counts limit) {s after : Stream}
    {e : Expr} (h : body operand s = .ok (e, after)) : ∃ count, Counted (limit + 1) e count := by
  obtain ⟨brace, -, h⟩ := bind_eq_ok.1 h
  split at h
  · obtain ⟨t?, -, h⟩ := bind_eq_ok.1 h
    split at h
    · obtain ⟨⟨t, s₁⟩, -, h⟩ := bind_eq_ok.1 h
      obtain ⟨⟨o, s₂⟩, hr, h⟩ := bind_eq_ok.1 h
      obtain ⟨semicolon, -, h⟩ := bind_eq_ok.1 h
      obtain ⟨⟨u, s₃⟩, -, h⟩ := bind_eq_ok.1 h
      cases h
      exact ⟨o.height, (ho hr).mono (Nat.le_succ _)⟩
    · obtain ⟨isObject, -, h⟩ := bind_eq_ok.1 h
      split at h
      · obtain ⟨⟨o, s₁⟩, hr, h⟩ := bind_eq_ok.1 h
        cases h
        exact ⟨o.height, object_counts ho hr⟩
      · obtain ⟨⟨operands, s₁⟩, hi, h⟩ := bind_eq_ok.1 h
        cases h
        exact ⟨_, counted_above operands (items_forall ho hi) (by rw [Expr.height]) (by rw [Expr.overhang])⟩
  · obtain ⟨⟨o, s₁⟩, hr, h⟩ := bind_eq_ok.1 h
    cases h
    exact ⟨o.height, (ho hr).mono (Nat.le_succ _)⟩

theorem Closure.counted_of_translate {c : Closure} {e : Expr} (h : c.translate = .ok e) :
    ∃ count, Counted (2 * Expr.maxHeight) e count := by
  obtain ⟨⟨parameter, s₁⟩, -, h⟩ := bind_eq_ok.1 h
  obtain ⟨⟨e', s₂⟩, hb, h⟩ := bind_eq_ok.1 h
  obtain ⟨t?, -, h⟩ := bind_eq_ok.1 h
  split at h
  · cases h
    exact body_counts (expression_counts _ _) hb
  · cases h

/-! ### A sum as tall as can be -/

namespace Filter

/-- A member to which one is added some times. -/
def sums : Nat → Expr
  | 0 => .member "a"
  | n + 1 => .arithmetic .add (sums n) (.literal (.int 1))

theorem height_sums (n : Nat) : (sums n).height = n + 1 := by
  induction n with
  | zero => rfl
  | succ n ih =>
    rw [sums, Expr.height, ih, Expr.height]
    omega

theorem overhang_sums (n : Nat) : (sums n).overhang = 0 := by
  cases n with
  | zero => rw [sums, Expr.overhang]
  | succ n => rw [sums, Expr.overhang, if_neg (by simp)]

theorem printable_sums (n : Nat) : Printable (sums n) := by
  induction n with
  | zero => exact .member (by decide) (by decide)
  | succ n ih => exact .arithmetic (by decide) ih (.literal rfl)

theorem print_sums_succ (n : Nat) :
    print .minimal (sums (n + 1)) =
      print .minimal (sums n) ++ [.blank, .word "add", .blank, .literal (.int 1)] := by
  have hleft : Parens.minimal.wraps 5 (strength (sums n)) = false := by cases n <;> rfl
  rw [sums, print]
  show wrapped (Parens.minimal.wraps 5 (strength (sums n))) _ ++ _ ++ wrapped false _ = _
  rw [hleft, wrapped, wrapped, print, List.append_assoc]
  rfl

theorem symbolsText_sums (n : Nat) :
    symbolsText (print .minimal (sums n)) = 'a' :: (List.replicate n " add 1".toList).flatten := by
  induction n with
  | zero => decide +kernel
  | succ n ih =>
    rw [print_sums_succ, symbolsText, List.flatMap_append, ← symbolsText, ih, List.replicate_succ',
      List.flatten_append]
    rfl

/-- The count of a sum is its height. -/
theorem level_run_sums {n depth minPower : Nat} {front rest : List Token} (last : Nat) (hd : 1 ≤ depth)
    (hn : n < Expr.maxHeight) (hm : minPower ≤ 50) (hf : front.map Token.lexeme = lexemes (print .minimal (sums n)))
    (hr : Closes 51 rest) :
    ∃ last', (level (expression depth)).run minPower ⟨last, front ++ rest⟩ =
      operations (expression depth) minPower (sums n) (n + 1) ⟨last', rest⟩ := by
  induction n generalizing front rest with
  | zero =>
    obtain ⟨last', h⟩ := primary_member last (by decide) hf hr
    exact ⟨last', level_run_of_primary h⟩
  | succ n ih =>
    rw [print_sums_succ, lexemes_append] at hf
    obtain ⟨front, more, rfl, hfront, hmore⟩ := List.map_eq_append_iff.1 hf
    obtain ⟨t, more, rfl, ht, hmore⟩ := List.map_eq_cons_iff.1 hmore
    obtain ⟨u, rfl, hu⟩ := List.map_eq_singleton_iff.1 hmore
    have hword : t.lexeme = .word (BinaryOp.arithmetic .add).word := ht
    have hcloses : Closes 51 (t :: u :: rest) := .operator hword (by decide) (by decide)
    obtain ⟨last', hrun⟩ := ih (by omega) hfront hcloses
    -- the literal is an operand of its own, one level deeper
    have hone : (expression depth).run 51 ⟨t.start, u :: rest⟩ = .ok ⟨.literal (.int 1), 1, ⟨u.start, rest⟩⟩ := by
      obtain ⟨d, rfl⟩ : ∃ d, depth = d + 1 := ⟨depth - 1, by omega⟩
      refine (level_run_of_primary ?_).trans (operations_of_closes hr)
      simp [primary, hu, plainLiteral]
    have hadd : operation (expression depth) (.arithmetic .add) (sums n) (n + 1) ⟨t.start, u :: rest⟩ =
        .ok ⟨sums (n + 1), n + 2, ⟨u.start, rest⟩⟩ := by
      simp [operation, BinaryOp.power, hone, sums, bind, Except.bind, pure, Except.pure]
    refine ⟨u.start, ?_⟩
    rw [List.append_assoc]
    exact hrun.trans (operations_of_operation hword (by decide) hm hadd (by show n + 2 ≤ _; omega))

/-- `not` is put above a sum that reaches the limit by itself. -/
theorem parse_not_sums {n : Nat} (hn : n < Expr.maxHeight) :
    parse (String.ofList ("not a".toList ++ (List.replicate n " add 1".toList).flatten)) =
      .ok (.logical .not [sums n]) := by
  have hprint : print .minimal (.logical .not [sums n]) = .word "not" :: .blank :: print .minimal (sums n) := by
    have hwraps : Parens.minimal.wraps notStrength (strength (sums n)) = false := by cases n <;> rfl
    rw [print, hwraps, wrapped]
  have htext : "not a".toList ++ (List.replicate n " add 1".toList).flatten =
      symbolsText (print .minimal (.logical .not [sums n])) := by
    rw [hprint, symbolsText, List.flatMap_cons, List.flatMap_cons, ← symbolsText, symbolsText_sums]
    rfl
  have hscan := scannable_print .minimal (.negation (printable_sums n))
  obtain ⟨tokens, htokens, hlex⟩ := tokenize_symbols hscan.1 hscan.2
  rw [hprint, lexemes_word, lexemes_blank] at hlex
  obtain ⟨t, tokens, rfl, ht, hlex⟩ := List.map_eq_cons_iff.1 hlex
  have hoperand : ∃ last, (expression 255).run notPower ⟨t.start, tokens ++ []⟩ = .ok ⟨sums n, n + 1, ⟨last, []⟩⟩ := by
    have hdepth : 1 ≤ 254 := by decide
    obtain ⟨last, hrun⟩ := level_run_sums t.start hdepth hn (show notPower ≤ 50 by decide) hlex .nil
    exact ⟨last, hrun.trans (operations_of_closes .nil)⟩
  obtain ⟨last, hoperand⟩ := hoperand
  have hprimary : primary (expression 255) ⟨0, t :: tokens⟩ =
      .ok ⟨.logical .not [sums n], n + 2, ⟨last, []⟩⟩ := by
    rw [List.append_nil] at hoperand
    simp [primary, ht, hoperand, bind, Except.bind, pure, Except.pure]
  rw [htext]
  exact parse_of_run htokens ((level_run_of_primary hprimary).trans (operations_of_closes .nil))

end Filter

/-! ### The bound and how it is met -/

/-- A tree that is accepted is at most as tall as the limit and its overhang. -/
theorem height_le_of_accepted (source : String) (collections : Entries Collection) (e : Expr)
    (h : Filter.parse source = .ok e ∨ Closure.translate ⟨source, collections⟩ = .ok e) :
    e.height ≤ Expr.maxHeight + e.overhang ∧ e.height ≤ 2 * Expr.maxHeight := by
  rcases h with h | h
  · obtain ⟨_, hc⟩ := Filter.counted_of_parse h
    exact ⟨hc.overhang, (hc.height_le.trans hc.count_le).trans (Nat.sub_le _ _)⟩
  · obtain ⟨_, hc⟩ := Closure.counted_of_translate h
    exact ⟨hc.overhang, hc.height_le.trans hc.count_le⟩

/-- One level of overhang takes a filter one level past the limit. -/
theorem height_le_of_accepted_tall :
    ∃ e, Filter.parse (String.ofList ("not a".toList ++ (List.replicate 255 " add 1".toList).flatten)) = .ok e ∧
      e.height = 257 ∧ e.overhang = 1 ∧ e.height ≤ Expr.maxHeight + e.overhang ∧ e.height ≤ 2 * Expr.maxHeight := by
  have hparse := Filter.parse_not_sums (show 255 < Expr.maxHeight by decide)
  refine ⟨_, hparse, ?_, ?_, height_le_of_accepted _ [] _ (.inl hparse)⟩
  · rw [Expr.height, Expr.heights, Filter.height_sums, Expr.heights]
    decide
  · rw [Expr.overhang, Expr.overhangs, Filter.overhang_sums, Expr.overhangs]
    decide

/-- The limit is no bound: a filter is accepted of which the tree is taller. -/
theorem tall_filter_accepted :
    ∃ e, Filter.parse (String.ofList ("not a".toList ++ (List.replicate 255 " add 1".toList).flatten)) = .ok e ∧
      Expr.maxHeight < e.height := by
  refine ⟨_, Filter.parse_not_sums (by decide), ?_⟩
  rw [Expr.height, Expr.heights, Filter.height_sums]
  decide

end SqlQuery
