import SqlQuery.Proofs.ClosureScanning
import SqlQuery.Proofs.FilterRoundTrip

/-!
# Printed closures parse back

A printed expression is read by `primary` in one piece, because operators stand in parentheses (`Reads`). Calls are
read as links of a chain, so that a method that is called on a member or on another call is read along with it
(`Receives`). The counted height is at most one more than the real one, because a sign is counted and is not a level
of the tree.
-/

namespace SqlQuery.Closure

open SqlQuery.Filter (segments segments_ne_nil)

/-! ### Tokens -/

section Tokens

variable {t : Token} {kind : TokenKind} {cs : List Char}

theorem kind_of_lexeme (h : t.lexeme = (kind, bytes cs)) : t.kind = kind := congrArg Prod.fst h

theorem text_of_lexeme {name : String} (h : t.lexeme = (kind, bytes name.toList)) : t.text = name := by
  have hbytes : t.bytes = bytes name.toList := congrArg Prod.snd h
  rw [Token.text, hbytes, decode_bytes, String.ofList_toList]

/-- Digits alone are an integer, if they fit. -/
theorem number_of_digits (h : t.lexeme = (.number, bytes cs)) (hd : cs.all Char.isDigit = true) :
    number t = (Decimal.readInt64? cs).elim (.error (.invalidNumber (String.ofList cs)))
      fun n => .ok (.literal (.int n)) := by
  have hdigits := List.all_eq_true.1 hd
  have hfilter : cs.filter (· ≠ '_') = cs := by
    refine List.filter_eq_self.2 fun c hc => decide_eq_true ?_
    rintro rfl
    exact absurd (hdigits '_' hc) (by decide)
  have hpoint : '.' ∉ cs := fun hc => absurd (hdigits '.' hc) (by decide)
  rw [← String.toList_ofList (l := cs)] at h
  rw [number, text_of_lexeme h]
  simp only [String.toList_ofList, hfilter, if_neg hpoint]
  cases Decimal.readInt64? cs <;> rfl

theorem number_of_lexeme {n : Int64} (hn : 0 ≤ n.toInt)
    (h : t.lexeme = (.number, bytes (Decimal.intText n.toInt).toList)) : number t = .ok (.literal (.int n)) := by
  obtain ⟨m, hm⟩ := Int.eq_ofNat_of_zero_le hn
  have hdigits : (Decimal.intText n.toInt).toList.all Char.isDigit = true := by
    rw [hm]
    exact (congrArg (List.all · Char.isDigit) String.toList_ofList).trans (Filter.toDigits_all_isDigit m)
  rw [number_of_digits h hdigits, Filter.readInt64?_intText, Option.elim_some]

end Tokens

/-! ### Steps of the stream -/

namespace Stream

variable {kind : TokenKind} {t : Token}

@[simp] theorem next_cons (position : Nat) (t : Token) (rest : List Token) :
    next ⟨position, t :: rest, none⟩ = .ok (t, ⟨t.stop, rest, none⟩) := rfl

theorem expect_of_kind (h : t.kind = kind) (what : String) (position : Nat) (rest : List Token) :
    expect kind what ⟨position, t :: rest, none⟩ = .ok (t, ⟨t.stop, rest, none⟩) := by
  simp [expect, h, bind, Except.bind, pure, Except.pure]

theorem accept_of_kind (h : t.kind = kind) (position : Nat) (rest : List Token) :
    accept kind ⟨position, t :: rest, none⟩ = .ok (some ⟨t.stop, rest, none⟩) := by
  simp [accept, h, after]

theorem accept_of_ne (h : t.kind ≠ kind) (position : Nat) (rest : List Token) :
    accept kind ⟨position, t :: rest, none⟩ = .ok none := by
  simp [accept, h]

end Stream

/-! ### What can follow an operand -/

/-- The token does not belong to an operand before it that requires the power. -/
def Ends (required : Nat) (t : Token) : Prop :=
  t.kind = .parenRight ∨ t.kind = .comma ∨ ∃ op, BinaryOp.ofKind? t.kind = some op ∧ op.power < required

/-- Nothing that follows belongs to an operand that requires the power. -/
def Closes (required : Nat) (rest : List Token) : Prop := ∀ t, rest.head? = some t → Ends required t

theorem ofKind?_kind : ∀ op ∈ operators, BinaryOp.ofKind? op.kind = some op := by decide

theorem power_lt_signPower (op : BinaryOp) : op.power < signPower := by
  cases op with
  | logical op => cases op <;> decide
  | comparison op => exact (by decide : 40 < signPower)
  | arithmetic op => cases op <;> decide

namespace Closes

variable {required : Nat} {t : Token} {rest : List Token}

theorem nil : Closes required [] := by simp [Closes]

theorem cons (h : Ends required t) : Closes required (t :: rest) := by simpa [Closes] using h

theorem parenRight (h : t.kind = .parenRight) : Closes required (t :: rest) := cons (.inl h)

theorem comma (h : t.kind = .comma) : Closes required (t :: rest) := cons (.inr (.inl h))

theorem operator {op : BinaryOp} (h : t.kind = op.kind) (ho : op ∈ operators) (hp : op.power < required) :
    Closes required (t :: rest) :=
  cons (.inr (.inr ⟨op, h ▸ ofKind?_kind op ho, hp⟩))

theorem imp {required' : Nat} (h : Closes required rest)
    (hp : ∀ op : BinaryOp, op.power < required → op.power < required') : Closes required' rest := by
  intro t ht
  rcases h t ht with hc | hc | ⟨op, ho, hlt⟩
  · exact .inl hc
  · exact .inr (.inl hc)
  · exact .inr (.inr ⟨op, ho, hp op hlt⟩)

theorem of_zero (h : Closes 0 rest) : Closes required rest := h.imp fun _ hp => absurd hp (Nat.not_lt_zero _)

theorem sign (h : Closes required rest) : Closes signPower rest := h.imp fun op _ => power_lt_signPower op

theorem nextOperator_eq (h : Closes required rest) (position : Nat) :
    nextOperator required ⟨position, rest, none⟩ = .ok none := by
  cases rest with
  | nil => rfl
  | cons t rest =>
    rcases h t rfl with hc | hc | ⟨op, ho, hlt⟩
    · simp [nextOperator, hc, BinaryOp.ofKind?]
    · simp [nextOperator, hc, BinaryOp.ofKind?]
    · simp [nextOperator, ho, Nat.not_le.2 hlt]

theorem not_link (h : Closes required (t :: rest)) :
    t.kind ≠ .dot ∧ t.kind ≠ .doubleColon ∧ t.kind ≠ .parenLeft := by
  rcases h t rfl with hc | hc | ⟨op, ho, -⟩
  · simp [hc]
  · simp [hc]
  · refine ⟨?_, ?_, ?_⟩ <;> intro hk <;> rw [hk] at ho <;> cases ho

theorem accept_dot (h : Closes required rest) (position : Nat) :
    Stream.accept .dot ⟨position, rest, none⟩ = .ok none := by
  cases rest with
  | nil => rfl
  | cons t rest => exact Stream.accept_of_ne h.not_link.1 position rest

theorem startsWith_parenLeft (h : Closes required rest) (position : Nat) :
    Stream.startsWith .parenLeft ⟨position, rest, none⟩ = .ok false := by
  cases rest with
  | nil => rfl
  | cons t rest => simp [Stream.startsWith, Stream.peek, h.not_link.2.2, bind, Except.bind, pure, Except.pure]

end Closes

/-! ### Steps of the loops -/

section Steps

variable {scope : Scope} {operand : OperandParser} {minPower position : Nat} {t : Token} {rest : List Token}

theorem operations_of_nextOperator {o : Sized} {s : Stream} (h : nextOperator minPower s = .ok none) :
    operations operand minPower o s = .ok (o, s) := by
  rw [operations]
  split
  · next cause hc => simp [h] at hc
  · rfl
  · next op after hop => simp [h] at hop

theorem operations_of_closes {o : Sized} (h : Closes minPower rest) :
    operations operand minPower o ⟨position, rest, none⟩ = .ok (o, ⟨position, rest, none⟩) :=
  operations_of_nextOperator (h.nextOperator_eq position)

theorem operations_of_operator {op : BinaryOp} {left right : Sized} {after : Stream} (ht : t.kind = op.kind)
    (ho : op ∈ operators) (hm : minPower ≤ op.power)
    (hr : (operand (op.power + 1)).run ⟨t.stop, rest, none⟩ = .ok (right, after))
    (hh : (op.apply left right).height ≤ Expr.maxHeight) :
    operations operand minPower left ⟨position, t :: rest, none⟩ =
      operations operand minPower (op.apply left right) after := by
  have hnext : nextOperator minPower ⟨position, t :: rest, none⟩ = .ok (some (op, ⟨t.stop, rest, none⟩)) := by
    simp [nextOperator, ht, ofKind?_kind op ho, hm, Stream.after]
  rw [operations]
  split
  · next cause hc => simp [hnext] at hc
  · next hn => simp [hnext] at hn
  · next op' s₁ hop =>
    obtain ⟨rfl, rfl⟩ : op = op' ∧ (⟨t.stop, rest, none⟩ : Stream) = s₁ := by simpa [hnext] using hop
    split
    · next cause hc => simp [hr] at hc
    · next right' s₂ hr' =>
      obtain ⟨rfl, rfl⟩ : right = right' ∧ after = s₂ := by simpa [hr] using hr'
      exact if_neg (Nat.not_lt.2 hh)

theorem level_run_of_primary {s after : Stream} {o : Sized} (h : primary scope operand s = .ok (o, after)) :
    (level scope operand minPower).run s = operations operand minPower o after := by
  show (primary scope operand s >>= _) = _
  rw [h]
  rfl

theorem chain_of_closes {o : Sized} (h : Closes minPower rest) :
    chain operand o ⟨position, rest, none⟩ = .ok (o, ⟨position, rest, none⟩) := by
  rw [chain]
  split
  · next cause hc => simp [h.accept_dot] at hc
  · rfl
  · next s₁ hd => simp [h.accept_dot] at hd

theorem chain_of_link {receiver o : Sized} {after : Stream} (ht : t.kind = .dot)
    (hl : link operand receiver ⟨t.stop, rest, none⟩ = .ok (o, after)) (hh : o.height ≤ Expr.maxHeight) :
    chain operand receiver ⟨position, t :: rest, none⟩ = chain operand o after := by
  have haccept := Stream.accept_of_kind ht position rest
  rw [chain]
  split
  · next cause hc => simp [haccept] at hc
  · next hn => simp [haccept] at hn
  · next s₁ hd =>
    obtain rfl : (⟨t.stop, rest, none⟩ : Stream) = s₁ := by simpa [haccept] using hd
    split
    · next cause hc => simp [hl] at hc
    · next o' s₂ hl' =>
      obtain ⟨rfl, rfl⟩ : o = o' ∧ after = s₂ := by simpa [hl] using hl'
      exact if_neg (Nat.not_lt.2 hh)

end Steps

/-! ### Reading an operand -/

section Operands

variable {spelling : Spelling} {scope : Scope} {e : Expr}

/-- The symbols of the expression are read as one operand. Each level of the tree takes at most two levels of the
grammar, one for the parentheses and one for an operand between them. -/
def Reads (spelling : Spelling) (scope : Scope) (e : Expr) : Prop :=
  ∀ (depth position : Nat) (front rest : List Token), 2 * e.height ≤ depth → e.height < Expr.maxHeight →
    front.map Token.lexeme = spelled (print spelling e) → Closes signPower rest →
    ∃ height position', height ≤ e.height + 1 ∧
      primary scope (expression scope depth) ⟨position, front ++ rest, none⟩ =
        .ok (⟨e, height⟩, ⟨position', rest, none⟩)

theorem Reads.operand {depth : Nat} {front rest : List Token} (he : Reads spelling scope e) (minPower position : Nat)
    (hd : 2 * e.height ≤ depth) (hh : e.height < Expr.maxHeight)
    (hf : front.map Token.lexeme = spelled (print spelling e)) (hr : Closes minPower rest) :
    ∃ height position', height ≤ e.height + 1 ∧
      (expression scope (depth + 1) minPower).run ⟨position, front ++ rest, none⟩ =
        .ok (⟨e, height⟩, ⟨position', rest, none⟩) := by
  obtain ⟨height, position', hle, hprimary⟩ := he depth position front rest hd hh hf hr.sign
  exact ⟨height, position', hle, (level_run_of_primary hprimary).trans (operations_of_closes hr)⟩

/-- Whatever a level reads between parentheses up to the closing one. -/
theorem reads_enclosed {symbols : List Symbol} (hprint : print spelling e = enclosed symbols)
    (hlevel : ∀ (depth position : Nat) (front rest : List Token), 2 * e.height ≤ depth + 1 →
      e.height < Expr.maxHeight → front.map Token.lexeme = spelled symbols → Closes 0 rest →
      ∃ height position', height ≤ e.height + 1 ∧
        (level scope (expression scope depth) 0).run ⟨position, front ++ rest, none⟩ =
          .ok (⟨e, height⟩, ⟨position', rest, none⟩)) :
    Reads spelling scope e := by
  intro depth position front rest hd hh hf _
  simp only [hprint, enclosed, spelled_mark, spelled_append, spelled_nil] at hf
  obtain ⟨t, inner, rfl, ht, hinner⟩ := List.map_eq_cons_iff.1 hf
  obtain ⟨body, close, rfl, hbody, hclose⟩ := List.map_eq_append_iff.1 hinner
  obtain ⟨u, rfl, hu⟩ := List.map_eq_singleton_iff.1 hclose
  obtain ⟨d, rfl⟩ : ∃ d, depth = d + 1 := ⟨depth - 1, by have := Filter.height_pos e; omega⟩
  have hopen := kind_of_lexeme ht
  have hclosed := kind_of_lexeme hu
  obtain ⟨height, position', hle, hrun⟩ := hlevel d t.stop body (u :: rest) hd hh hbody (.parenRight hclosed)
  refine ⟨height, u.stop, hle, ?_⟩
  have hoperand : (expression scope (d + 1) 0).run ⟨t.stop, body ++ u :: rest, none⟩ =
      .ok (⟨e, height⟩, ⟨position', u :: rest, none⟩) := hrun
  simp [primary, hopen, Stream.expect_of_kind hclosed, hoperand, bind, Except.bind, pure, Except.pure]

/-! ### Literals -/

theorem reads_number {n : Int64} {t : Token} {operand : OperandParser} (position : Nat) (rest : List Token)
    (hn : 0 ≤ n.toInt) (ht : t.lexeme = (.number, bytes (Decimal.intText n.toInt).toList)) :
    primary scope operand ⟨position, t :: rest, none⟩ = .ok (⟨.literal (.int n), 1⟩, ⟨t.stop, rest, none⟩) := by
  simp [primary, kind_of_lexeme ht, number_of_lexeme hn ht, bind, Except.bind, pure,
    Except.pure]

theorem negated_neg {n : Int64} (hn : n < 0) (hm : n ≠ Int64.minValue) :
    (Expr.literal (.int (-n))).negated = .literal (.int n) := by
  have hne : -n ≠ Int64.minValue := by
    intro h
    have := toInt_neg_nonneg hn hm
    rw [h] at this
    exact absurd this (by decide)
  rw [Expr.negated, if_neg hne, Int64.neg_neg]

theorem reads_literal {value : Value} (hv : Filter.isPlain value = true) (hm : value ≠ .int Int64.minValue) :
    Reads spelling scope (.literal value) := by
  intro depth position front rest hd hh hf hr
  have hword : ∀ {t : Token} {word : String}, t.lexeme = (.word, bytes word.toList) → wordLiteral? word = some value →
      primary scope (expression scope depth) ⟨position, t :: rest, none⟩ =
        .ok (⟨.literal value, 1⟩, ⟨t.stop, rest, none⟩) := by
    intro t word ht hw
    simp [primary, kind_of_lexeme ht, text_of_lexeme ht, hw, bind, Except.bind, pure,
      Except.pure]
  cases value with
  | null =>
    simp only [print, literalSymbols, spelled_word, spelled_nil] at hf
    obtain ⟨t, rfl, ht⟩ := List.map_eq_singleton_iff.1 hf
    exact ⟨1, t.stop, by simp, hword ht rfl⟩
  | bool b =>
    simp only [print, literalSymbols, spelled_word, spelled_nil] at hf
    obtain ⟨t, rfl, ht⟩ := List.map_eq_singleton_iff.1 hf
    exact ⟨1, t.stop, by simp, hword ht (by cases b <;> rfl)⟩
  | string s =>
    simp only [print, literalSymbols, spelled_string, spelled_nil] at hf
    obtain ⟨t, rfl, ht⟩ := List.map_eq_singleton_iff.1 hf
    refine ⟨1, t.stop, by simp, ?_⟩
    simp [primary, kind_of_lexeme ht, value_of_quoted ht, bind, Except.bind, pure,
      Except.pure]
  | int n =>
    have hmin : n ≠ Int64.minValue := fun h => hm (h ▸ rfl)
    by_cases hn : n < 0
    · -- The sign is an operator of its own, and counts as a level.
      simp only [print, literalSymbols, if_pos hn, spelled_mark, spelled_number, spelled_nil] at hf
      obtain ⟨t, inner, rfl, ht, hinner⟩ := List.map_eq_cons_iff.1 hf
      obtain ⟨u, rfl, hu⟩ := List.map_eq_singleton_iff.1 hinner
      obtain ⟨d, rfl⟩ : ∃ d, depth = d + 1 := ⟨depth - 1, by rw [Expr.height] at hd; omega⟩
      have hoperand : (expression scope (d + 1) signPower).run ⟨t.stop, u :: rest, none⟩ =
          .ok (⟨.literal (.int (-n)), 1⟩, ⟨u.stop, rest, none⟩) :=
        (level_run_of_primary (reads_number t.stop rest (toInt_neg_nonneg hn hmin) hu)).trans (operations_of_closes hr)
      refine ⟨2, u.stop, by rw [Expr.height], ?_⟩
      simp [primary, kind_of_lexeme ht, hoperand, negated_neg hn hmin, bind, Except.bind,
        pure, Except.pure]
    · simp only [print, literalSymbols, if_neg hn, spelled_number, spelled_nil] at hf
      obtain ⟨t, rfl, ht⟩ := List.map_eq_singleton_iff.1 hf
      have hpos : 0 ≤ n.toInt := Int64.le_iff_toInt_le.1 (Int64.not_lt.1 hn)
      exact ⟨1, t.stop, by simp, reads_number position rest hpos ht⟩
  | _ => simp [Filter.isPlain] at hv

/-! ### Operators -/

/-- An operand that is read, of a tree that fits under the levels left. -/
structure Fits (spelling : Spelling) (scope : Scope) (depth : Nat) (e : Expr) : Prop where
  reads : Reads spelling scope e
  depth_le : 2 * e.height ≤ depth
  height_lt : e.height < Expr.maxHeight

theorem reads_binary {op : BinaryOp} {left right : Expr} (ho : op ∈ operators)
    (hprint : print spelling e = enclosed (print spelling left ++ .operator op :: print spelling right))
    (hheight : e.height = max left.height right.height + 1)
    (happly : ∀ m n, op.apply ⟨left, m⟩ ⟨right, n⟩ = ⟨e, max m n + 1⟩) (hl : Reads spelling scope left)
    (hr : Reads spelling scope right) : Reads spelling scope e := by
  refine reads_enclosed hprint fun depth position front rest hd hh hf hc => ?_
  simp only [spelled_append, spelled_operator] at hf
  obtain ⟨first, more, rfl, hfirst, hmore⟩ := List.map_eq_append_iff.1 hf
  obtain ⟨t, second, rfl, ht, hsecond⟩ := List.map_eq_cons_iff.1 hmore
  have hop := kind_of_lexeme ht
  obtain ⟨d, rfl⟩ : ∃ d, depth = d + 1 := ⟨depth - 1, by have := Filter.height_pos left; omega⟩
  obtain ⟨m, position₁, hm, hleft⟩ := hl (d + 1) position first (t :: second ++ rest) (by omega) (by omega) hfirst
    (.operator hop ho (power_lt_signPower op))
  obtain ⟨n, position₂, hn, hright⟩ := hr.operand (op.power + 1) t.stop (show 2 * right.height ≤ d by omega)
    (by omega) hsecond hc.of_zero
  refine ⟨max m n + 1, position₂, by omega, ?_⟩
  rw [List.append_assoc, level_run_of_primary hleft, List.cons_append,
    operations_of_operator hop ho (Nat.zero_le _) hright (by rw [happly]; show max m n + 1 ≤ _; omega), happly]
  exact operations_of_closes hc

theorem reads_arithmetic {op : ArithmeticOp} {left right : Expr} (ho : op ≠ .bit) (hl : Reads spelling scope left)
    (hr : Reads spelling scope right) : Reads spelling scope (.arithmetic op left right) :=
  reads_binary (arithmetic_mem_operators ho) (by rw [print]) (by rw [Expr.height]) (fun _ _ => rfl) hl hr

theorem reads_comparison {op : ComparisonOp} {left right : Expr} (ho : op ≠ .isIn ∧ op ≠ .notIn)
    (hl : Reads spelling scope left) (hr : Reads spelling scope right) :
    Reads spelling scope (.comparison op left (some right)) :=
  reads_binary (comparison_mem_operators ho) (by rw [print]) (by rw [Expr.height]) (fun _ _ => rfl) hl hr

theorem reads_negation {arg : Expr} (ha : Reads spelling scope arg) : Reads spelling scope (.logical .not [arg]) := by
  refine reads_enclosed (by rw [print]) fun depth position front rest hd hh hf hc => ?_
  simp only [Expr.height, Expr.heights] at hd hh ⊢
  simp only [spelled_mark] at hf
  obtain ⟨t, front, rfl, ht, hfront⟩ := List.map_eq_cons_iff.1 hf
  obtain ⟨d, rfl⟩ : ∃ d, depth = d + 1 := ⟨depth - 1, by omega⟩
  obtain ⟨height, position', hle, hrun⟩ := ha.operand signPower t.stop (show 2 * arg.height ≤ d by omega) (by omega)
    hfront hc.sign
  have hprimary : primary scope (expression scope (d + 1)) ⟨position, t :: (front ++ rest), none⟩ =
      .ok (⟨.logical .not [arg], height + 1⟩, ⟨position', rest, none⟩) := by
    simp [primary, kind_of_lexeme ht, hrun, bind, Except.bind, pure, Except.pure]
  exact ⟨height + 1, position', by omega, (level_run_of_primary hprimary).trans (operations_of_closes hc)⟩

theorem closes_printOperands {op : LogicalOp} {args : List Expr} {front rest : List Token}
    (ho : op = .and ∨ op = .or) (hr : Closes 0 rest)
    (hf : front.map Token.lexeme = spelled (printOperands spelling op args)) :
    Closes ((BinaryOp.logical op).power + 1) (front ++ rest) := by
  cases args with
  | nil =>
    obtain rfl : front = [] := by simpa [printOperands] using hf
    exact hr.of_zero
  | cons e args =>
    simp only [printOperands, spelled_operator] at hf
    obtain ⟨t, front, rfl, ht, -⟩ := List.map_eq_cons_iff.1 hf
    exact .operator (kind_of_lexeme ht) (logical_mem_operators ho) (Nat.lt_succ_self _)

/-- The operands after the first join a chain one by one. -/
theorem operations_printOperands {op : LogicalOp} {depth : Nat} {front rest : List Token} {args : List Expr}
    (acc : List Expr) (height position : Nat) (ho : op = .and ∨ op = .or) (hr : Closes 0 rest)
    (ha : ∀ e ∈ args, Fits spelling scope depth e) (hh : Expr.heights args + 2 ≤ Expr.maxHeight)
    (hle : height ≤ Expr.maxHeight) (hf : front.map Token.lexeme = spelled (printOperands spelling op args)) :
    ∃ height' position', height' ≤ max height (Expr.heights args + 2) ∧
      operations (expression scope (depth + 1)) 0 ⟨.logical op acc, height⟩ ⟨position, front ++ rest, none⟩ =
        .ok (⟨.logical op (acc ++ args), height'⟩, ⟨position', rest, none⟩) := by
  induction args generalizing acc height position front with
  | nil =>
    obtain rfl : front = [] := by simpa [printOperands] using hf
    refine ⟨height, position, Nat.le_max_left .., ?_⟩
    rw [List.nil_append, List.append_nil]
    exact operations_of_closes hr
  | cons e args ih =>
    rw [Expr.heights] at hh
    simp only [printOperands, spelled_operator, spelled_append] at hf
    obtain ⟨t, front, rfl, ht, hf⟩ := List.map_eq_cons_iff.1 hf
    obtain ⟨first, more, rfl, hfirst, hmore⟩ := List.map_eq_append_iff.1 hf
    have he := ha e (by simp)
    obtain ⟨n, position₁, hn, hrun⟩ := he.reads.operand ((BinaryOp.logical op).power + 1) t.stop he.depth_le
      he.height_lt hfirst (closes_printOperands ho hr hmore)
    have happly : (BinaryOp.logical op).apply ⟨.logical op acc, height⟩ ⟨e, n⟩ =
        ⟨.logical op (acc ++ [e]), max height (n + 1)⟩ := by
      simp [BinaryOp.apply, Expr.absorbs, Expr.combine]
    obtain ⟨height', position', hle', hmore⟩ := ih (acc ++ [e]) (max height (n + 1)) position₁
      (fun x hx => ha x (by simp [hx])) (by omega) (by omega) hmore
    refine ⟨height', position', by rw [Expr.heights]; omega, ?_⟩
    rw [List.cons_append, List.append_assoc,
      operations_of_operator (kind_of_lexeme ht) (logical_mem_operators ho) (Nat.zero_le _) hrun
        (by rw [happly]; show max height (n + 1) ≤ _; omega), happly, hmore, List.append_assoc, List.singleton_append]

theorem apply_logical {op : LogicalOp} {first second : Expr} (hf : first.absorbs op = false) (m n : Nat) :
    (BinaryOp.logical op).apply ⟨first, m⟩ ⟨second, n⟩ = ⟨.logical op [first, second], max m n + 1⟩ := by
  simp [BinaryOp.apply, hf, Filter.combine_of_not_absorbs hf]

theorem reads_chain {op : LogicalOp} {first second : Expr} {args : List Expr} (ho : op = .and ∨ op = .or)
    (hf : first.absorbs op = false) (ha : ∀ e ∈ first :: second :: args, Reads spelling scope e) :
    Reads spelling scope (.logical op (first :: second :: args)) := by
  have hnot : op ≠ .not := by rcases ho with rfl | rfl <;> simp
  refine reads_enclosed (print_chain hnot) fun depth position front rest hd hh hfront hc => ?_
  simp only [printOperands, spelled_append, spelled_operator] at hfront
  obtain ⟨head, tail, rfl, hhead, htail⟩ := List.map_eq_append_iff.1 hfront
  obtain ⟨t, tail, rfl, ht, htail⟩ := List.map_eq_cons_iff.1 htail
  obtain ⟨next, more, rfl, hnext, hmore⟩ := List.map_eq_append_iff.1 htail
  have hop := kind_of_lexeme ht
  have hmem := logical_mem_operators ho
  rw [Expr.height] at hd hh
  obtain ⟨d, rfl⟩ : ∃ d, depth = d + 1 := ⟨depth - 1, by
    have := Filter.height_pos first
    simp only [Expr.heights] at hd
    omega⟩
  have hfits : ∀ e ∈ first :: second :: args, Fits spelling scope d e := fun e he => by
    have := Filter.height_le_heights he
    exact ⟨ha e he, by omega, by omega⟩
  have hfirst := hfits first (by simp)
  have hsecond := hfits second (by simp)
  simp only [Expr.height, Expr.heights] at hd hh ⊢
  obtain ⟨m, position₁, hm, hleft⟩ := hfirst.reads (d + 1) position head (t :: (next ++ more) ++ rest)
    (Nat.le_succ_of_le hfirst.depth_le) hfirst.height_lt hhead (.operator hop hmem (power_lt_signPower _))
  obtain ⟨n, position₂, hn, hright⟩ := hsecond.reads.operand ((BinaryOp.logical op).power + 1) t.stop hsecond.depth_le
    hsecond.height_lt hnext (closes_printOperands ho hc hmore)
  obtain ⟨height, position', hle, hrun⟩ := operations_printOperands [first, second] (max m n + 1) position₂ ho hc
    (fun e he => hfits e (by simp [he])) (by omega) (by omega) hmore
  refine ⟨height, position', by omega, ?_⟩
  rw [List.append_assoc, level_run_of_primary hleft, List.cons_append, List.append_assoc,
    operations_of_operator hop hmem (Nat.zero_le _) hright
      (by rw [apply_logical hf]; show max m n + 1 ≤ _; omega), apply_logical hf]
  exact hrun

end Operands

/-! ### Arguments -/

section Arguments

variable {spelling : Spelling} {scope : Scope} {depth : Nat} {args : List Expr} {front : List Token} {u : Token}

section Items

variable {α : Type} {item : Reader α} {close : TokenKind} {separators : List TokenKind} {what : String} {s : Stream}
  {position : Nat} {t : Token} {rest : List Token} {a : α}

theorem items_last (hc : s.accept close = .ok none) (ha : item.run s = .ok (a, ⟨position, t :: rest, none⟩))
    (ht : t.kind = close) : items item close separators what s = .ok ([a], ⟨t.stop, rest, none⟩) := by
  rw [items]
  simp only [hc]
  split
  · next cause he => simp [ha] at he
  · next b s₁ hb =>
    obtain ⟨rfl, rfl⟩ : a = b ∧ (⟨position, t :: rest, none⟩ : Stream) = s₁ := by simpa [ha] using hb
    simp [ht]

theorem items_more {as : List α} {after : Stream} (hc : s.accept close = .ok none)
    (ha : item.run s = .ok (a, ⟨position, t :: rest, none⟩)) (ht : t.kind ≠ close) (hs : t.kind ∈ separators)
    (h : items item close separators what ⟨t.stop, rest, none⟩ = .ok (as, after)) :
    items item close separators what s = .ok (a :: as, after) := by
  rw [items]
  simp only [hc]
  split
  · next cause he => simp [ha] at he
  · next b s₁ hb =>
    obtain ⟨rfl, rfl⟩ : a = b ∧ (⟨position, t :: rest, none⟩ : Stream) = s₁ := by simpa [ha] using hb
    simp [ht, hs, h]

end Items

/-- No operand starts with a closing parenthesis. -/
theorem accept_parenRight_of_run {minPower position : Nat} {rest : List Token} {o : Sized} {after : Stream}
    (h : (expression scope depth minPower).run ⟨position, rest, none⟩ = .ok (o, after)) :
    Stream.accept .parenRight ⟨position, rest, none⟩ = .ok none := by
  cases rest with
  | nil => rfl
  | cons t rest =>
    have hne : t.kind ≠ .parenRight := by
      intro ht
      cases depth with
      | zero => simp [expression] at h
      | succ depth =>
        obtain ⟨r, hr, -⟩ := bind_eq_ok.1 h
        simp [primary, ht, bind, Except.bind] at hr
    exact Stream.accept_of_ne hne position rest

theorem closes_printMoreArguments {required : Nat} (rest : List Token) (hu : u.kind = .parenRight)
    (hf : front.map Token.lexeme = spelled (printMoreArguments spelling args)) :
    Closes required (front ++ u :: rest) := by
  cases args with
  | nil =>
    obtain rfl : front = [] := by simpa [printMoreArguments] using hf
    exact .parenRight hu
  | cons e args =>
    simp only [printMoreArguments, spelled_comma] at hf
    obtain ⟨t, front, rfl, ht, -⟩ := List.map_eq_cons_iff.1 hf
    exact .comma (kind_of_lexeme ht)

theorem items_printArguments {e : Expr} {what : String} (position : Nat) (rest : List Token) (hu : u.kind = .parenRight)
    (hf : front.map Token.lexeme = spelled (printArguments spelling (e :: args)))
    (ha : ∀ x ∈ e :: args, Fits spelling scope depth x) :
    ∃ operands : List Sized, operands.map (·.expr) = e :: args ∧ tallest operands ≤ Expr.heights (e :: args) + 1 ∧
      items (expression scope (depth + 1) 0) .parenRight [.comma] what ⟨position, front ++ u :: rest, none⟩ =
        .ok (operands, ⟨u.stop, rest, none⟩) := by
  induction args generalizing e front position with
  | nil =>
    simp only [printArguments, printMoreArguments, List.append_nil] at hf
    have he := ha e (by simp)
    have hcloses : Closes 0 (u :: rest) := .parenRight hu
    obtain ⟨height, position', hle, hrun⟩ := he.reads.operand 0 position he.depth_le he.height_lt hf hcloses
    refine ⟨[⟨e, height⟩], rfl, ?_, items_last (accept_parenRight_of_run hrun) hrun hu⟩
    simp only [tallest, List.foldr_cons, List.foldr_nil, Expr.heights]
    omega
  | cons x args ih =>
    rw [printArguments, spelled_append] at hf
    obtain ⟨first, more, rfl, hfirst, hmore⟩ := List.map_eq_append_iff.1 hf
    have he := ha e (by simp)
    obtain ⟨height, position', hle, hrun⟩ := he.reads.operand 0 position he.depth_le he.height_lt hfirst
      (closes_printMoreArguments rest hu hmore)
    simp only [printMoreArguments, spelled_comma] at hmore
    obtain ⟨t, more, rfl, ht, hmore⟩ := List.map_eq_cons_iff.1 hmore
    have hcomma := kind_of_lexeme ht
    obtain ⟨operands, hexprs, hheight, hitems⟩ := ih t.stop (by rw [printArguments]; exact hmore)
      fun y hy => ha y (List.mem_cons_of_mem _ hy)
    refine ⟨⟨e, height⟩ :: operands, by rw [List.map_cons, hexprs], ?_, ?_⟩
    · rw [Expr.heights]
      simp only [tallest, List.foldr_cons] at hheight ⊢
      omega
    · rw [List.append_assoc]
      exact items_more (accept_parenRight_of_run hrun) hrun (by simp [hcomma]) (by simp [hcomma]) hitems

theorem arguments_eq (position : Nat) (rest : List Token)
    (hf : front.map Token.lexeme = spelled (enclosed (printArguments spelling args)))
    (ha : ∀ e ∈ args, Fits spelling scope depth e) :
    ∃ operands position', operands.map (·.expr) = args ∧ tallest operands ≤ Expr.heights args + 1 ∧
      arguments (expression scope (depth + 1)) ⟨position, front ++ rest, none⟩ =
        .ok (operands, ⟨position', rest, none⟩) := by
  simp only [enclosed, spelled_mark, spelled_append, spelled_nil] at hf
  obtain ⟨t, inner, rfl, ht, hinner⟩ := List.map_eq_cons_iff.1 hf
  obtain ⟨body, close, rfl, hbody, hclose⟩ := List.map_eq_append_iff.1 hinner
  obtain ⟨u, rfl, hu⟩ := List.map_eq_singleton_iff.1 hclose
  have hitems : ∃ operands, operands.map (·.expr) = args ∧ tallest operands ≤ Expr.heights args + 1 ∧
      items (expression scope (depth + 1) 0) .parenRight [.comma] "',' or ')'" ⟨t.stop, body ++ u :: rest, none⟩ =
        .ok (operands, ⟨u.stop, rest, none⟩) := by
    cases args with
    | nil =>
      obtain rfl : body = [] := by simpa [printArguments] using hbody
      refine ⟨[], rfl, Nat.zero_le _, ?_⟩
      rw [items]
      simp [Stream.accept_of_kind (kind_of_lexeme hu)]
    | cons e args => exact items_printArguments t.stop rest (kind_of_lexeme hu) hbody ha
  obtain ⟨operands, hexprs, hheight, hitems⟩ := hitems
  refine ⟨operands, u.stop, hexprs, hheight, ?_⟩
  rw [List.cons_append, List.append_assoc, List.singleton_append, arguments,
    Stream.expect_of_kind (kind_of_lexeme ht)]
  exact hitems

end Arguments

/-! ### Members -/

section Members

variable {spelling : Spelling} {scope : Scope} {operand : OperandParser}

theorem joinWith_segments (path : String) : Text.joinWith "." (segments path) = path := by
  have hfirst : ∀ (names : List String) (a b : String),
      Text.joinWith "." ((a ++ "." ++ b) :: names) = a ++ "." ++ Text.joinWith "." (b :: names) := by
    intro names a b
    cases names with
    | nil => rfl
    | cons c names => simp only [Text.joinWith, String.append_assoc]
  have hfold : ∀ (names : List String) (name : String),
      Text.joinWith "." (name :: names) = names.foldl (fun path name => path ++ "." ++ name) name := by
    intro names
    induction names with
    | nil => intro name; rfl
    | cons b names ih => intro a; rw [List.foldl_cons, ← ih, hfirst, Text.joinWith]
  obtain ⟨name, names, hs⟩ := List.exists_cons_of_ne_nil (segments_ne_nil path)
  rw [hs, hfold, Filter.foldl_segments hs]

theorem pathSegments_eq {names : List String} {front rest : List Token} (position : Nat)
    (hf : front.map Token.lexeme = spelled (names.map Symbol.segment))
    (hr : ∀ t, rest.head? = some t → t.kind ≠ .dot ∧ t.kind ≠ .doubleColon) :
    ∃ position', pathSegments ⟨position, front ++ rest, none⟩ = .ok (names, ⟨position', rest, none⟩) := by
  induction names generalizing position front with
  | nil =>
    obtain rfl : front = [] := by simpa using hf
    refine ⟨position, ?_⟩
    rw [List.nil_append, pathSegments]
    cases rest with
    | nil => rfl
    | cons t rest =>
      obtain ⟨hdot, hcolon⟩ := hr t rfl
      simp [Stream.peek, hdot, hcolon]
  | cons name names ih =>
    rw [List.map_cons, spelled_segment] at hf
    obtain ⟨dot, front, rfl, hdot, hf⟩ := List.map_eq_cons_iff.1 hf
    obtain ⟨word, front, rfl, hword, hf⟩ := List.map_eq_cons_iff.1 hf
    obtain ⟨position', hmore⟩ := ih word.stop hf
    refine ⟨position', ?_⟩
    have hexpect := Stream.expect_of_kind (kind_of_lexeme hword) "member name" dot.stop (front ++ rest)
    rw [List.cons_append, List.cons_append, pathSegments]
    simp only [Stream.peek, kind_of_lexeme hdot, true_or, if_true, Stream.next_cons]
    split
    · next cause hc => simp [hexpect] at hc
    · next word' s₂ hw =>
      obtain ⟨rfl, rfl⟩ : word = word' ∧ (⟨word.stop, front ++ rest, none⟩ : Stream) = s₂ := by simpa [hexpect] using hw
      simp only [hmore, text_of_lexeme hword]

theorem exists_parenLeft_of_arguments {position : Nat} {rest : List Token} {args : List Sized} {after : Stream}
    (h : arguments operand ⟨position, rest, none⟩ = .ok (args, after)) :
    ∃ t later, rest = t :: later ∧ t.kind = .parenLeft := by
  obtain ⟨⟨u, s₁⟩, hu, -⟩ := bind_eq_ok.1 h
  cases rest with
  | nil => simp [Stream.expect, Stream.next, bind, Except.bind] at hu
  | cons t later =>
    refine ⟨t, later, rfl, ?_⟩
    by_contra hne
    simp [Stream.expect, hne, bind, Except.bind] at hu

theorem startsWith_of_arguments {position : Nat} {rest : List Token} {args : List Sized} {after : Stream}
    (h : arguments operand ⟨position, rest, none⟩ = .ok (args, after)) :
    Stream.startsWith .parenLeft ⟨position, rest, none⟩ = .ok true := by
  obtain ⟨t, later, rfl, ht⟩ := exists_parenLeft_of_arguments h
  simp [Stream.startsWith, Stream.peek, ht, bind, Except.bind, pure, Except.pure]

theorem ownedPath_member {names : List String} {whole : String} {s : Stream} (hn : names ≠ [])
    (hl : names.getLast? = some "length" → names.length = 1) (hs : s.startsWith .parenLeft = .ok false) :
    ownedPath operand [] names whole s = .ok (⟨.member (Text.joinWith "." names), 1⟩, s) := by
  obtain ⟨front, last, rfl⟩ := (List.eq_nil_or_concat' names).resolve_left hn
  have hlast : last = "length" → front = [] := by
    rintro rfl
    simpa using hl (by simp)
  simpa [ownedPath, hs, bind, Except.bind, pure, Except.pure] using hlast

/-- The last name of a path that arguments follow is a method of the member before it. -/
theorem ownedPath_called {names : List String} {name whole : String} {position : Nat} {rest : List Token}
    {args : List Sized} {called : Expr} {after : Stream} (hn : names ≠ [])
    (ha : arguments operand ⟨position, rest, none⟩ = .ok (args, after))
    (hc : receiverCall name (.member (Text.joinWith "." names)) (args.map (·.expr)) = .ok called) :
    ownedPath operand [] (names ++ [name]) whole ⟨position, rest, none⟩ =
      .ok (⟨called, max (tallest args) 1 + 1⟩, after) := by
  simp [ownedPath, startsWith_of_arguments ha, hn, ha, hc, bind, Except.bind, pure, Except.pure]

theorem primary_parameter {names : List String} {front : List Token} (operand : OperandParser) (position : Nat)
    (rest : List Token) (hp : scope.parameter = some parameterName)
    (hf : front.map Token.lexeme = spelled (.word parameterName :: names.map Symbol.segment))
    (hr : ∀ t, rest.head? = some t → t.kind ≠ .dot ∧ t.kind ≠ .doubleColon) :
    ∃ position', primary scope operand ⟨position, front ++ rest, none⟩ =
      (ownedPath operand [] names (Text.joinWith "." (parameterName :: names)) ⟨position', rest, none⟩ >>=
        fun r => chain operand r.1 r.2) := by
  rw [spelled_word] at hf
  obtain ⟨t, front, rfl, ht, hf⟩ := List.map_eq_cons_iff.1 hf
  obtain ⟨position', hsegments⟩ := pathSegments_eq t.stop hf hr
  have howner : scope.owner? parameterName = some [] := by rw [Scope.owner?, if_pos hp]
  have hliteral : wordLiteral? parameterName = none := rfl
  refine ⟨position', ?_⟩
  simp [primary, kind_of_lexeme ht, text_of_lexeme ht, hliteral, path, hsegments, pathOperand, howner, bind,
    Except.bind]

theorem reads_member {path : String} (hp : scope.parameter = some parameterName)
    (hl : (segments path).getLast? = some "length" → (segments path).length = 1) :
    Reads spelling scope (.member path) := by
  intro depth position front rest _ _ hf hr
  rw [print] at hf
  have hlink : ∀ t, rest.head? = some t → t.kind ≠ .dot ∧ t.kind ≠ .doubleColon := by
    intro t ht
    obtain ⟨later, rfl⟩ := List.head?_eq_some_iff.1 ht
    exact ⟨hr.not_link.1, hr.not_link.2.1⟩
  obtain ⟨position', hprimary⟩ := primary_parameter (expression scope depth) position rest hp hf hlink
  refine ⟨1, position', by simp, ?_⟩
  rw [hprimary, ownedPath_member (segments_ne_nil path) hl (hr.startsWith_parenLeft position'), joinWith_segments]
  exact chain_of_closes hr

end Members

/-! ### Calls -/

section Calls

variable {spelling : Spelling} {scope : Scope}

/-- The tokens call a method on an expression: what the call is, the height of its arguments, and what follows. -/
inductive Invokes (operand : OperandParser) (receiver : Expr) (tokens : List Token) (called : Expr) (height : Nat)
    (after : Stream) : Prop where
  | intro {dot word : Token} {more : List Token} {name : String} {args : List Sized} (ht : tokens = dot :: word :: more)
    (hm : [dot, word].map Token.lexeme = spelled [.segment name])
    (ha : arguments operand ⟨word.stop, more, none⟩ = .ok (args, after)) (hh : tallest args = height)
    (hc : receiverCall name receiver (args.map (·.expr)) = .ok called)

/-- A method that is called on the expression is read along with it. -/
def Receives (spelling : Spelling) (scope : Scope) (e : Expr) : Prop :=
  ∀ (depth position : Nat) (front tokens : List Token) (called : Expr) (height : Nat) (after : Stream),
    2 * e.height ≤ depth → e.height + 1 < Expr.maxHeight → front.map Token.lexeme = spelled (print spelling e) →
    Invokes (expression scope depth) e tokens called height after → height < Expr.maxHeight →
    ∃ own ≤ e.height + 1, primary scope (expression scope depth) ⟨position, front ++ tokens, none⟩ =
      chain (expression scope depth) ⟨called, max own height + 1⟩ after

theorem chain_of_invokes {operand : OperandParser} {o : Sized} {tokens : List Token} {called : Expr}
    {height : Nat} {after : Stream} (position : Nat) (h : Invokes operand o.expr tokens called height after)
    (hh : max o.height height < Expr.maxHeight) :
    chain operand o ⟨position, tokens, none⟩ = chain operand ⟨called, max o.height height + 1⟩ after := by
  obtain ⟨rfl, hm, ha, rfl, hc⟩ := h
  obtain ⟨hdot, hword⟩ := by simpa using hm
  refine chain_of_link (kind_of_lexeme hdot) ?_ hh
  simp [link, Stream.expect_of_kind (kind_of_lexeme hword), text_of_lexeme hword, startsWith_of_arguments ha, ha, hc,
    bind, Except.bind, pure, Except.pure]

theorem receives_member {path : String} (hp : scope.parameter = some parameterName) :
    Receives spelling scope (.member path) := by
  intro depth position front tokens called height after _ _ hf hi _
  obtain @⟨dot, word, more, name, args, rfl, hm, ha, rfl, hc⟩ := hi
  rw [print] at hf
  -- The name of the method is read as the last segment of the path.
  have hpath : (front ++ [dot, word]).map Token.lexeme =
      spelled (.word parameterName :: (segments path ++ [name]).map Symbol.segment) := by
    rw [List.map_append, hf, hm, ← spelled_append, List.map_append, List.cons_append]
    rfl
  obtain ⟨t, later, rfl, ht⟩ := exists_parenLeft_of_arguments ha
  obtain ⟨position', hprimary⟩ := primary_parameter (expression scope depth) position (t :: later) hp hpath
    (by simp [ht])
  have ha' : arguments (expression scope depth) ⟨position', t :: later, none⟩ = .ok (args, after) := ha
  have hc' : receiverCall name (.member (Text.joinWith "." (segments path))) (args.map (·.expr)) = .ok called := by
    rw [joinWith_segments, hc]
  refine ⟨1, by simp, ?_⟩
  rw [List.append_assoc, List.cons_append, List.singleton_append, ownedPath_called (segments_ne_nil path) ha' hc']
    at hprimary
  rw [hprimary, Nat.max_comm]
  rfl

/-- A call is read up to what is called on it. -/
theorem primary_call {c : Filter.Callable} {receiver : Expr} {args : List Expr} {depth : Nat} {front : List Token}
    (position : Nat) (rest : List Token) (hm : c ∈ Filter.vocabulary) (hr : Receives spelling scope receiver)
    (ha : ∀ e ∈ args, Reads spelling scope e) (hd : 2 * (Expr.call c.name (receiver :: args)).height ≤ depth)
    (hh : (Expr.call c.name (receiver :: args)).height < Expr.maxHeight)
    (hf : front.map Token.lexeme = spelled (print spelling (.call c.name (receiver :: args)))) :
    ∃ height position', height ≤ (Expr.call c.name (receiver :: args)).height + 1 ∧
      primary scope (expression scope depth) ⟨position, front ++ rest, none⟩ =
        chain (expression scope depth) ⟨.call c.name (receiver :: args), height⟩ ⟨position', rest, none⟩ := by
  obtain ⟨-, hname⟩ := spelling.known c hm
  obtain ⟨method, hmethod, hname⟩ := Option.map_eq_some_iff.1 hname
  simp only [Expr.height, Expr.heights] at hd hh ⊢
  simp only [print, spelled_append, spelled_segment] at hf
  obtain ⟨first, front, rfl, hfirst, hf⟩ := List.map_eq_append_iff.1 hf
  obtain ⟨dot, front, rfl, hdot, hf⟩ := List.map_eq_cons_iff.1 hf
  obtain ⟨word, front, rfl, hword, hf⟩ := List.map_eq_cons_iff.1 hf
  obtain ⟨d, rfl⟩ : ∃ d, depth = d + 1 := ⟨depth - 1, by omega⟩
  have hfits : ∀ e ∈ args, Fits spelling scope d e := fun e he => by
    have := Filter.height_le_heights he
    exact ⟨ha e he, by omega, by omega⟩
  obtain ⟨operands, position', hexprs, htall, hargs⟩ := arguments_eq word.stop rest hf hfits
  have hinvokes : Invokes (expression scope (d + 1)) receiver (dot :: word :: (front ++ rest))
      (.call c.name (receiver :: args)) (tallest operands) ⟨position', rest, none⟩ := by
    have hsegment : [dot, word].map Token.lexeme = spelled [.segment (spelling.word c.name)] := by simp [hdot, hword]
    refine .intro rfl hsegment hargs rfl ?_
    rw [receiverCall, hmethod, hexprs]
    show Except.ok (Expr.call method.name (receiver :: args)) = _
    rw [hname]
  obtain ⟨own, hown, hprimary⟩ := hr (d + 1) position first (dot :: word :: (front ++ rest)) _ _ _ (by omega) (by omega)
    hfirst hinvokes (by omega)
  refine ⟨max own (tallest operands) + 1, position', by omega, ?_⟩
  rw [List.append_assoc, List.cons_append, List.cons_append]
  exact hprimary

theorem reads_call {c : Filter.Callable} {receiver : Expr} {args : List Expr} (hm : c ∈ Filter.vocabulary)
    (hr : Receives spelling scope receiver) (ha : ∀ e ∈ args, Reads spelling scope e) :
    Reads spelling scope (.call c.name (receiver :: args)) := by
  intro depth position front rest hd hh hf hc
  obtain ⟨height, position', hle, hprimary⟩ := primary_call position rest hm hr ha hd hh hf
  exact ⟨height, position', hle, hprimary.trans (chain_of_closes hc)⟩

theorem receives_call {c : Filter.Callable} {receiver : Expr} {args : List Expr} (hm : c ∈ Filter.vocabulary)
    (hr : Receives spelling scope receiver) (ha : ∀ e ∈ args, Reads spelling scope e) :
    Receives spelling scope (.call c.name (receiver :: args)) := by
  intro depth position front tokens called height after hd hh hf hi hlt
  obtain ⟨own, position', hown, hprimary⟩ := primary_call position tokens hm hr ha hd (by omega) hf
  refine ⟨own, hown, hprimary.trans ?_⟩
  exact chain_of_invokes position' hi (max_lt (by show own < _; omega) hlt)

end Calls

/-! ### Round trip -/

theorem reads_of_shared {spelling : Spelling} {scope : Scope} {e : Expr} (hp : scope.parameter = some parameterName)
    (h : Shared e) : Reads spelling scope e ∧ (isReceiver e = true → Receives spelling scope e) := by
  induction h with
  | member _ _ _ hl => exact ⟨reads_member hp hl, fun _ => receives_member hp⟩
  | literal hv hm => exact ⟨reads_literal hv hm, by simp [isReceiver]⟩
  | arithmetic ho _ _ ihl ihr => exact ⟨reads_arithmetic ho ihl.1 ihr.1, by simp [isReceiver]⟩
  | comparison ho _ _ ihl ihr => exact ⟨reads_comparison ho ihl.1 ihr.1, by simp [isReceiver]⟩
  | chain ho hf _ iha => exact ⟨reads_chain ho hf fun x hx => (iha x hx).1, by simp [isReceiver]⟩
  | negation _ iha => exact ⟨reads_negation iha.1, by simp [isReceiver]⟩
  | @call c receiver args hm _ hr _ iha =>
    have hreceives := (iha receiver List.mem_cons_self).2 hr
    have hargs : ∀ x ∈ args, Reads spelling scope x := fun x hx => (iha x (List.mem_cons_of_mem _ hx)).1
    exact ⟨reads_call hm hreceives hargs, fun _ => receives_call hm hreceives hargs⟩

/-- No printed expression starts with a brace, which would open a block. -/
theorem head_print (spelling : Spelling) {e : Expr} (h : Shared e) :
    ∃ kind text more, spelled (print spelling e) = (kind, text) :: more ∧ kind ≠ .braceLeft := by
  have henclosed : ∀ symbols, ∃ kind text more,
      spelled (enclosed symbols) = (kind, text) :: more ∧ kind ≠ TokenKind.braceLeft :=
    fun _ => ⟨_, _, _, rfl, by simp⟩
  induction h with
  | member => exact ⟨_, _, _, rfl, by simp⟩
  | @literal value hv _ =>
    cases value with
    | null | bool b | string s => exact ⟨_, _, _, rfl, by simp⟩
    | int n =>
      rw [print, literalSymbols]
      split
      · exact ⟨_, _, _, rfl, by simp⟩
      · exact ⟨_, _, _, rfl, by simp⟩
    | _ => simp [Filter.isPlain] at hv
  | arithmetic => rw [print]; exact henclosed _
  | comparison => rw [print]; exact henclosed _
  | chain ho => rw [print_chain (by rcases ho with rfl | rfl <;> simp)]; exact henclosed _
  | negation => rw [print]; exact henclosed _
  | @call c receiver args _ _ _ _ iha =>
    obtain ⟨kind, text, more, hreceiver, hne⟩ := iha receiver List.mem_cons_self
    rw [print, spelled_append, hreceiver, List.cons_append]
    exact ⟨kind, text, _, rfl, hne⟩

theorem header_eq {front : List Token} (rest : List Token) (hf : front.map Token.lexeme = spelled [.header]) :
    ∃ position, header ⟨0, front ++ rest, none⟩ = .ok (some parameterName, ⟨position, rest, none⟩) := by
  obtain ⟨opening, front, rfl, hopening, hf⟩ := List.map_eq_cons_iff.1 hf
  obtain ⟨name, front, rfl, hname, hf⟩ := List.map_eq_cons_iff.1 hf
  obtain ⟨closing, rfl, hclosing⟩ := List.map_eq_singleton_iff.1 hf
  have hword : name.kind = .word := kind_of_lexeme hname
  have htext : name.text = parameterName := text_of_lexeme hname
  have hpipe : opening.kind = .pipe := kind_of_lexeme hopening
  have hbar : closing.kind = .pipe := kind_of_lexeme hclosing
  refine ⟨closing.stop, ?_⟩
  simp [header, hpipe, barredParameter, Stream.accept_of_ne, hword, Stream.expect_of_kind, skipType, hbar, htext, bind,
    Except.bind, pure, Except.pure]

/-- The closure of a shared tree, of which every level fits twice under the levels of the grammar, is translated to the
tree. -/
theorem translate_printText (spelling : Spelling) (collections : Entries Collection) {e : Expr} (he : Shared e)
    (hh : 2 * e.height < Expr.maxHeight) : Closure.translate ⟨printText spelling e, collections⟩ = .ok e := by
  have hscannable : Scannable (.header :: print spelling e) := .cons trivial rfl (scannable_print spelling he)
  obtain ⟨tokens, htokens, hlex⟩ := ofText_symbols hscannable
  rw [← List.singleton_append, spelled_append] at hlex
  obtain ⟨front, rest, rfl, hfront, hrest⟩ := List.map_eq_append_iff.1 hlex
  obtain ⟨position, hheader⟩ := header_eq rest hfront
  have hreads : Reads spelling ⟨some parameterName, collections⟩ e := (reads_of_shared rfl he).1
  obtain ⟨height, position', -, hrun⟩ := hreads.operand 0 position
    (show 2 * e.height ≤ Expr.maxHeight - 1 by omega) (by omega) hrest .nil
  have hbrace : Stream.accept .braceLeft ⟨position, rest, none⟩ = .ok none := by
    obtain ⟨kind, text, more, hhead, hne⟩ := head_print spelling he
    rw [hhead] at hrest
    obtain ⟨t, rest, rfl, ht, -⟩ := List.map_eq_cons_iff.1 hrest
    have hkind : t.kind = kind := congrArg Prod.fst ht
    exact Stream.accept_of_ne (hkind ▸ hne) position rest
  rw [List.append_nil] at hrun
  have hrun : (expression ⟨some parameterName, collections⟩ Expr.maxHeight 0).run ⟨position, rest, none⟩ =
      .ok (⟨e, height⟩, ⟨position', [], none⟩) := hrun
  have hbody : body (expression ⟨some parameterName, collections⟩ Expr.maxHeight) ⟨position, rest, none⟩ =
      .ok (e, ⟨position', [], none⟩) := by
    simp [body, hbrace, hrun, bind, Except.bind, pure, Except.pure]
  simp [translate, parse, printText, htokens, hheader, hbody, Stream.peek, bind, Except.bind, pure, Except.pure]

end SqlQuery.Closure

/-! ### Both languages -/

namespace SqlQuery

namespace Filter

/-- Parentheses around every operator with its operands. -/
def Parens.full : Parens := ⟨fun required own => own < required || own < 7, by simp +contextual⟩

/-- The text of an expression as a filter with all parentheses. -/
def fullText (e : Expr) : String :=
  String.ofList (symbolsText (wrapped (Parens.full.wraps 0 (strength e)) (print .full e)))

theorem parse_fullText {e : Expr} (he : Printable e) (hh : 2 * e.height ≤ Expr.maxHeight) :
    parse (fullText e) = .ok e := by
  obtain ⟨hread, hsep⟩ := (scannable_print .full he).wrapped (Parens.full.wraps 0 (strength e))
  obtain ⟨tokens, htokens, hlex⟩ := tokenize_symbols hread hsep
  obtain ⟨height, last, -, hrun⟩ := (reads_of_printable .full he).operand Expr.maxHeight 0 0 hh
    (by have := height_pos e; omega) hlex (Nat.zero_le _) .nil
  rw [List.append_nil] at hrun
  exact parse_of_run htokens hrun

end Filter

open Closure (Shared Spelling)

/-- A tree of both languages is read back from its filter and from its closure, whatever names the closure calls the
methods by. -/
theorem filter_closure_agree (spelling : Spelling) (collections : Entries Collection) {e : Expr} (he : Shared e)
    (hh : e.height ≤ 60) :
    Filter.parse (Filter.fullText e) = .ok e ∧
      Closure.translate ⟨Closure.printText spelling e, collections⟩ = .ok e := by
  have hmax : Expr.maxHeight = 256 := rfl
  exact ⟨Filter.parse_fullText he.printable (by omega), Closure.translate_printText spelling collections he (by omega)⟩

/-- Quotes and signs are written in the way of each language, and methods before or after what they are called on. -/
theorem filter_closure_agree_mixed :
    let e : Expr := .logical .and
      [.comparison .eq (.call "toLower" [.call "trim" [.member "Item.Name"]]) (some (.literal (.string "\"'"))),
       .logical .not [.comparison .lt (.arithmetic .subtract (.member "Tax") (.literal (.int (-5))))
         (some (.call "indexOfBytes" [.member "length", .member "Key"]))],
       .member "Open"]
    Filter.parse
        "((tolower(trim(Item/Name)) eq '\\\"\\'') and (not ((Tax sub -5) lt indexof(length, Key))) and Open)" =
          .ok e ∧
      Closure.translate
        ⟨"|x| ((x.Item.Name.trim().toLowerCase() == \"\\\"'\") && (!((x.Tax - -5) < x.length.indexOf(x.Key))) && x.Open)",
          []⟩ = .ok e := by
  intro e
  have hmember : ∀ path ∈ ["Item.Name", "Tax", "length", "Key", "Open"], Shared (.member path) := by
    intro path hpath
    simp only [List.mem_cons, List.not_mem_nil, or_false] at hpath
    rcases hpath with rfl | rfl | rfl | rfl | rfl <;> exact .member (by decide) (by decide) (by decide) (by decide)
  have htrim : Shared (.call "trim" [.member "Item.Name"]) :=
    .call (c := ⟨"trim", "trim", .exactly 1⟩) (by decide) (by decide) rfl
      (List.forall_mem_singleton.2 (hmember _ (by decide)))
  have hlower : Shared (.call "toLower" [.call "trim" [.member "Item.Name"]]) :=
    .call (c := ⟨"toLower", "tolower", .exactly 1⟩) (by decide) (by decide) rfl (List.forall_mem_singleton.2 htrim)
  have hindex : Shared (.call "indexOfBytes" [.member "length", .member "Key"]) :=
    .call (c := ⟨"indexOfBytes", "indexof", .orOneMore 2⟩) (by decide) (by decide) rfl
      (List.forall_mem_cons.2 ⟨hmember _ (by decide), List.forall_mem_singleton.2 (hmember _ (by decide))⟩)
  have he : Shared e := by
    refine .chain (.inl rfl) rfl (List.forall_mem_cons.2 ⟨?_, List.forall_mem_cons.2 ⟨?_, ?_⟩⟩)
    · exact .comparison (by decide) hlower (.literal rfl (by simp))
    · exact .negation (.comparison (by decide)
        (.arithmetic (by decide) (hmember _ (by decide)) (.literal rfl (by simp))) hindex)
    · exact List.forall_mem_singleton.2 (hmember _ (by decide))
  obtain ⟨hfilter, hclosure⟩ := filter_closure_agree .usual [] he (by decide)
  refine ⟨(congrArg Filter.parse ?_).trans hfilter, ?_⟩
  · decide +kernel
  · exact (congrArg (Closure.translate ⟨·, []⟩) (by decide +kernel)).trans hclosure

end SqlQuery
