import SqlQuery.Proofs.FilterScanning

/-!
# Printed filters parse back

`Reads style e` says how a level of the grammar reads the symbols of `e`: it comes to the loop over the
operators that follow, with `e` as the left operand. It is proved by induction over the printable trees,
one lemma for each form (`reads_member`, `reads_arithmetic` and so on). What follows must not extend the
operand (`Closes`), and the counted height is at most one more than the real one, because a list after
`in` is counted as one level more than it is.
-/

namespace SqlQuery.Filter

theorem Token.isPunctuation_iff {t : Token} {p : Punctuation} :
    t.isPunctuation p = true ↔ t.lexeme = .punctuation p := by
  unfold Token.isPunctuation
  split
  · next q hq => simp [hq]
  · next hne => exact ⟨fun h => absurd h Bool.false_ne_true, fun h => absurd h (hne p)⟩

/-! ### What can follow an operand -/

/-- The token does not belong to an operand before it that requires the power: it is a closing
parenthesis, a comma or an operator that binds less tightly. -/
def Ends (required : Nat) (t : Token) : Prop :=
  t.lexeme = .punctuation .parenClose ∨ t.lexeme = .punctuation .comma ∨
    ∃ name op, t.lexeme = .word name ∧ BinaryOp.ofWord? name = some op ∧ op.power < required

/-- Nothing that follows belongs to an operand that requires the power. -/
def Closes (required : Nat) (rest : List Token) : Prop := ∀ t, rest.head? = some t → Ends required t

/-- The powers of the grammar are in the order of the strengths, with space between them. -/
theorem BinaryOp.power_eq (op : BinaryOp) : op.power = 10 * op.strength := by
  cases op with
  | logical op => cases op <;> rfl
  | comparison | membership => rfl
  | arithmetic op => cases op <;> rfl

theorem BinaryOp.power_succ_le (op : BinaryOp) : op.power + 1 ≤ 10 * (op.strength + 1) := by
  rw [op.power_eq]
  omega

/-- No operator has the power of `not`. -/
theorem BinaryOp.power_ne_notPower (op : BinaryOp) : op.power ≠ notPower := by
  cases op with
  | logical op => cases op <;> decide
  | comparison | membership => simp [BinaryOp.power, notPower]
  | arithmetic op => cases op <;> decide

namespace Closes

variable {required : Nat} {t : Token} {rest : List Token}

theorem nil : Closes required [] := by simp [Closes]

theorem cons (h : Ends required t) : Closes required (t :: rest) := by simpa [Closes] using h

theorem parenClose (h : t.lexeme = .punctuation .parenClose) : Closes required (t :: rest) := cons (.inl h)

theorem comma (h : t.lexeme = .punctuation .comma) : Closes required (t :: rest) := cons (.inr (.inl h))

theorem operator {op : BinaryOp} (h : t.lexeme = .word op.word) (ho : op ∈ BinaryOp.words.map Prod.snd)
    (hp : op.power < required) : Closes required (t :: rest) :=
  cons (.inr (.inr ⟨op.word, op, h, (word_of_mem_words op ho).2, hp⟩))

theorem imp {required' : Nat} (h : Closes required rest)
    (hp : ∀ op : BinaryOp, op.power < required → op.power < required') :
    Closes required' rest := by
  intro t ht
  rcases h t ht with hc | hc | ⟨name, op, hn, ho, hlt⟩
  · exact .inl hc
  · exact .inr (.inl hc)
  · exact .inr (.inr ⟨name, op, hn, ho, hp op hlt⟩)

theorem mono {required' : Nat} (h : Closes required rest) (hle : required ≤ required') : Closes required' rest :=
  h.imp fun _ hp => Nat.lt_of_lt_of_le hp hle

theorem not_succ (h : Closes (notPower + 1) rest) : Closes notPower rest :=
  h.imp fun op hp => Nat.lt_of_le_of_ne (Nat.lt_succ_iff.1 hp) op.power_ne_notPower

theorem nextOperator?_eq_none (h : Closes required rest) (last : Nat) :
    nextOperator? required ⟨last, rest⟩ = none := by
  cases rest with
  | nil => rfl
  | cons t rest =>
    rcases h t rfl with hc | hc | ⟨name, op, hn, ho, hlt⟩
    · simp [nextOperator?, hc]
    · simp [nextOperator?, hc]
    · simp [nextOperator?, hn, ho, hlt]

theorem not_slash (h : Closes required (t :: rest)) : t.isPunctuation .slash = false := by
  rcases h t rfl with hc | hc | ⟨name, op, hn, -, -⟩
  · simp [Token.isPunctuation, hc]
  · simp [Token.isPunctuation, hc]
  · simp [Token.isPunctuation, hn]

theorem not_parenOpen (h : Closes required rest) :
    (rest.head?.map fun t => t.isPunctuation .parenOpen) ≠ some true := by
  cases rest with
  | nil => simp
  | cons t rest =>
    rcases h t rfl with hc | hc | ⟨name, op, hn, -, -⟩
    · simp [Token.isPunctuation, hc]
    · simp [Token.isPunctuation, hc]
    · simp [Token.isPunctuation, hn]

end Closes

/-! ### Steps of the loop over operators -/

theorem operations_of_closes {operand : OperandParser} {minPower height last : Nat} {e : Expr} {rest : List Token}
    (h : Closes minPower rest) :
    operations operand minPower e height ⟨last, rest⟩ = .ok ⟨e, height, ⟨last, rest⟩⟩ := by
  rw [operations]
  split
  · rfl
  · next op after hop => simp [h.nextOperator?_eq_none] at hop

theorem operations_of_operation {operand : OperandParser} {op : BinaryOp} {minPower height last : Nat}
    {left : Expr} {t : Token} {rest : List Token} {p : Parsed} (ht : t.lexeme = .word op.word)
    (ho : op ∈ BinaryOp.words.map Prod.snd) (hm : minPower ≤ op.power)
    (hp : operation operand op left height ⟨t.start, rest⟩ = .ok p) (hh : p.height ≤ Expr.maxHeight) :
    operations operand minPower left height ⟨last, t :: rest⟩ =
      operations operand minPower p.expr p.height p.stream := by
  have hnext : nextOperator? minPower ⟨last, t :: rest⟩ = some (op, ⟨t.start, rest⟩) := by
    simp [nextOperator?, ht, (word_of_mem_words op ho).2, hm]
  rw [operations]
  split
  · next h => simp [hnext] at h
  · next op' after h =>
    obtain ⟨rfl, rfl⟩ : op = op' ∧ (⟨t.start, rest⟩ : Stream) = after := by simpa [hnext] using h
    split
    · next cause hc => simp [hp] at hc
    · next q hq =>
      obtain rfl : p = q := by simpa [hp] using hq
      rw [if_neg (by omega)]

theorem level_run_of_primary {operand : OperandParser} {minPower height : Nat} {s after : Stream} {e : Expr}
    (h : primary operand s = .ok ⟨e, height, after⟩) :
    (level operand).run minPower s = operations operand minPower e height after := by
  show (primary operand s >>= _) = _
  rw [h]
  rfl

/-! ### Reading an operand -/

theorem height_pos (e : Expr) : 0 < e.height := by
  cases e with
  | comparison op left right => cases right <;> simp [Expr.height]
  | _ => simp [Expr.height]

/-- The symbols of the expression, with operators after them that bind no more tightly than its own, are
read up to the loop over these operators. Each level of the tree takes at most two levels of the
grammar, one for the operand and one for its parentheses. -/
def Reads (style : Parens) (e : Expr) : Prop :=
  ∀ (depth minPower last : Nat) (front rest : List Token), 2 * e.height ≤ depth + 2 →
    e.height < Expr.maxHeight → front.map Token.lexeme = lexemes (print style e) →
    minPower ≤ 10 * strength e → Closes (10 * strength e + 1) rest →
    ∃ height last', height ≤ e.height + 1 ∧
      (level (expression depth)).run minPower ⟨last, front ++ rest⟩ =
        operations (expression depth) minPower e height ⟨last', rest⟩

namespace Reads

variable {style : Parens} {e : Expr} {depth required : Nat} {front rest : List Token}

theorem primary_wrapped (last : Nat) (he : Reads style e) (hd : 2 * e.height ≤ depth + 1)
    (hh : e.height < Expr.maxHeight) (hf : front.map Token.lexeme = lexemes (wrapped true (print style e))) :
    ∃ height last', height ≤ e.height + 1 ∧
      primary (expression depth) ⟨last, front ++ rest⟩ = .ok ⟨e, height, ⟨last', rest⟩⟩ := by
  simp only [wrapped, lexemes_punctuation, lexemes_append, lexemes_nil] at hf
  obtain ⟨t, inner, rfl, ht, hinner⟩ := List.map_eq_cons_iff.1 hf
  obtain ⟨body, close, rfl, hbody, hclose⟩ := List.map_eq_append_iff.1 hinner
  obtain ⟨u, rfl, hu⟩ := List.map_eq_singleton_iff.1 hclose
  obtain ⟨d, rfl⟩ : ∃ d, depth = d + 1 := ⟨depth - 1, by have := height_pos e; omega⟩
  obtain ⟨height, last', hle, hrun⟩ :=
    he d 0 t.start body (u :: rest) (by omega) hh hbody (Nat.zero_le _) (.parenClose hu)
  refine ⟨height, u.start, hle, ?_⟩
  have hparen : (expression (d + 1)).run 0 ⟨t.start, body ++ u :: rest⟩ =
      .ok ⟨e, height, ⟨last', u :: rest⟩⟩ :=
    hrun.trans (operations_of_closes (.parenClose hu))
  have hu' : u.isPunctuation .parenClose = true := Token.isPunctuation_iff.2 hu
  simp [primary, ht, parenthesized, hparen, hu', bind, Except.bind, pure, Except.pure]

theorem le_strength (h : style.wraps required (strength e) = false) : required ≤ strength e := by
  by_contra hlt
  rw [style.wraps_of_lt (by omega)] at h
  exact Bool.false_ne_true h.symm

theorem left (depth minPower last : Nat) (he : Reads style e) (hd : 2 * e.height ≤ depth + 1)
    (hh : e.height < Expr.maxHeight)
    (hf : front.map Token.lexeme = lexemes (wrapped (style.wraps required (strength e)) (print style e)))
    (hm : minPower ≤ 10 * required) (hr : Closes (10 * required + 1) rest) :
    ∃ height last', height ≤ e.height + 1 ∧
      (level (expression depth)).run minPower ⟨last, front ++ rest⟩ =
        operations (expression depth) minPower e height ⟨last', rest⟩ := by
  cases hw : style.wraps required (strength e) with
  | true =>
    rw [hw] at hf
    obtain ⟨height, last', hle, hprimary⟩ := he.primary_wrapped last hd hh hf
    exact ⟨height, last', hle, level_run_of_primary hprimary⟩
  | false =>
    rw [hw] at hf
    have hs : required ≤ strength e := le_strength hw
    exact he depth minPower last front rest (by omega) hh hf (by omega) (hr.mono (by omega))

theorem operand (depth minPower last : Nat) (he : Reads style e) (hd : 2 * e.height ≤ depth)
    (hh : e.height < Expr.maxHeight)
    (hf : front.map Token.lexeme = lexemes (wrapped (style.wraps required (strength e)) (print style e)))
    (hm : minPower ≤ 10 * required) (hr : Closes minPower rest) :
    ∃ height last', height ≤ e.height + 1 ∧
      (expression depth).run minPower ⟨last, front ++ rest⟩ = .ok ⟨e, height, ⟨last', rest⟩⟩ := by
  obtain ⟨d, rfl⟩ : ∃ d, depth = d + 1 := ⟨depth - 1, by have := height_pos e; omega⟩
  obtain ⟨height, last', hle, hrun⟩ := he.left d minPower last hd hh hf hm (hr.mono (by omega))
  exact ⟨height, last', hle, hrun.trans (operations_of_closes hr)⟩

end Reads

/-! ### Members and literals -/

theorem reads_literal (style : Parens) (value : Value) : Reads style (.literal value) := by
  intro depth minPower last front rest _ _ hf _ _
  simp only [print, lexemes_literal, lexemes_nil] at hf
  obtain ⟨t, rfl, ht⟩ := List.map_eq_singleton_iff.1 hf
  refine ⟨1, t.start, by simp [Expr.height], level_run_of_primary ?_⟩
  simp [primary, ht, plainLiteral]

theorem splitOn_ne_nil (separator : Char) (cs : List Char) : Text.splitOn separator cs ≠ [] := by
  cases cs with
  | nil => simp [Text.splitOn]
  | cons c cs =>
    rw [Text.splitOn]
    split
    · simp
    · split <;> simp

theorem segments_ne_nil (path : String) : segments path ≠ [] := by
  simpa [segments] using splitOn_ne_nil '.' path.toList

/-- The pieces between dots, with the dots between them, are the text. -/
theorem foldl_splitOn {cs piece : List Char} {pieces : List (List Char)}
    (h : Text.splitOn '.' cs = piece :: pieces) :
    pieces.foldl (fun path name => path ++ '.' :: name) piece = cs := by
  have hcons : ∀ (pieces : List (List Char)) (c : Char) (piece : List Char),
      pieces.foldl (fun path name => path ++ '.' :: name) (c :: piece) =
        c :: pieces.foldl (fun path name => path ++ '.' :: name) piece := by
    intro pieces
    induction pieces with
    | nil => simp
    | cons p pieces ih => intro c piece; exact ih c (piece ++ '.' :: p)
  induction cs generalizing piece pieces with
  | nil =>
    obtain ⟨rfl, rfl⟩ : [] = piece ∧ [] = pieces := by simpa [Text.splitOn] using h
    rfl
  | cons c cs ih =>
    rw [Text.splitOn] at h
    split at h
    · next hc =>
      obtain ⟨rfl, rfl⟩ : [] = piece ∧ Text.splitOn '.' cs = pieces := by simpa using h
      cases hs : Text.splitOn '.' cs with
      | nil => exact absurd hs (splitOn_ne_nil '.' cs)
      | cons p ps => rw [List.foldl_cons, List.nil_append, hcons, ih hs, hc]
    · split at h
      · next hs => exact absurd hs (splitOn_ne_nil '.' cs)
      · next p ps hs =>
        obtain ⟨rfl, rfl⟩ : c :: p = piece ∧ ps = pieces := by simpa using h
        rw [hcons, ih hs]

theorem foldl_segments {path name : String} {names : List String} (h : segments path = name :: names) :
    names.foldl (fun path name => path ++ "." ++ name) name = path := by
  have hmap : ∀ (pieces : List (List Char)) (piece : List Char),
      (pieces.map String.ofList).foldl (fun path name => path ++ "." ++ name) (String.ofList piece) =
        String.ofList (pieces.foldl (fun path name => path ++ '.' :: name) piece) := by
    intro pieces
    induction pieces with
    | nil => simp
    | cons p pieces ih =>
      intro piece
      have hstep : String.ofList piece ++ "." ++ String.ofList p = String.ofList (piece ++ '.' :: p) := by
        rw [← String.toList_inj]
        simp
      rw [List.map_cons, List.foldl_cons, hstep, ih, List.foldl_cons]
  obtain ⟨piece, pieces, hs, rfl, rfl⟩ := List.map_eq_cons_iff.1 h
  rw [hmap, foldl_splitOn hs, String.ofList_toList]

/-- The segments after the first are read up to what cannot be one. -/
theorem memberPath_eq {names : List String} (path : String) (last : Nat) {required : Nat} {front rest : List Token}
    (hf : front.map Token.lexeme = lexemes (names.flatMap fun name => [.punctuation .slash, .word name]))
    (hr : Closes required rest) :
    ∃ last', memberPath path last (front ++ rest) =
      .ok (names.foldl (fun path name => path ++ "." ++ name) path, ⟨last', rest⟩) := by
  induction names generalizing path last front with
  | nil =>
    obtain rfl : front = [] := by simpa using hf
    refine ⟨last, ?_⟩
    rw [List.nil_append]
    match rest with
    | [] => rfl
    | [t] => simp [memberPath, hr.not_slash]
    | t :: u :: rest => simp [memberPath, hr.not_slash]
  | cons name names ih =>
    simp only [List.flatMap_cons, List.cons_append, List.nil_append, lexemes_punctuation, lexemes_word] at hf
    obtain ⟨t, front, rfl, ht, hf⟩ := List.map_eq_cons_iff.1 hf
    obtain ⟨u, front, rfl, hu, hf⟩ := List.map_eq_cons_iff.1 hf
    obtain ⟨last', h⟩ := ih (path ++ "." ++ name) u.start hf
    have ht' : t.isPunctuation .slash = true := Token.isPunctuation_iff.2 ht
    refine ⟨last', ?_⟩
    rw [List.cons_append, List.cons_append, memberPath, if_pos ht', hu]
    exact h

theorem primary_word {operand : OperandParser} {name : String} {t : Token} {last : Nat} {rest : List Token}
    (hn : isFree name = true) (ht : t.lexeme = .word name) :
    primary operand ⟨last, t :: rest⟩ = wordOperand operand name ⟨t.start, rest⟩ := by
  obtain ⟨hnot, hword⟩ := ofWord?_eq_none hn
  simp [primary, ht, hnot, hword]

/-- The segments of a path are read as a member, up to what cannot be a part of it. -/
theorem primary_member {operand : OperandParser} {path : String} {required : Nat} {front rest : List Token} (last : Nat)
    (hfree : (segments path).head?.any isFree = true)
    (hfront : front.map Token.lexeme = lexemes (pathSymbols (segments path))) (hr : Closes required rest) :
    ∃ last', primary operand ⟨last, front ++ rest⟩ = .ok ⟨.member path, 1, ⟨last', rest⟩⟩ := by
  obtain ⟨name, names, hs⟩ := List.exists_cons_of_ne_nil (segments_ne_nil path)
  rw [hs] at hfree hfront
  simp only [pathSymbols, lexemes_word] at hfront
  obtain ⟨t, front, rfl, ht, hfront⟩ := List.map_eq_cons_iff.1 hfront
  obtain ⟨last', hpath⟩ := memberPath_eq name t.start hfront hr
  rw [foldl_segments hs] at hpath
  refine ⟨last', ?_⟩
  have hopen : ((front ++ rest).head?.map fun t => t.isPunctuation .parenOpen) ≠ some true := by
    cases names with
    | nil =>
      obtain rfl : front = [] := by simpa using hfront
      exact hr.not_parenOpen
    | cons name names =>
      simp only [List.flatMap_cons, List.cons_append, List.nil_append, lexemes_punctuation, lexemes_word] at hfront
      obtain ⟨u, front, rfl, hu, -⟩ := List.map_eq_cons_iff.1 hfront
      simp [Token.isPunctuation, hu]
  rw [List.cons_append, primary_word (by simpa using hfree) ht, wordOperand, if_neg hopen, hpath]
  rfl

theorem reads_member (style : Parens) {path : String} (hf : (segments path).head?.any isFree = true) :
    Reads style (.member path) := by
  intro depth minPower last front rest _ _ hfront _ hr
  rw [print] at hfront
  obtain ⟨last', hprimary⟩ := primary_member last hf hfront hr
  exact ⟨1, last', by simp [Expr.height], level_run_of_primary hprimary⟩

/-! ### Arguments -/

/-- An operand that is read, of a tree that fits under the levels left. -/
structure Fits (style : Parens) (depth : Nat) (e : Expr) : Prop where
  reads : Reads style e
  depth_le : 2 * e.height ≤ depth
  height_lt : e.height < Expr.maxHeight

theorem height_le_heights {e : Expr} {es : List Expr} (h : e ∈ es) : e.height ≤ Expr.heights es := by
  induction es with
  | nil => simp at h
  | cons x es ih =>
    rw [Expr.heights]
    rcases List.mem_cons.1 h with rfl | h
    · exact Nat.le_max_left ..
    · exact Nat.le_trans (ih h) (Nat.le_max_right ..)

section Arguments

variable {style : Parens} {depth : Nat} {args : List Expr} {front rest : List Token} {u : Token}

theorem closes_moreArguments {required : Nat} (rest : List Token) (hu : u.lexeme = .punctuation .parenClose)
    (hf : front.map Token.lexeme = lexemes (printMoreArguments style args)) :
    Closes required (front ++ u :: rest) := by
  cases args with
  | nil =>
    obtain rfl : front = [] := by simpa [printMoreArguments] using hf
    exact .parenClose hu
  | cons e args =>
    simp only [printMoreArguments, lexemes_punctuation] at hf
    obtain ⟨t, front, rfl, ht, -⟩ := List.map_eq_cons_iff.1 hf
    exact .comma ht

theorem moreArguments_eq (openedAt : Nat) (rest : List Token) (hu : u.lexeme = .punctuation .parenClose)
    (hf : front.map Token.lexeme = lexemes (printMoreArguments style args)) (ha : ∀ e ∈ args, Fits style depth e) :
    ∃ height ≤ Expr.heights args + 1,
      moreArguments (expression depth) openedAt (front ++ u :: rest) = .ok ⟨args, height, ⟨u.start, rest⟩⟩ := by
  induction args generalizing front with
  | nil =>
    obtain rfl : front = [] := by simpa [printMoreArguments] using hf
    have hu' : u.isPunctuation .parenClose = true := Token.isPunctuation_iff.2 hu
    refine ⟨0, by omega, ?_⟩
    rw [List.nil_append, moreArguments, if_pos hu']
  | cons e args ih =>
    simp only [printMoreArguments, lexemes_punctuation, lexemes_blank, lexemes_append] at hf
    obtain ⟨t, front, rfl, ht, hf⟩ := List.map_eq_cons_iff.1 hf
    obtain ⟨first, more, rfl, hfirst, hmore⟩ := List.map_eq_append_iff.1 hf
    have he := ha e (by simp)
    obtain ⟨height, last', hle, hrun⟩ := he.reads.operand depth 0 t.start he.depth_le he.height_lt hfirst
      (Nat.zero_le _) (closes_moreArguments rest hu hmore)
    obtain ⟨later, hlater, hmore⟩ := ih hmore fun x hx => ha x (by simp [hx])
    have hclose : t.isPunctuation .parenClose = false := by simp [Token.isPunctuation, ht]
    have hcomma : t.isPunctuation .comma = true := Token.isPunctuation_iff.2 ht
    refine ⟨max height later, by rw [Expr.heights]; omega, ?_⟩
    rw [List.cons_append, List.append_assoc, moreArguments]
    simp only [hclose, hcomma, if_true, Bool.false_eq_true, if_false]
    split
    · next cause hc => simp [hrun] at hc
    · next p hp =>
      obtain rfl : (⟨e, height, ⟨last', more ++ u :: rest⟩⟩ : Parsed) = p := by simpa [hrun] using hp
      simp only [hmore]

/-- No operand starts with a closing parenthesis. -/
theorem not_parenClose_of_run {required last : Nat} {t : Token} {p : Parsed}
    (h : (expression depth).run required ⟨last, t :: rest⟩ = .ok p) : t.isPunctuation .parenClose = false := by
  refine Bool.eq_false_iff.2 fun hc => ?_
  have hlex := Token.isPunctuation_iff.1 hc
  cases depth with
  | zero => simp [expression] at h
  | succ depth =>
    obtain ⟨q, hq, -⟩ := bind_eq_ok.1 h
    simp [primary, hlex] at hq

theorem arguments_eq (last : Nat) (rest : List Token)
    (hf : front.map Token.lexeme = lexemes (wrapped true (printArguments style args)))
    (ha : ∀ e ∈ args, Fits style depth e) :
    ∃ height last', height ≤ Expr.heights args + 1 ∧
      arguments (expression depth) ⟨last, front ++ rest⟩ = .ok ⟨args, height, ⟨last', rest⟩⟩ := by
  simp only [wrapped, lexemes_punctuation, lexemes_append, lexemes_nil] at hf
  obtain ⟨t, inner, rfl, ht, hf⟩ := List.map_eq_cons_iff.1 hf
  obtain ⟨body, close, rfl, hbody, hclose⟩ := List.map_eq_append_iff.1 hf
  obtain ⟨u, rfl, hu⟩ := List.map_eq_singleton_iff.1 hclose
  have hopen : t.isPunctuation .parenOpen = true := Token.isPunctuation_iff.2 ht
  cases args with
  | nil =>
    obtain rfl : body = [] := by simpa [printArguments] using hbody
    refine ⟨0, u.start, by omega, ?_⟩
    simp [arguments, hopen, Token.isPunctuation_iff.2 hu]
  | cons e args =>
    simp only [printArguments, lexemes_append] at hbody
    obtain ⟨first, more, rfl, hfirst, hmore⟩ := List.map_eq_append_iff.1 hbody
    have he := ha e (by simp)
    obtain ⟨height, last', hle, hrun⟩ := he.reads.operand depth 0 t.start he.depth_le he.height_lt hfirst
      (Nat.zero_le _) (closes_moreArguments rest hu hmore)
    obtain ⟨later, hlater, hmore⟩ := moreArguments_eq t.start rest hu hmore fun x hx => ha x (by simp [hx])
    refine ⟨max height later, u.start, by rw [Expr.heights]; omega, ?_⟩
    cases hsplit : first ++ (more ++ u :: rest) with
    | nil => simp at hsplit
    | cons v later =>
      rw [hsplit] at hrun
      have hv := not_parenClose_of_run hrun
      simp [arguments, hsplit, hopen, hv, hrun, hmore, bind, Except.bind, pure, Except.pure]

end Arguments

/-! ### The forms of expressions -/

section Forms

variable {style : Parens}

theorem orderArguments_eq {name : String} (h : Text.lowerCase name ≠ "substringof") (args : List Expr) :
    orderArguments name args = args := by
  unfold orderArguments
  split
  · rw [if_neg h]
  · rfl

theorem reads_call {c : Callable} {args : List Expr} (hm : c ∈ vocabulary)
    (hc : c.arity.admits args.length = true) (ha : ∀ e ∈ args, Reads style e) :
    Reads style (.call c.name args) := by
  intro depth minPower last front rest hd hh hf _ _
  obtain ⟨-, hfree, hmethod, hname⟩ := methodWord_of_mem c hm
  obtain ⟨method, hmethod, hpair⟩ := Option.map_eq_some_iff.1 hmethod
  obtain ⟨hcall, harity⟩ : method.name = c.name ∧ arity method = c.arity := by simpa using hpair
  rw [Expr.height] at hd hh
  simp only [print, lexemes_word] at hf
  obtain ⟨t, front, rfl, ht, hf⟩ := List.map_eq_cons_iff.1 hf
  have hfits : ∀ e ∈ args, Fits style depth e := fun e he => by
    have := height_le_heights he
    exact ⟨ha e he, by omega, by omega⟩
  obtain ⟨height, last', hle, hargs⟩ := arguments_eq t.start rest hf hfits
  refine ⟨height + 1, last', by rw [Expr.height]; omega, level_run_of_primary ?_⟩
  have hopen : ((front ++ rest).head?.map fun t => t.isPunctuation .parenOpen) = some true := by
    simp only [wrapped, lexemes_punctuation] at hf
    obtain ⟨u, front, rfl, hu, -⟩ := List.map_eq_cons_iff.1 hf
    simp [Token.isPunctuation_iff.2 hu]
  rw [List.cons_append, primary_word hfree ht, wordOperand, if_pos hopen, methodCall, hmethod]
  simp only [hargs, bind, Except.bind, harity, hc, if_true, orderArguments_eq hname, hcall]
  rfl

theorem literalValues_map_literal (position : Nat) (values : List Value) :
    literalValues position (values.map Expr.literal) = .ok values := by
  induction values with
  | nil => rfl
  | cons v values ih =>
    rw [List.map_cons, literalValues, ih]
    rfl

/-- A left operand, an operator and what the operator takes after it. -/
theorem reads_operator {op : BinaryOp} {left e : Expr} {right : List Symbol}
    (ho : op ∈ BinaryOp.words.map Prod.snd) (hs : strength e = op.strength)
    (hprint : print style e =
      wrapped (style.wraps op.strength (strength left)) (print style left) ++ operatorSymbols op ++ right)
    (hl : Reads style left) (hlh : left.height < e.height)
    (hoperation : ∀ (depth height last : Nat) (front rest : List Token), 2 * e.height ≤ depth + 2 →
      e.height < Expr.maxHeight → front.map Token.lexeme = lexemes right → Closes (op.power + 1) rest →
      height ≤ left.height + 1 →
      ∃ height' last', height' ≤ e.height + 1 ∧
        operation (expression depth) op left height ⟨last, front ++ rest⟩ = .ok ⟨e, height', ⟨last', rest⟩⟩) :
    Reads style e := by
  intro depth minPower last front rest hd hh hf hm hr
  rw [hs, ← op.power_eq] at hm hr
  simp only [hprint, operatorSymbols, List.append_assoc, List.cons_append, List.nil_append, lexemes_append,
    lexemes_blank, lexemes_word] at hf
  obtain ⟨first, more, rfl, hfirst, hmore⟩ := List.map_eq_append_iff.1 hf
  obtain ⟨t, more, rfl, ht, hmore⟩ := List.map_eq_cons_iff.1 hmore
  have hcloses : Closes (op.power + 1) (t :: more ++ rest) := .operator ht ho (Nat.lt_succ_self _)
  obtain ⟨height, last₁, hle, hrun⟩ := hl.left depth minPower last (by omega) (by omega) hfirst
    (op.power_eq ▸ hm) (op.power_eq ▸ hcloses)
  obtain ⟨height', last₂, hle', hop⟩ := hoperation depth height t.start more rest hd hh hmore hr hle
  refine ⟨height', last₂, hle', ?_⟩
  rw [List.append_assoc, hrun]
  exact operations_of_operation ht ho hm hop (by show height' ≤ _; omega)

theorem reads_binary {op : BinaryOp} {left right e : Expr} (ho : op ∈ BinaryOp.words.map Prod.snd)
    (hs : strength e = op.strength)
    (hprint : print style e =
      wrapped (style.wraps op.strength (strength left)) (print style left) ++ operatorSymbols op ++
        wrapped (style.wraps (op.strength + 1) (strength right)) (print style right))
    (hheight : e.height = max left.height right.height + 1) (hl : Reads style left) (hr : Reads style right)
    (hoperation : ∀ {operand : OperandParser} {height height' : Nat} {s after : Stream},
      operand.run (op.power + 1) s = .ok ⟨right, height', after⟩ →
        operation operand op left height s = .ok ⟨e, max height height' + 1, after⟩) :
    Reads style e := by
  refine reads_operator ho hs hprint hl (by omega) fun depth height last front rest hd hh hf hc hle => ?_
  obtain ⟨height', last', hle', hrun⟩ := hr.operand depth (op.power + 1) last (by omega) (by omega) hf
    op.power_succ_le hc
  exact ⟨max height height' + 1, last', by omega, hoperation hrun⟩

theorem reads_arithmetic {op : ArithmeticOp} {left right : Expr} (ho : op ≠ .bit) (hl : Reads style left)
    (hr : Reads style right) : Reads style (.arithmetic op left right) := by
  refine reads_binary (arithmetic_mem_words ho) rfl (by rw [print]) (by rw [Expr.height]) hl hr ?_
  intro operand height height' s after h
  simp [operation, h, bind, Except.bind, pure, Except.pure]

theorem reads_comparison {op : ComparisonOp} {left right : Expr} (ho : op ≠ .isIn ∧ op ≠ .notIn)
    (hl : Reads style left) (hr : Reads style right) : Reads style (.comparison op left (some right)) := by
  refine reads_binary (ofComparison_mem_words ho.2) rfl (print_comparison ho.1) (by rw [Expr.height]) hl hr ?_
  intro operand height height' s after h
  cases op with
  | isIn => exact absurd rfl ho.1
  | _ =>
    simp only [BinaryOp.ofComparison] at h ⊢
    simp [operation, h, bind, Except.bind, pure, Except.pure]

theorem reads_membership {left : Expr} {values : List Value} (hl : Reads style left) :
    Reads style (.comparison .isIn left (some (.literal (.array values)))) := by
  have hheight : (Expr.comparison .isIn left (some (.literal (.array values)))).height = left.height + 1 := by
    have := height_pos left
    simp only [Expr.height]
    omega
  refine reads_operator (show .membership ∈ BinaryOp.words.map Prod.snd by decide) rfl (by rw [print]; rfl) hl
    (by omega) ?_
  intro depth height last front rest hd hh hf _ hle
  rw [literalSymbols_eq] at hf
  have := height_pos left
  have hfits : ∀ e ∈ values.map Expr.literal, Fits Parens.minimal depth e := fun e he => by
    obtain ⟨v, -, rfl⟩ := List.mem_map.1 he
    refine ⟨reads_literal _ v, ?_, ?_⟩ <;> simp only [Expr.height, Expr.maxHeight] at * <;> omega
  obtain ⟨_, last', -, hargs⟩ := arguments_eq last rest hf hfits
  refine ⟨max height 2 + 1, last', by omega, ?_⟩
  simp [operation, literalList, hargs, literalValues_map_literal, bind, Except.bind, pure, Except.pure]

theorem reads_negation {arg : Expr} (ha : Reads style arg) : Reads style (.logical .not [arg]) := by
  intro depth minPower last front rest hd hh hf hm hr
  simp only [Expr.height, Expr.heights] at hd hh
  simp only [print, lexemes_word, lexemes_blank] at hf
  obtain ⟨t, front, rfl, ht, hf⟩ := List.map_eq_cons_iff.1 hf
  obtain ⟨height, last', hle, hrun⟩ := ha.operand depth notPower t.start (by omega) (by omega) hf
    (by decide) hr.not_succ
  refine ⟨height + 1, last', by simp only [Expr.height, Expr.heights]; omega, level_run_of_primary ?_⟩
  simp [primary, ht, hrun, bind, Except.bind, pure, Except.pure]

theorem closes_printOperands {op : LogicalOp} {args : List Expr} {front rest : List Token}
    (ho : op = .and ∨ op = .or) (hr : Closes ((BinaryOp.logical op).power + 1) rest)
    (hf : front.map Token.lexeme = lexemes (printOperands style op args)) :
    Closes ((BinaryOp.logical op).power + 1) (front ++ rest) := by
  cases args with
  | nil =>
    obtain rfl : front = [] := by simpa [printOperands] using hf
    exact hr
  | cons e args =>
    simp only [printOperands, operatorSymbols, List.cons_append, lexemes_blank, lexemes_word] at hf
    obtain ⟨t, front, rfl, ht, -⟩ := List.map_eq_cons_iff.1 hf
    exact .operator ht (logical_mem_words ho) (Nat.lt_succ_self _)

/-- The operands after the first join a chain one by one. -/
theorem operations_printOperands {op : LogicalOp} {depth minPower : Nat} {front rest : List Token}
    {args : List Expr} (acc : List Expr) (height last : Nat) (ho : op = .and ∨ op = .or)
    (hm : minPower ≤ (BinaryOp.logical op).power) (hr : Closes ((BinaryOp.logical op).power + 1) rest)
    (ha : ∀ e ∈ args, Fits style depth e) (hh : Expr.heights args + 2 ≤ Expr.maxHeight)
    (hle : height ≤ Expr.maxHeight) (hf : front.map Token.lexeme = lexemes (printOperands style op args)) :
    ∃ height' last', height' ≤ max height (Expr.heights args + 2) ∧
      operations (expression depth) minPower (.logical op acc) height ⟨last, front ++ rest⟩ =
        operations (expression depth) minPower (.logical op (acc ++ args)) height' ⟨last', rest⟩ := by
  induction args generalizing acc height last front with
  | nil =>
    obtain rfl : front = [] := by simpa [printOperands] using hf
    exact ⟨height, last, Nat.le_max_left .., by simp⟩
  | cons e args ih =>
    rw [Expr.heights] at hh
    simp only [printOperands, operatorSymbols, List.cons_append, List.nil_append, lexemes_append,
      lexemes_blank, lexemes_word] at hf
    obtain ⟨t, front, rfl, ht, hf⟩ := List.map_eq_cons_iff.1 hf
    obtain ⟨first, more, rfl, hfirst, hmore⟩ := List.map_eq_append_iff.1 hf
    have he := ha e (by simp)
    obtain ⟨height', last', hle', hrun⟩ := he.reads.operand depth _ t.start he.depth_le he.height_lt
      hfirst (BinaryOp.power_succ_le _) (closes_printOperands ho hr hmore)
    have hoperation : operation (expression depth) (.logical op) (.logical op acc) height
        ⟨t.start, first ++ (more ++ rest)⟩ =
          .ok ⟨.logical op (acc ++ [e]), max height (height' + 1), ⟨last', more ++ rest⟩⟩ := by
      simp [operation, hrun, Expr.absorbs, Expr.combine, bind, Except.bind, pure, Except.pure]
    obtain ⟨height₂, last₂, hle₂, hmore⟩ := ih (acc ++ [e]) (max height (height' + 1)) last'
      (fun x hx => ha x (by simp [hx])) (by omega) (by omega) hmore
    refine ⟨height₂, last₂, by rw [Expr.heights]; omega, ?_⟩
    rw [List.cons_append, List.append_assoc,
      operations_of_operation ht (logical_mem_words ho) hm hoperation (by show max height (height' + 1) ≤ _; omega),
      hmore, List.append_assoc, List.singleton_append]

theorem combine_of_not_absorbs {op : LogicalOp} {first : Expr} (hf : first.absorbs op = false) (second : Expr) :
    first.combine op second = .logical op [first, second] := by
  unfold Expr.combine
  split
  · next lop args =>
    have hne : lop ≠ op := by simpa [Expr.absorbs] using hf
    rw [if_neg hne]
  · rfl

theorem operation_logical {op : LogicalOp} {operand : OperandParser} {first second : Expr} {height height' : Nat}
    {s after : Stream} (hf : first.absorbs op = false)
    (h : operand.run ((BinaryOp.logical op).power + 1) s = .ok ⟨second, height', after⟩) :
    operation operand (.logical op) first height s =
      .ok ⟨.logical op [first, second], max height height' + 1, after⟩ := by
  simp [operation, h, hf, combine_of_not_absorbs hf, bind, Except.bind, pure, Except.pure]

theorem reads_chain {op : LogicalOp} {first second : Expr} {args : List Expr} (ho : op = .and ∨ op = .or)
    (hf : first.absorbs op = false) (ha : ∀ e ∈ first :: second :: args, Reads style e) :
    Reads style (.logical op (first :: second :: args)) := by
  have hnot : op ≠ .not := by rcases ho with rfl | rfl <;> simp
  have hstrength : 10 * strength (.logical op (first :: second :: args)) = (BinaryOp.logical op).power := by
    rcases ho with rfl | rfl <;> rfl
  intro depth minPower last front rest hd hh hfront hm hr
  rw [hstrength] at hm hr
  rw [print_chain hnot] at hfront
  simp only [printOperands, operatorSymbols, List.cons_append, List.nil_append, lexemes_append, lexemes_blank,
    lexemes_word] at hfront
  obtain ⟨head, tail, rfl, hhead, htail⟩ := List.map_eq_append_iff.1 hfront
  obtain ⟨t, tail, rfl, ht, htail⟩ := List.map_eq_cons_iff.1 htail
  obtain ⟨next, more, rfl, hnext, hmore⟩ := List.map_eq_append_iff.1 htail
  have hfits : ∀ e ∈ first :: second :: args, Fits style depth e := fun e he => by
    have := height_le_heights he
    rw [Expr.height] at hd hh
    exact ⟨ha e he, by omega, by omega⟩
  have hfirst := hfits first (by simp)
  have hsecond := hfits second (by simp)
  simp only [Expr.height, Expr.heights] at hd hh ⊢
  have hcloses : Closes ((BinaryOp.logical op).power + 1) (t :: (next ++ more) ++ rest) :=
    .operator ht (logical_mem_words ho) (Nat.lt_succ_self _)
  obtain ⟨height₁, last₁, hle₁, hrun₁⟩ := hfirst.reads.left depth minPower last
    (Nat.le_succ_of_le hfirst.depth_le) hfirst.height_lt hhead (BinaryOp.power_eq _ ▸ hm)
    (BinaryOp.power_eq _ ▸ hcloses)
  obtain ⟨height₂, last₂, hle₂, hrun₂⟩ := hsecond.reads.operand depth _ t.start hsecond.depth_le
    hsecond.height_lt hnext (BinaryOp.power_succ_le _) (closes_printOperands ho hr hmore)
  obtain ⟨height₃, last₃, hle₃, hrun₃⟩ := operations_printOperands [first, second]
    (max height₁ height₂ + 1) last₂ ho hm hr (fun e he => hfits e (by simp [he])) (by omega) (by omega) hmore
  refine ⟨height₃, last₃, by omega, ?_⟩
  rw [List.append_assoc, hrun₁, List.cons_append, List.append_assoc,
    operations_of_operation ht (logical_mem_words ho) hm (operation_logical hf hrun₂)
      (by show max height₁ height₂ + 1 ≤ _; omega)]
  exact hrun₃

end Forms

/-! ### Round trip -/

theorem reads_of_printable (style : Parens) {e : Expr} (h : Printable e) : Reads style e := by
  induction h with
  | member hn hf => exact reads_member style hf
  | literal hv => exact reads_literal style _
  | arithmetic ho hl hr ihl ihr => exact reads_arithmetic ho ihl ihr
  | comparison ho hl hr ihl ihr => exact reads_comparison ho ihl ihr
  | membership hl hv ihl => exact reads_membership ihl
  | chain ho hf ha iha => exact reads_chain ho hf iha
  | negation ha iha => exact reads_negation iha
  | call hm hc ha iha => exact reads_call hm hc iha

theorem parse_of_run {text : String} {tokens : List Token} {e : Expr} {height last : Nat}
    (ht : tokenize text = .ok tokens)
    (hrun : (expression Expr.maxHeight).run 0 ⟨0, tokens⟩ = .ok ⟨e, height, ⟨last, []⟩⟩) : parse text = .ok e := by
  have hne : tokens.isEmpty = false := by
    have hlt : 0 < tokens.length := (expression Expr.maxHeight).shorter hrun
    exact List.isEmpty_eq_false_iff.2 (List.length_pos_iff.1 hlt)
  simp [parse, ht, parseTokens, hne, hrun, bind, Except.bind, pure, Except.pure]

/-- A printable tree of which every level fits twice under the levels of the grammar is read back,
wherever its parentheses stand. -/
theorem parse_printText (style : Parens) {e : Expr} (he : Printable e) (hh : 2 * e.height ≤ Expr.maxHeight) :
    parse (printText style e) = .ok e := by
  obtain ⟨tokens, htokens, hlex⟩ := tokenize_symbols (scannable_print style he).1 (scannable_print style he).2
  obtain ⟨height, last, -, hrun⟩ := reads_of_printable style he (Expr.maxHeight - 1) 0 0 tokens []
    (by omega) (by have := height_pos e; omega) hlex (Nat.zero_le _) .nil
  rw [List.append_nil] at hrun
  exact parse_of_run htokens (hrun.trans (operations_of_closes .nil))

/-- A filter that is printed with the fewest parentheses parses to the tree it was printed from. -/
theorem parse_print_minimal {e : Expr} (he : Printable e) (hh : e.height ≤ 100) :
    parse (printText .minimal e) = .ok e :=
  parse_printText .minimal he (by unfold Expr.maxHeight; omega)

/-- Parentheses stand on the right of an operator of the same strength and around what `not` would split. -/
theorem parse_print_minimal_nested :
    parse "tolower(Name/First) eq 'it\\'s' and not (Price sub (Tax sub -5) in (1, NULL) or Sold)" =
      .ok (.logical .and
        [.comparison .eq (.call "toLower" [.member "Name.First"]) (some (.literal (.string "it's"))),
         .logical .not [.logical .or
          [.comparison .isIn
            (.arithmetic .subtract (.member "Price") (.arithmetic .subtract (.member "Tax") (.literal (.int (-5)))))
            (some (.literal (.array [.int 1, .null]))),
           .member "Sold"]]]) := by
  refine (congrArg parse ?_).trans (parse_print_minimal ?_ (by decide))
  · decide +kernel
  · refine .chain (.inl rfl) rfl (List.forall_mem_cons.2 ⟨?_, List.forall_mem_singleton.2 (.negation ?_)⟩)
    · refine .comparison (by decide) ?_ (.literal rfl)
      refine .call (c := ⟨"toLower", "tolower", .exactly 1⟩) (by decide) (by decide) ?_
      exact List.forall_mem_singleton.2 (.member (by decide) (by decide))
    · refine .chain (.inr rfl) rfl (List.forall_mem_cons.2 ⟨.membership ?_ rfl, List.forall_mem_singleton.2 ?_⟩)
      · exact .arithmetic (by decide) (.member (by decide) (by decide))
          (.arithmetic (by decide) (.member (by decide) (by decide)) (.literal rfl))
      · exact .member (by decide) (by decide)

end SqlQuery.Filter
