import SqlQuery.Proofs.FilterRoundTrip

/-!
# Lists of clauses as filters

A clause compares a field with a constant. The filter of a list of clauses joins them from the left, with
parentheses around each operand, so that every clause takes a level more than the one before. `Nests` says how
symbols are read where only some levels are left: in full if these are enough, and otherwise not at all.
-/

namespace SqlQuery.Filter

/-! ### Clauses -/

/-- A field that is compared with a constant, and how this is joined to the clauses before it. -/
structure Clause where
  connective : LogicalOp
  field : String
  comparator : ComparisonOp
  value : Value
  joins : connective = .and ∨ connective = .or
  named : (segments field).all isName = true
  free : (segments field).head?.any isFree = true
  unmarked : isOperatorKey field = false
  orders : comparator ≠ .isIn ∧ comparator ≠ .notIn
  plain : isPlain value = true

namespace Clause

/-- The comparison of a clause. -/
def expr (c : Clause) : Expr := .comparison c.comparator (.member c.field) (some (.literal c.value))

/-- The clause by itself. -/
def symbols (c : Clause) : List Symbol :=
  pathSymbols (segments c.field) ++ operatorSymbols (.ofComparison c.comparator) ++ [.literal c.value]

/-- The clause after other symbols. -/
def joinSymbols (before : List Symbol) (c : Clause) : List Symbol :=
  wrapped true before ++ operatorSymbols (.logical c.connective) ++ wrapped true c.symbols

/-- The clause after another expression. -/
def joinExpr (before : Expr) (c : Clause) : Expr := before.combine c.connective c.expr

theorem scannable_symbols (c : Clause) : Scannable c.symbols :=
  .operator (ofComparison_mem_words c.orders.2) (scannable_pathSymbols c.named)
    (.single (show Symbol.Readable (.literal c.value) from c.plain))

theorem scannable_joinSymbols (c : Clause) {before : List Symbol} (h : Scannable before) :
    Scannable (joinSymbols before c) :=
  .operator (logical_mem_words c.joins) (h.wrapped true) (c.scannable_symbols.wrapped true)

end Clause

/-- Clauses joined from the left. -/
def clauseSymbols (first : Clause) (rest : List Clause) : List Symbol := rest.foldl Clause.joinSymbols first.symbols

/-- The filter of a list of clauses. -/
def clauseText (first : Clause) (rest : List Clause) : String :=
  String.ofList (symbolsText (clauseSymbols first rest))

/-- The tree of a list of clauses. -/
def clauseExpr (first : Clause) (rest : List Clause) : Expr := rest.foldl Clause.joinExpr first.expr

theorem scannable_clauseSymbols (first : Clause) (rest : List Clause) : Scannable (clauseSymbols first rest) := by
  have hfold : ∀ {before : List Symbol}, Scannable before → Scannable (rest.foldl Clause.joinSymbols before) := by
    induction rest with
    | nil => exact id
    | cons c rest ih => exact fun h => ih (c.scannable_joinSymbols h)
  exact hfold first.scannable_symbols

/-! ### Refusals -/

theorem operations_of_error {operand : OperandParser} {op : BinaryOp} {minPower height last : Nat} {left : Expr}
    {t : Token} {rest : List Token} {cause : ParseError} (ht : t.lexeme = .word op.word)
    (ho : op ∈ BinaryOp.words.map Prod.snd) (hm : minPower ≤ op.power)
    (hc : operation operand op left height ⟨t.start, rest⟩ = .error cause) :
    operations operand minPower left height ⟨last, t :: rest⟩ = .error cause := by
  have hnext : nextOperator? minPower ⟨last, t :: rest⟩ = some (op, ⟨t.start, rest⟩) := by
    simp [nextOperator?, ht, (word_of_mem_words op ho).2, hm]
  rw [operations]
  split
  · next h => simp [hnext] at h
  · next op' after h =>
    obtain ⟨rfl, rfl⟩ : op = op' ∧ (⟨t.start, rest⟩ : Stream) = after := by simpa [hnext] using h
    split
    · next cause' hc' =>
      obtain rfl : cause = cause' := by simpa [hc] using hc'
      rfl
    · next p hp => simp [hc] at hp

theorem level_run_of_error {operand : OperandParser} {minPower : Nat} {s : Stream} {cause : ParseError}
    (h : primary operand s = .error cause) : (level operand).run minPower s = .error cause := by
  show (primary operand s >>= _) = _
  rw [h]
  rfl

theorem parse_of_error {text : String} {tokens : List Token} {position : Nat} (ht : tokenize text = .ok tokens)
    (hrun : (expression Expr.maxHeight).run 0 ⟨0, tokens⟩ = .error (.nestingTooDeep position)) :
    parse text = .error (.nestingTooDeep position) := by
  cases tokens with
  | nil => cases hrun
  | cons t tokens => simp [parse, ht, parseTokens, hrun, bind, Except.bind]

/-! ### Levels -/

/-- As an operand of the power the symbols are read as the expression wherever there are that many levels left, and
anywhere else they are nested too deeply. -/
structure Nests (power levels : Nat) (symbols : List Symbol) (e : Expr) : Prop where
  reads : ∀ {depth : Nat} (last : Nat) {front rest : List Token}, depth ≤ Expr.maxHeight → levels ≤ depth →
    front.map Token.lexeme = lexemes symbols → Closes power rest →
    ∃ count last', count ≤ levels ∧
      (expression depth).run power ⟨last, front ++ rest⟩ = .ok ⟨e, count, ⟨last', rest⟩⟩
  refuses : ∀ {depth : Nat} (last : Nat) {front rest : List Token}, depth ≤ Expr.maxHeight → depth < levels →
    front.map Token.lexeme = lexemes symbols → Closes power rest →
    ∃ position, (expression depth).run power ⟨last, front ++ rest⟩ = .error (.nestingTooDeep position)

namespace Nests

variable {power levels : Nat} {symbols : List Symbol} {e : Expr} {front : List Token}

/-- Where an operand starts with a parenthesis, it is what stands in the parentheses. -/
theorem primary_wrapped (h : Nests 0 levels symbols e) {depth : Nat} (last : Nat) (rest : List Token) (hd : depth ≤ Expr.maxHeight)
    (hf : front.map Token.lexeme = lexemes (wrapped true symbols)) :
    (levels ≤ depth → ∃ count last', count ≤ levels ∧
      primary (expression depth) ⟨last, front ++ rest⟩ = .ok ⟨e, count, ⟨last', rest⟩⟩) ∧
    (depth < levels → ∃ position,
      primary (expression depth) ⟨last, front ++ rest⟩ = .error (.nestingTooDeep position)) := by
  simp only [wrapped, lexemes_punctuation, lexemes_append, lexemes_nil] at hf
  obtain ⟨t, inner, rfl, ht, hinner⟩ := List.map_eq_cons_iff.1 hf
  obtain ⟨body, close, rfl, hbody, hclose⟩ := List.map_eq_append_iff.1 hinner
  obtain ⟨u, rfl, hu⟩ := List.map_eq_singleton_iff.1 hclose
  have hu' : u.isPunctuation .parenClose = true := Token.isPunctuation_iff.2 hu
  have hcloses : Closes 0 (u :: rest) := .parenClose hu
  constructor
  · intro hle
    obtain ⟨count, last', hcount, hrun⟩ := h.reads t.start hd hle hbody hcloses
    refine ⟨count, u.start, hcount, ?_⟩
    simp [primary, ht, parenthesized, hrun, hu', bind, Except.bind, pure, Except.pure]
  · intro hlt
    obtain ⟨position, hrun⟩ := h.refuses t.start hd hlt hbody hcloses
    refine ⟨position, ?_⟩
    simp [primary, ht, parenthesized, hrun, bind, Except.bind]

/-- Parentheses take a level of their own. -/
theorem enclosed (h : Nests 0 levels symbols e) (power : Nat) : Nests power (levels + 1) (wrapped true symbols) e where
  reads := by
    intro depth last front rest hd hle hf hr
    obtain ⟨d, rfl⟩ : ∃ d, depth = d + 1 := ⟨depth - 1, by omega⟩
    obtain ⟨count, last', hcount, hprimary⟩ := (h.primary_wrapped last rest (Nat.le_of_succ_le hd) hf).1 (by omega)
    exact ⟨count, last', by omega, (level_run_of_primary hprimary).trans (operations_of_closes hr)⟩
  refuses := by
    intro depth last front rest hd hlt hf hr
    cases depth with
    | zero => exact ⟨last, rfl⟩
    | succ d =>
      obtain ⟨position, hprimary⟩ := (h.primary_wrapped last rest (Nat.le_of_succ_le hd) hf).2 (by omega)
      exact ⟨position, level_run_of_error hprimary⟩

end Nests

theorem operation_ofComparison {operand : OperandParser} {op : ComparisonOp} (ho : op ≠ .isIn) (left : Expr)
    (height : Nat) (s : Stream) :
    operation operand (.ofComparison op) left height s = (do
      let p ← operand.run 41 s
      return ⟨.comparison op left (some p.expr), max height p.height + 1, p.stream⟩) := by
  cases op with
  | isIn => exact absurd rfl ho
  | _ => rfl

/-- A clause takes a level, and its constant another. -/
theorem nests_clause (c : Clause) : Nests 0 2 c.symbols c.expr := by
  have hwords := ofComparison_mem_words c.orders.2
  -- the member is read in any case, and the operator after it
  have hmember : ∀ (depth last : Nat) (front rest : List Token),
      front.map Token.lexeme = lexemes c.symbols → ∃ t u last',
        t.lexeme = .word (BinaryOp.ofComparison c.comparator).word ∧
        u.lexeme = plainLiteral c.value (literalKind c.value) ∧
        (expression (depth + 1)).run 0 ⟨last, front ++ rest⟩ =
          operations (expression depth) 0 (.member c.field) 1 ⟨last', t :: u :: rest⟩ := by
    intro depth last front rest hf
    simp only [Clause.symbols, operatorSymbols, List.append_assoc, List.cons_append, List.nil_append, lexemes_append,
      lexemes_blank, lexemes_word, lexemes_literal, lexemes_nil] at hf
    obtain ⟨path, more, rfl, hpath, hmore⟩ := List.map_eq_append_iff.1 hf
    obtain ⟨t, more, rfl, ht, hmore⟩ := List.map_eq_cons_iff.1 hmore
    obtain ⟨u, rfl, hu⟩ := List.map_eq_singleton_iff.1 hmore
    have hcloses : Closes 100 (t :: u :: rest) := .operator ht hwords (by cases c.comparator <;> decide)
    obtain ⟨last', hprimary⟩ := primary_member last c.free hpath hcloses
    refine ⟨t, u, last', ht, hu, ?_⟩
    rw [List.append_assoc]
    exact level_run_of_primary hprimary
  refine ⟨?_, ?_⟩
  · intro depth last front rest hd hle hf hr
    obtain ⟨d, rfl⟩ : ∃ d, depth = d + 2 := ⟨depth - 2, by omega⟩
    obtain ⟨t, u, last', ht, hu, hrun⟩ := hmember (d + 1) last front rest hf
    have hvalue : (expression (d + 1)).run 41 ⟨t.start, u :: rest⟩ =
        .ok ⟨.literal c.value, 1, ⟨u.start, rest⟩⟩ := by
      refine (level_run_of_primary ?_).trans (operations_of_closes (hr.mono (Nat.zero_le _)))
      simp [primary, hu, plainLiteral]
    have hop : operation (expression (d + 1)) (.ofComparison c.comparator) (.member c.field) 1
        ⟨t.start, u :: rest⟩ = .ok ⟨c.expr, 2, ⟨u.start, rest⟩⟩ := by
      rw [operation_ofComparison c.orders.1, hvalue]
      rfl
    refine ⟨2, u.start, Nat.le_refl 2, ?_⟩
    rw [hrun, operations_of_operation ht hwords (Nat.zero_le _) hop (show 2 ≤ Expr.maxHeight by decide)]
    exact operations_of_closes hr
  · intro depth last front rest hd hlt hf hr
    obtain rfl | rfl : depth = 0 ∨ depth = 1 := by omega
    · exact ⟨last, rfl⟩
    · obtain ⟨t, u, last', ht, -, hrun⟩ := hmember 0 last front rest hf
      refine ⟨t.start, hrun.trans (operations_of_error ht hwords (Nat.zero_le _) ?_)⟩
      rw [operation_ofComparison c.orders.1]
      rfl

/-- Joining a clause takes a level more than what stands before it, and at least the levels of the clause in its
parentheses. -/
theorem Nests.join {levels : Nat} {symbols : List Symbol} {e : Expr} (h : Nests 0 levels symbols e) (c : Clause) :
    Nests 0 (max levels 3 + 1) (Clause.joinSymbols symbols c) (Clause.joinExpr e c) := by
  have hwords := logical_mem_words c.joins
  have hright := (nests_clause c).enclosed ((BinaryOp.logical c.connective).power + 1)
  -- the parts of the text
  have hparts : ∀ {front : List Token}, front.map Token.lexeme = lexemes (Clause.joinSymbols symbols c) →
      ∃ left t right, front = left ++ t :: right ∧ left.map Token.lexeme = lexemes (wrapped true symbols) ∧
        t.lexeme = .word (BinaryOp.logical c.connective).word ∧
        right.map Token.lexeme = lexemes (wrapped true c.symbols) := by
    intro front hf
    simp only [Clause.joinSymbols, operatorSymbols, List.append_assoc, List.cons_append, List.nil_append,
      lexemes_append, lexemes_blank, lexemes_word] at hf
    obtain ⟨left, more, rfl, hleft, hmore⟩ := List.map_eq_append_iff.1 hf
    obtain ⟨t, right, rfl, ht, hright⟩ := List.map_eq_cons_iff.1 hmore
    exact ⟨left, t, right, rfl, hleft, ht, hright⟩
  refine ⟨?_, ?_⟩
  · intro depth last front rest hd hle hf hr
    obtain ⟨left, t, right, rfl, hleft, ht, hr'⟩ := hparts hf
    obtain ⟨d, rfl⟩ : ∃ d, depth = d + 1 := ⟨depth - 1, by omega⟩
    obtain ⟨count, last₁, hcount, hprimary⟩ :=
      (h.primary_wrapped last (t :: right ++ rest) (Nat.le_of_succ_le hd) hleft).1 (by omega)
    obtain ⟨count', last₂, hcount', hrun⟩ :=
      hright.reads t.start (Nat.le_of_succ_le hd) (by omega) hr' (hr.mono (Nat.zero_le _))
    obtain ⟨count'', hcount'', hop⟩ : ∃ count'', count'' ≤ max levels 3 + 1 ∧
        operation (expression d) (.logical c.connective) e count ⟨t.start, right ++ rest⟩ =
          .ok ⟨Clause.joinExpr e c, count'', ⟨last₂, rest⟩⟩ := by
      refine ⟨if e.absorbs c.connective then max count (count' + 1) else max count count' + 1, ?_, ?_⟩
      · split <;> omega
      · simp [operation, hrun, Clause.joinExpr, bind, Except.bind, pure, Except.pure]
    refine ⟨count'', last₂, hcount'', ?_⟩
    rw [List.append_assoc]
    refine (level_run_of_primary hprimary).trans ?_
    rw [List.cons_append, operations_of_operation ht hwords (Nat.zero_le _) hop (by show count'' ≤ _; omega)]
    exact operations_of_closes hr
  · intro depth last front rest hd hlt hf hr
    obtain ⟨left, t, right, rfl, hleft, ht, hr'⟩ := hparts hf
    cases depth with
    | zero => exact ⟨last, rfl⟩
    | succ d =>
      have hlt' : ¬ d < levels → d < 2 + 1 := by omega
      have hprimary := h.primary_wrapped last (t :: right ++ rest) (Nat.le_of_succ_le hd) hleft
      rw [List.append_assoc]
      by_cases hd' : d < levels
      · obtain ⟨position, hprimary⟩ := hprimary.2 hd'
        exact ⟨position, level_run_of_error hprimary⟩
      · -- what stands before fits, so the clause does not
        obtain ⟨count, last₁, -, hprimary⟩ := hprimary.1 (Nat.le_of_not_lt hd')
        obtain ⟨position, hrun⟩ :=
          hright.refuses t.start (Nat.le_of_succ_le hd) (hlt' hd') hr' (hr.mono (Nat.zero_le _))
        refine ⟨position, (level_run_of_primary hprimary).trans (operations_of_error ht hwords (Nat.zero_le _) ?_)⟩
        simp [operation, hrun, bind, Except.bind]

/-! ### Texts -/

/-- Each clause after the first takes one level more. -/
theorem nests_clauses (first : Clause) (rest : List Clause) :
    ∃ levels ≤ rest.length + 3, Nests 0 levels (clauseSymbols first rest) (clauseExpr first rest) := by
  have hfold : ∀ {levels : Nat} {symbols : List Symbol} {e : Expr}, Nests 0 levels symbols e →
      ∃ levels' ≤ max levels 3 + rest.length,
        Nests 0 levels' (rest.foldl Clause.joinSymbols symbols) (rest.foldl Clause.joinExpr e) := by
    induction rest with
    | nil => exact fun h => ⟨_, Nat.le_max_left .., h⟩
    | cons c rest ih =>
      intro levels symbols e h
      obtain ⟨levels', hle, h'⟩ := ih (h.join c)
      refine ⟨levels', ?_, h'⟩
      rw [List.length_cons]
      omega
  obtain ⟨levels, hle, h⟩ := hfold (nests_clause first)
  exact ⟨levels, by omega, h⟩

/-- The filter of a list of clauses is read as their tree, unless it is nested too deeply. -/
theorem parse_clauseText (first : Clause) (rest : List Clause) :
    parse (clauseText first rest) = .ok (clauseExpr first rest) ∨
      rest.length + 3 > Expr.maxHeight ∧ ∃ position, parse (clauseText first rest) = .error (.nestingTooDeep position) := by
  have hscan := scannable_clauseSymbols first rest
  obtain ⟨tokens, htokens, hlex⟩ := tokenize_symbols hscan.1 hscan.2
  obtain ⟨levels, hle, h⟩ := nests_clauses first rest
  have hcloses : Closes 0 ([] : List Token) := .nil
  by_cases hl : levels ≤ Expr.maxHeight
  · obtain ⟨count, last, -, hrun⟩ := h.reads 0 (Nat.le_refl _) hl hlex hcloses
    rw [List.append_nil] at hrun
    exact .inl (parse_of_run htokens hrun)
  · obtain ⟨position, hrun⟩ := h.refuses 0 (Nat.le_refl _) (Nat.lt_of_not_le hl) hlex hcloses
    rw [List.append_nil] at hrun
    exact .inr ⟨by omega, position, parse_of_error htokens hrun⟩

end SqlQuery.Filter
