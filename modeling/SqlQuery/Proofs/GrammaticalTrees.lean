import SqlQuery.Proofs.CountedHeight
import SqlQuery.Proofs.FilterRoundTrip

/-!
# The trees that filters are read into

`Grammatical` says of a tree what the grammar admits: paths of names, literals that are neither lists nor documents,
chains of `and` and `or`, and calls of known methods with as many arguments as they take. The words and literals are
those of the tokens (`Lexeme.Lawful`), which the scanner vouches for, and each reader of the grammar keeps it up from
the reader of its operands (`OperandParser.Yields`), so that every accepted filter is grammatical
(`grammatical_of_parse`).
-/

namespace SqlQuery.Filter

/-- The literals of filters. -/
def isLiteral : Value → Bool
  | .array _ | .object _ | .ref _ => false
  | _ => true

/-- The trees of the grammar. -/
inductive Grammatical : Expr → Prop where
  | member {path : String} (hn : (segments path).all isName = true) (hf : (segments path).head?.any isFree = true) :
    Grammatical (.member path)
  | literal {value : Value} (hv : isLiteral value = true) : Grammatical (.literal value)
  | arithmetic {op : ArithmeticOp} {left right : Expr} (ho : op ≠ .bit) (hl : Grammatical left)
    (hr : Grammatical right) : Grammatical (.arithmetic op left right)
  | comparison {op : ComparisonOp} {left right : Expr} (ho : op ≠ .isIn ∧ op ≠ .notIn) (hl : Grammatical left)
    (hr : Grammatical right) : Grammatical (.comparison op left (some right))
  | membership {left : Expr} {values : List Value} (hl : Grammatical left) (hv : values.all isLiteral = true) :
    Grammatical (.comparison .isIn left (some (.literal (.array values))))
  | chain {op : LogicalOp} {first second : Expr} {rest : List Expr} (ho : op = .and ∨ op = .or)
    (hf : first.absorbs op = false) (ha : ∀ e ∈ first :: second :: rest, Grammatical e) :
    Grammatical (.logical op (first :: second :: rest))
  | negation {arg : Expr} (ha : Grammatical arg) : Grammatical (.logical .not [arg])
  | call {c : Callable} {args : List Expr} (hm : c ∈ vocabulary) (hc : c.arity.admits args.length = true)
    (ha : ∀ e ∈ args, Grammatical e) : Grammatical (.call c.name args)

/-! ### Tokens -/

/-- A word is a name, and a literal one of a filter. -/
def Lexeme.Lawful : Lexeme → Prop
  | .literal value _ _ => isLiteral value = true
  | .word name => isName name = true
  | .punctuation _ => True

theorem lawful_numberLiteral {text : List Char} {isFloat : Bool} {suffix : Option Suffix} {position : Nat}
    {lexeme : Lexeme} (h : numberLiteral text isFloat suffix position = .ok lexeme) : lexeme.Lawful := by
  have hfloat : ∀ kind, floatLiteral text kind position = .ok lexeme → lexeme.Lawful := by
    intro kind h
    unfold floatLiteral at h
    split at h <;> cases h
    rfl
  have hint : ∀ kind, intLiteral text kind position = .ok lexeme → lexeme.Lawful := by
    intro kind h
    unfold intLiteral at h
    split at h <;> cases h
    rfl
  unfold numberLiteral at h
  split at h
  · exact hint _ h
  · exact hfloat _ h
  · exact hfloat _ h
  · exact hfloat _ h
  · split at h
    · exact hfloat _ h
    · exact hint _ h

theorem lawful_scanQuoted {start : Nat} {tag : QuoteTag} {cs : List Char} {lexeme : Lexeme}
    (h : (scanQuoted start tag cs).1 = .ok lexeme) : lexeme.Lawful := by
  have hvalue : ∀ {text : String} {value : Value}, tag.value? text = some value → isLiteral value = true := by
    intro text value hvalue
    cases tag with
    | plain =>
      cases hvalue
      rfl
    | guid | binary | time =>
      obtain ⟨-, hvalue⟩ := Option.ite_none_right_eq_some.1 hvalue
      cases hvalue
      rfl
    | dateTime | dateTimeOffset =>
      obtain ⟨t, -, rfl⟩ := Option.map_eq_some_iff.1 hvalue
      rfl
  unfold scanQuoted at h
  split at h
  · unfold taggedLiteral at h
    split at h
    · next hv =>
      cases h
      exact hvalue hv
    · cases h
  · cases h

theorem lawful_wordLexeme {c : Char} {cs : List Char} {lexeme : Lexeme} (hc : isWordStart c = true)
    (hcs : cs.all isWordChar = true) (h : wordLexeme (String.ofList (c :: cs)) = lexeme) : lexeme.Lawful := by
  cases lexeme with
  | literal value kind tag =>
    unfold wordLexeme plainLiteral at h
    dsimp only at h
    split_ifs at h <;> cases h <;> rfl
  | word name =>
    have hname := wordLexeme_eq_word h
    rw [hname] at h
    cases h
    exact isName_iff.2 ⟨c, cs, String.toList_ofList, hc, hcs, hname⟩
  | punctuation p => trivial

theorem lawful_scanNumber {start n : Nat} {c : Char} {cs : List Char} {lexeme : Lexeme}
    (h : scanNumber start c cs = (.ok lexeme, n)) : lexeme.Lawful :=
  lawful_numberLiteral (Prod.mk.inj h).1

theorem lawful_scanMinus {start n : Nat} {cs : List Char} {lexeme : Lexeme}
    (h : scanMinus start cs = (.ok lexeme, n)) : lexeme.Lawful := by
  unfold scanMinus at h
  split at h
  · split at h <;> cases h
    · trivial
    · rfl
  · split at h
    · exact lawful_scanNumber h
    · cases h
      trivial
  · cases h
    trivial

theorem lawful_scanWord {start n : Nat} {c : Char} {cs : List Char} {lexeme : Lexeme} (hc : isWordStart c = true)
    (h : scanWord start c cs = (.ok lexeme, n)) : lexeme.Lawful := by
  rcases scanWord_cases start c cs with ⟨tag, later, m, hscan⟩ | hscan
  · exact lawful_scanQuoted (Prod.mk.inj (hscan.symm.trans h)).1
  · exact lawful_wordLexeme hc List.all_takeWhile (Except.ok.inj (Prod.mk.inj (hscan.symm.trans h)).1)

theorem lawful_scanLexeme {start n : Nat} {c : Char} {cs : List Char} {lexeme : Lexeme}
    (h : scanLexeme start c cs = (.ok lexeme, n)) : lexeme.Lawful := by
  obtain ⟨scan, hstarts, hscan⟩ := exists_starts c
  rw [hscan] at h
  cases hstarts with
  | punctuation =>
    cases h
    trivial
  | minus => exact lawful_scanMinus h
  | quote => exact lawful_scanQuoted (congrArg Prod.fst h)
  | digit => exact lawful_scanNumber h
  | word hstart => exact lawful_scanWord hstart h
  | failure => cases h

/-- Tokens that the scanner gives. -/
def LawfulTokens (tokens : List Token) : Prop := ∀ t ∈ tokens, t.lexeme.Lawful

theorem LawfulTokens.tail {t : Token} {tokens : List Token} (h : LawfulTokens (t :: tokens)) : LawfulTokens tokens :=
  (List.forall_mem_cons.1 h).2

theorem lawfulTokens_scanAll (cursor : Cursor) : LawfulTokens cursor.scanAll.tokens := by
  fun_induction Cursor.scanAll cursor with
  | case1 | case2 => exact List.forall_mem_nil _
  | case3 cursor t after hscan later ih =>
    refine List.forall_mem_cons.2 ⟨?_, ih⟩
    unfold Cursor.scan at hscan
    dsimp only at hscan
    split at hscan
    · cases hscan
    · split at hscan
      · next hlexeme =>
        cases hscan
        exact lawful_scanLexeme hlexeme
      · cases hscan

theorem lawfulTokens_of_tokenize {text : String} {tokens : List Token} (h : tokenize text = .ok tokens) :
    LawfulTokens tokens := by
  unfold tokenize at h
  dsimp only at h
  split at h <;> cases h
  exact lawfulTokens_scanAll _

/-! ### Members -/

theorem splitOn_append_cons (separator : Char) (xs ys : List Char) :
    Text.splitOn separator (xs ++ separator :: ys) = Text.splitOn separator xs ++ Text.splitOn separator ys := by
  induction xs with
  | nil => simp [Text.splitOn]
  | cons x xs ih =>
    rw [List.cons_append, Text.splitOn, Text.splitOn, ih]
    split
    · rfl
    · cases hs : Text.splitOn separator xs with
      | nil => exact absurd hs (splitOn_ne_nil separator xs)
      | cons => rfl

theorem splitOn_of_not_mem {separator : Char} {cs : List Char} (h : separator ∉ cs) :
    Text.splitOn separator cs = [cs] := by
  induction cs with
  | nil => rfl
  | cons c cs ih =>
    obtain ⟨hc, hcs⟩ := List.ne_and_not_mem_of_not_mem_cons h
    rw [Text.splitOn, if_neg (Ne.symm hc), ih hcs]

theorem mem_splitOn (separator : Char) {c : Char} {cs : List Char} (h : c ∈ cs) :
    c = separator ∨ ∃ piece ∈ Text.splitOn separator cs, c ∈ piece := by
  induction cs with
  | nil => cases h
  | cons x xs ih =>
    obtain ⟨piece, pieces, hs⟩ := List.exists_cons_of_ne_nil (splitOn_ne_nil separator xs)
    rw [hs] at ih
    rw [Text.splitOn, hs]
    split
    · next hx =>
      rcases List.mem_cons.1 h with rfl | h
      · exact .inl hx
      · rcases ih h with hc | ⟨q, hq, hc⟩
        · exact .inl hc
        · exact .inr ⟨q, List.mem_cons_of_mem _ hq, hc⟩
    · rcases List.mem_cons.1 h with rfl | h
      · exact .inr ⟨_, List.mem_cons_self, List.mem_cons_self⟩
      · rcases ih h with hc | ⟨q, hq, hc⟩
        · exact .inl hc
        · rcases List.mem_cons.1 hq with rfl | hq
          · exact .inr ⟨_, List.mem_cons_self, List.mem_cons_of_mem _ hc⟩
          · exact .inr ⟨q, List.mem_cons_of_mem _ hq, hc⟩

theorem isWordChar_of_isName {name : String} (h : isName name = true) {c : Char} (hc : c ∈ name.toList) :
    isWordChar c = true := by
  obtain ⟨first, cs, hchars, hfirst, hcs, -⟩ := isName_iff.1 h
  rw [hchars] at hc
  rcases List.mem_cons.1 hc with rfl | hc
  · simp [isWordChar, hfirst]
  · exact List.all_eq_true.1 hcs _ hc

theorem segments_of_isName {name : String} (h : isName name = true) : segments name = [name] := by
  have hdot : isWordChar '.' = false := by decide
  have hnot : '.' ∉ name.toList := by
    intro hmem
    rw [isWordChar_of_isName h hmem] at hdot
    cases hdot
  rw [segments, splitOn_of_not_mem hnot, List.map_singleton, String.ofList_toList]

theorem segments_append {path name : String} (h : isName name = true) :
    segments (path ++ "." ++ name) = segments path ++ [name] := by
  have hchars : (path ++ "." ++ name).toList = path.toList ++ '.' :: name.toList := by simp
  rw [segments, hchars, splitOn_append_cons, List.map_append, ← segments, ← segments, segments_of_isName h]

theorem memberPath_yields {path : String} {last : Nat} {tokens : List Token} {r : String × Stream}
    (ht : LawfulTokens tokens) (hn : (segments path).all isName = true)
    (hf : (segments path).head?.any isFree = true) (h : memberPath path last tokens = .ok r) :
    Grammatical (.member r.1) ∧ LawfulTokens r.2.rest := by
  fun_induction memberPath path last tokens with
  | case1 | case3 | case6 =>
    cases h
    exact ⟨.member hn hf, ht⟩
  | case2 | case5 => cases h
  | case4 path last t u rest hslash name hname ih =>
    obtain ⟨-, hu, hrest⟩ : _ ∧ _ ∧ LawfulTokens rest := by simpa [LawfulTokens] using ht
    rw [hname] at hu
    obtain ⟨first, more, hs⟩ := List.exists_cons_of_ne_nil (segments_ne_nil path)
    refine ih hrest ?_ ?_ h
    · rw [segments_append hu, List.all_append, hn, List.all_cons, hu]
      rfl
    · rw [segments_append hu, hs, List.cons_append]
      rwa [hs] at hf

/-! ### Operators and calls -/

/-- What a reader of operands gives is grammatical, and so are the tokens that it leaves. -/
def OperandParser.Yields (operand : OperandParser) : Prop :=
  ∀ {power : Nat} {s : Stream} {p : Parsed}, LawfulTokens s.rest → operand.run power s = .ok p →
    Grammatical p.expr ∧ LawfulTokens p.stream.rest

/-- Each argument is grammatical, and so are the tokens left. -/
def Arguments.Lawful (list : Arguments) : Prop := (∀ e ∈ list.args, Grammatical e) ∧ LawfulTokens list.stream.rest

theorem isFree_of_not_operator {name : String} (hn : name ≠ "not") (ho : (BinaryOp.ofWord? name).isSome = false) :
    isFree name = true := by
  have hwords : ∀ word ∈ keywords, word = "not" ∨ (BinaryOp.ofWord? word).isSome = true := by decide
  refine decide_eq_true fun hmem => ?_
  rcases hwords name hmem with h | h
  · exact hn h
  · rw [ho] at h
    cases h

/-- The methods of filters are those of the vocabulary. -/
theorem exists_callable {name : String} {m : Method} (h : Method.ofFilterName? name = some m) :
    ∃ c ∈ vocabulary, c.name = m.name ∧ c.arity = arity m := by
  have hnames : ∀ entry ∈ Method.filterNames, ∃ c ∈ vocabulary, c.name = entry.2.name ∧ c.arity = arity entry.2 := by
    decide
  obtain ⟨l₁, l₂, hl, -⟩ := List.lookup_eq_some_iff.1 h
  exact hnames (Text.lowerCase name, m) (by simp [hl])

namespace Grammatical

theorem negated {e : Expr} (h : Grammatical e) : Grammatical e.negated := by
  unfold Expr.negated
  split
  · split
    · exact .arithmetic (by decide) (.literal rfl) (.literal rfl)
    · exact .literal rfl
  · exact .literal rfl
  · exact .arithmetic (by decide) (.literal rfl) h

theorem combine {op : LogicalOp} (ho : op = .and ∨ op = .or) {left right : Expr} (hl : Grammatical left)
    (hr : Grammatical right) : Grammatical (left.combine op right) := by
  cases ha : left.absorbs op with
  | false =>
    rw [combine_of_not_absorbs ha]
    exact .chain ho ha (by simp [hl, hr])
  | true =>
    cases hl with
    | chain _ hf hargs =>
      obtain rfl : _ = op := of_decide_eq_true ha
      rw [Expr.combine, if_pos rfl]
      rw [List.cons_append, List.cons_append]
      refine .chain ho hf fun e he => ?_
      rw [← List.cons_append, ← List.cons_append] at he
      rcases List.mem_append.1 he with he | he
      · exact hargs e he
      · exact List.mem_singleton.1 he ▸ hr
    | negation =>
      obtain rfl : LogicalOp.not = op := of_decide_eq_true ha
      simp at ho
    | _ => cases ha

end Grammatical

section Yields

variable {operand : OperandParser}

theorem moreArguments_yields (ho : operand.Yields) {openedAt : Nat} {tokens : List Token} {list : Arguments}
    (ht : LawfulTokens tokens) (h : moreArguments operand openedAt tokens = .ok list) : list.Lawful := by
  fun_induction moreArguments operand openedAt tokens generalizing list with
  | case1 | case3 | case4 | case6 => cases h
  | case2 =>
    cases h
    exact ⟨List.forall_mem_nil _, ht.tail⟩
  | case5 t rest _ _ p hp later hl ih =>
    cases h
    obtain ⟨hexpr, hrest⟩ := ho (s := ⟨t.start, rest⟩) ht.tail hp
    obtain ⟨hargs, hlast⟩ := ih hrest hl
    exact ⟨List.forall_mem_cons.2 ⟨hexpr, hargs⟩, hlast⟩

theorem arguments_yields (ho : operand.Yields) {s : Stream} {list : Arguments} (ht : LawfulTokens s.rest)
    (h : arguments operand s = .ok list) : list.Lawful := by
  unfold arguments at h
  split at h
  · cases h
  · next t rest hs =>
    rw [hs] at ht
    have hrest := ht.tail
    split at h
    · split at h
      · cases h
      · split at h
        · cases h
          exact ⟨List.forall_mem_nil _, hrest.tail⟩
        · obtain ⟨p, hp, h⟩ := bind_eq_ok.1 h
          obtain ⟨more, hm, h⟩ := bind_eq_ok.1 h
          cases h
          obtain ⟨hexpr, hrest⟩ := ho (s := ⟨t.start, _⟩) hrest hp
          obtain ⟨hargs, hlast⟩ := moreArguments_yields ho hrest hm
          exact ⟨List.forall_mem_cons.2 ⟨hexpr, hargs⟩, hlast⟩
    · cases h

theorem all_isLiteral_of_literalValues {position : Nat} {items : List Expr} {values : List Value}
    (hi : ∀ e ∈ items, Grammatical e) (h : literalValues position items = .ok values) :
    values.all isLiteral = true := by
  induction items generalizing values with
  | nil =>
    cases h
    rfl
  | cons e items ih =>
    obtain ⟨he, hitems⟩ := List.forall_mem_cons.1 hi
    cases he with
    | literal hv =>
      obtain ⟨more, hm, h⟩ := bind_eq_ok.1 h
      cases h
      rw [List.all_cons, hv, ih hitems hm]
      rfl
    | _ => cases h

theorem length_orderArguments (name : String) (args : List Expr) :
    (orderArguments name args).length = args.length := by
  unfold orderArguments
  split
  · split <;> rfl
  · rfl

theorem methodCall_yields (ho : operand.Yields) {name : String} {position : Nat} {s : Stream} {p : Parsed}
    (ht : LawfulTokens s.rest) (h : methodCall operand name position s = .ok p) :
    Grammatical p.expr ∧ LawfulTokens p.stream.rest := by
  unfold methodCall at h
  split at h
  · cases h
  · next m hm =>
    obtain ⟨list, hl, h⟩ := bind_eq_ok.1 h
    split at h
    · next hadmits =>
      cases h
      obtain ⟨hargs, hrest⟩ := arguments_yields ho ht hl
      obtain ⟨c, hc, hname, harity⟩ := exists_callable hm
      refine ⟨?_, hrest⟩
      show Grammatical (.call m.name _)
      rw [← hname]
      refine .call hc ?_ fun e he => hargs e (mem_orderArguments he)
      rw [length_orderArguments, harity]
      exact hadmits
    · cases h

theorem primary_yields (ho : operand.Yields) {s : Stream} {p : Parsed} (ht : LawfulTokens s.rest)
    (h : primary operand s = .ok p) : Grammatical p.expr ∧ LawfulTokens p.stream.rest := by
  unfold primary at h
  split at h
  · cases h
  · next t rest hs =>
    rw [hs] at ht
    have htoken := ht t (List.mem_cons_self ..)
    have hrest := ht.tail
    dsimp only at h
    split at h
    · obtain ⟨q, hq, h⟩ := bind_eq_ok.1 h
      obtain ⟨hexpr, hafter⟩ := ho (s := ⟨t.start, rest⟩) hrest hq
      split at h
      · next hstream =>
        split at h
        · cases h
          rw [hstream] at hafter
          exact ⟨hexpr, hafter.tail⟩
        · cases h
      · cases h
    · obtain ⟨q, hq, h⟩ := bind_eq_ok.1 h
      obtain ⟨hexpr, hafter⟩ := ho (s := ⟨t.start, rest⟩) hrest hq
      cases h
      exact ⟨hexpr.negated, hafter⟩
    · cases h
    · next hlexeme =>
      cases h
      rw [hlexeme] at htoken
      exact ⟨.literal htoken, hrest⟩
    · next name hlexeme =>
      have hname : isName name = true := by rwa [hlexeme] at htoken
      split at h
      · obtain ⟨q, hq, h⟩ := bind_eq_ok.1 h
        obtain ⟨hexpr, hafter⟩ := ho (s := ⟨t.start, rest⟩) hrest hq
        cases h
        exact ⟨.negation hexpr, hafter⟩
      · next hnot =>
        split at h
        · cases h
        · next hop =>
          unfold wordOperand at h
          split at h
          · exact methodCall_yields (s := ⟨t.start, rest⟩) ho hrest h
          · obtain ⟨r, hr, h⟩ := bind_eq_ok.1 h
            cases h
            have hfree := isFree_of_not_operator hnot (Bool.eq_false_iff.2 hop)
            have hsegments := segments_of_isName hname
            exact memberPath_yields hrest (by simpa [hsegments] using hname) (by simpa [hsegments] using hfree) hr

/-- The operators that stand between operands. -/
theorem nextOperator?_yields {minPower : Nat} {s after : Stream} {op : BinaryOp} (ht : LawfulTokens s.rest)
    (h : nextOperator? minPower s = some (op, after)) :
    op ∈ BinaryOp.words.map Prod.snd ∧ LawfulTokens after.rest := by
  unfold nextOperator? at h
  split at h
  · cases h
  · next t rest hs =>
    rw [hs] at ht
    split at h
    · split at h
      · next hword =>
        split at h
        · cases h
          obtain ⟨l₁, l₂, hl, -⟩ := List.lookup_eq_some_iff.1 hword
          exact ⟨by simp [hl], ht.tail⟩
        · cases h
      · cases h
    · cases h

theorem operation_yields (ho : operand.Yields) {op : BinaryOp} (hop : op ∈ BinaryOp.words.map Prod.snd) {left : Expr}
    {height : Nat} {s : Stream} {p : Parsed} (hl : Grammatical left) (ht : LawfulTokens s.rest)
    (h : operation operand op left height s = .ok p) : Grammatical p.expr ∧ LawfulTokens p.stream.rest := by
  unfold operation at h
  split at h
  · obtain ⟨⟨values, after⟩, hlist, h⟩ := bind_eq_ok.1 h
    obtain ⟨list, hargs, hpair⟩ := bind_eq_ok.1 hlist
    obtain ⟨_, hvalues, hpair⟩ := bind_eq_ok.1 hpair
    cases hpair
    cases h
    obtain ⟨hlawful, hrest⟩ := arguments_yields ho ht hargs
    exact ⟨.membership hl (all_isLiteral_of_literalValues hlawful hvalues), hrest⟩
  · next lop =>
    obtain ⟨q, hq, h⟩ := bind_eq_ok.1 h
    obtain ⟨hexpr, hafter⟩ := ho ht hq
    cases h
    refine ⟨.combine ?_ hl hexpr, hafter⟩
    cases lop <;> revert hop <;> decide
  · next cop =>
    obtain ⟨q, hq, h⟩ := bind_eq_ok.1 h
    obtain ⟨hexpr, hafter⟩ := ho ht hq
    cases h
    refine ⟨.comparison ?_ hl hexpr, hafter⟩
    cases cop <;> revert hop <;> decide
  · next aop =>
    obtain ⟨q, hq, h⟩ := bind_eq_ok.1 h
    obtain ⟨hexpr, hafter⟩ := ho ht hq
    cases h
    refine ⟨.arithmetic ?_ hl hexpr, hafter⟩
    cases aop <;> revert hop <;> decide

theorem operations_yields (ho : operand.Yields) {minPower height : Nat} {left : Expr} {s : Stream} {p : Parsed}
    (hl : Grammatical left) (ht : LawfulTokens s.rest) (h : operations operand minPower left height s = .ok p) :
    Grammatical p.expr ∧ LawfulTokens p.stream.rest := by
  fun_induction operations operand minPower left height s with
  | case1 =>
    cases h
    exact ⟨hl, ht⟩
  | case2 | case3 => cases h
  | case4 left height s op after hop q hq _ ih =>
    obtain ⟨hmem, hafter⟩ := nextOperator?_yields ht hop
    obtain ⟨hexpr, hrest⟩ := operation_yields ho hmem hl hafter hq
    exact ih hexpr hrest h

theorem expression_yields (depth : Nat) : (expression depth).Yields := by
  induction depth with
  | zero => exact fun _ => nofun
  | succ depth ih =>
    intro power s p ht h
    obtain ⟨q, hq, h⟩ := bind_eq_ok.1 h
    obtain ⟨hexpr, hrest⟩ := primary_yields ih ht hq
    exact operations_yields ih hexpr hrest h

end Yields

theorem grammatical_of_parse {text : String} {e : Expr} (h : parse text = .ok e) : Grammatical e := by
  unfold parse at h
  split at h
  · next tokens htokens =>
    unfold parseTokens at h
    split at h
    · cases h
    · obtain ⟨p, hp, h⟩ := bind_eq_ok.1 h
      split at h
      · cases h
        exact (expression_yields _ (lawfulTokens_of_tokenize htokens) hp).1
      · cases h
  · cases h

end SqlQuery.Filter
