import Mathlib
import SqlQuery.Proofs.ExpressionSurface
import SqlQuery.Proofs.MemberCondition

/-!
# What filters are compiled to

`Compiles` takes a tree to its SQL through its document. For each kind of tree of the grammar it is said what its SQL is
made of: `compiles_arithmetic`, `compiles_comparison`, `compiles_membership` and `compiles_call`; logical operators are
no expressions. As filters, trees are expressions, comparisons of members or logical operators on filters.
-/

namespace SqlQuery

open SqlQuery.Filter (Grammatical isLiteral)

def ArithmeticOp.symbol (op : ArithmeticOp) : String := (Sql.Formatter.arithmeticSymbols.lookup op.key).getD ""

namespace Expr

def isNull : Expr → Bool
  | .literal value => value.isNull
  | _ => false

def isInt : Expr → Bool
  | .literal (.int _) => true
  | _ => false

/-- The left sides of comparisons that are expressions. -/
def isComposite : Expr → Bool
  | .arithmetic .. | .call .. => true
  | _ => false

end Expr

namespace Sql

section

variable {f : Formatter} {e : Expr} {sql : String}

/-- The SQL of an expression that stands alone. -/
def Compiles (f : Formatter) (e : Expr) (sql : String) : Prop :=
  ∃ v, e.render = .ok v ∧ f.expression v = .ok sql

/-! ### Documents -/

theorem renderComparison_eq_ok {op : ComparisonOp} {left : Expr} {rendered : Except RenderError Value}
    {right v : Value} (h : Expr.renderComparison op left rendered right = .ok v) :
    (∃ path, left = .member path ∧ v = .entry path (.entry op.key right)) ∨
      left.isComposite = true ∧ ∃ l, rendered = .ok l ∧ v = .entry op.key (.array [l, right]) := by
  unfold Expr.renderComparison at h
  split at h
  · cases h
    exact .inl ⟨_, rfl, rfl⟩
  · cases rendered <;> cases h
    exact .inr ⟨rfl, _, rfl, rfl⟩
  · cases rendered <;> cases h
    exact .inr ⟨rfl, _, rfl, rfl⟩
  · cases h

/-- Only literals have literals for documents, and no document is a list. -/
theorem render_cases {v : Value} (he : Grammatical e) (h : e.render = .ok v) :
    e = .literal v ∧ isLiteral v = true ∨
      (∀ value, e ≠ .literal value) ∧ isLiteral v = false ∧ operands v = [v] := by
  have hcomparison : ∀ {op : ComparisonOp} {left : Expr} {rendered : Except RenderError Value} {right : Value},
      Expr.renderComparison op left rendered right = .ok v → isLiteral v = false ∧ operands v = [v] := by
    intro op left rendered right h
    obtain ⟨path, -, rfl⟩ | ⟨-, l, -, rfl⟩ := renderComparison_eq_ok h <;> exact ⟨rfl, rfl⟩
  cases he with
  | literal hv =>
    cases h
    exact .inl ⟨rfl, hv⟩
  | member =>
    cases h
    exact .inr ⟨by simp, rfl, rfl⟩
  | arithmetic =>
    rw [Expr.render] at h
    obtain ⟨l, -, h⟩ := bind_eq_ok.1 h
    obtain ⟨r, -, h⟩ := bind_eq_ok.1 h
    cases h
    exact .inr ⟨by simp, rfl, rfl⟩
  | comparison | membership =>
    rw [Expr.render] at h
    obtain ⟨r, -, h⟩ := bind_eq_ok.1 h
    exact .inr ⟨by simp, hcomparison h⟩
  | chain | negation =>
    rw [Expr.render, if_neg (by simp)] at h
    obtain ⟨values, -, h⟩ := bind_eq_ok.1 h
    cases h
    exact .inr ⟨by simp, rfl, rfl⟩
  | call =>
    rw [Expr.render] at h
    obtain ⟨values, -, h⟩ := bind_eq_ok.1 h
    split at h
    · cases h
    · cases h
      exact .inr ⟨by simp, rfl, rfl⟩

theorem operands_of_render {v : Value} (he : Grammatical e) (h : e.render = .ok v) : operands v = [v] := by
  rcases render_cases he h with ⟨-, hv⟩ | ⟨-, -, hv⟩
  · cases v <;> first | rfl | cases hv
  · exact hv

theorem isNull_of_render {v : Value} (he : Grammatical e) (h : e.render = .ok v) : v.isNull = e.isNull := by
  rcases render_cases he h with ⟨rfl, -⟩ | ⟨hne, hv, -⟩
  · rfl
  · cases e with
    | literal value => exact absurd rfl (hne value)
    | _ => cases v <;> first | rfl | cases hv

theorem isInt_of_render {vs : List Value} {v : Value} {i : Nat} (he : Grammatical e) (h : e.render = .ok v)
    (hi : vs[i]? = some v) (hn : e.isInt = false) : intAt? vs i = none := by
  rcases render_cases he h with ⟨rfl, -⟩ | ⟨-, hv, -⟩
  · unfold intAt?
    rw [hi]
    cases v <;> first | rfl | cases hn
  · exact intAt?_of_not_literal hi hv

/-! ### Lists -/

/-- A function that goes through a list item by item gives a result for each item. -/
theorem forall₂_of_traversal {ε α β : Type} {g : List α → Except ε (List β)} {r : α → Except ε β}
    (hnil : g [] = .ok []) (hcons : ∀ x xs, g (x :: xs) = (do return (← r x) :: (← g xs))) {xs : List α} {ys : List β}
    (h : g xs = .ok ys) : List.Forall₂ (fun x y => r x = .ok y) xs ys := by
  induction xs generalizing ys with
  | nil =>
    cases hnil.symm.trans h
    exact .nil
  | cons x xs ih =>
    rw [hcons] at h
    obtain ⟨y, hy, h⟩ := bind_eq_ok.1 h
    obtain ⟨ys, hys, h⟩ := bind_eq_ok.1 h
    cases h
    exact .cons hy (ih hys)

theorem forall₂_mapM {α β ε : Type} {g : α → Except ε β} {xs : List α} {ys : List β} (h : xs.mapM g = .ok ys) :
    List.Forall₂ (fun x y => g x = .ok y) xs ys :=
  forall₂_of_traversal (g := List.mapM g) List.mapM_nil (fun _ _ => List.mapM_cons) h

theorem forall₂_renderAll {es : List Expr} {vs : List Value} (h : Expr.renderAll es = .ok vs) :
    List.Forall₂ (fun e v => e.render = .ok v) es vs :=
  forall₂_of_traversal (by rw [Expr.renderAll]) (fun _ _ => by rw [Expr.renderAll]) h

theorem forall₂_expressionsIn {vs : List Value} {texts : List String}
    (h : f.expressionsIn f.plainScope vs = .ok texts) :
    List.Forall₂ (fun v text => f.expression v = .ok text) vs texts :=
  forall₂_of_traversal (by rw [Formatter.expressionsIn]) (fun _ _ => by rw [Formatter.expressionsIn]; rfl) h

theorem forall₂_filterItems {scope : Scope} {vs : List Value} {cs : List Condition}
    (h : f.filterItems scope vs = .ok cs) : List.Forall₂ (fun v c => f.filterIn scope v = .ok c) vs cs :=
  forall₂_of_traversal (by rw [Formatter.filterItems]) (fun _ _ => by rw [Formatter.filterItems]) h

theorem exists_getElem? {α β : Type} {R : α → β → Prop} {xs : List α} {ys : List β} {i : Nat} {x : α}
    (h : List.Forall₂ R xs ys) (hx : xs[i]? = some x) : ∃ y, ys[i]? = some y ∧ R x y := by
  induction h generalizing i with
  | nil => cases hx
  | cons hxy _ ih =>
    cases i with
    | zero =>
      cases hx
      exact ⟨_, rfl, hxy⟩
    | succ i =>
      obtain ⟨y, hy, hxy⟩ := ih hx
      exact ⟨y, hy, hxy⟩

/-- What holds of a list's items holds of what they are related to. -/
theorem forall_mem_of_forall₂ {α β : Type} {R : α → β → Prop} {P : β → Prop} {xs : List α} {ys : List β}
    (h : List.Forall₂ R xs ys) (hp : ∀ x ∈ xs, ∀ y, R x y → P y) : ∀ y ∈ ys, P y := by
  induction h with
  | nil => exact List.forall_mem_nil _
  | cons hxy _ ih =>
    obtain ⟨hx, hxs⟩ := List.forall_mem_cons.1 hp
    exact List.forall_mem_cons.2 ⟨hx _ hxy, ih hxs⟩

/-! ### Expressions -/

theorem shielded_name (hf : f.style.nameFormat = "$1") {path : String}
    (hn : (Filter.segments path).all Filter.isName = true) : Shielded f.dialect (f.style.name path) := by
  rw [name_default hf]
  refine shielded_of_all (p := fun c => c = '.' || Filter.isWordChar c) (by decide) fun c hc => ?_
  rcases Filter.mem_splitOn '.' hc with rfl | ⟨piece, hpiece, hc⟩
  · rfl
  · have hname := List.all_eq_true.1 hn (String.ofList piece) (List.mem_map_of_mem hpiece)
    simp [Filter.isWordChar_of_isName hname (by simpa using hc)]

theorem expression_pair {a b : Value} {texts : List String} (h : f.expressionsIn f.plainScope [a, b] = .ok texts) :
    ∃ l r, f.expression a = .ok l ∧ f.expression b = .ok r ∧ texts = [l, r] := by
  cases forall₂_expressionsIn h with
  | cons hl hrest =>
    cases hrest with
    | cons hr hnil =>
      cases hnil
      exact ⟨_, _, hl, hr, rfl⟩

theorem operator_of_expression {key : String} {arg : Value} (h : f.expression (.entry key arg) = .ok sql) :
    isOperatorKey key = true ∧ ∃ texts, f.expressionsIn f.plainScope (operands arg) = .ok texts ∧
      f.operator key arg (operands arg) texts = .ok sql := by
  rw [Formatter.expression, Value.entry, expressionIn_entry] at h
  split at h
  · next hk =>
    obtain ⟨texts, htexts, h⟩ := bind_eq_ok.1 h
    exact ⟨hk, texts, htexts, h⟩
  · cases h

theorem compiles_arithmetic {op : ArithmeticOp} {left right : Expr} (h : Compiles f (.arithmetic op left right) sql) :
    ∃ l r, Compiles f left l ∧ Compiles f right r ∧ sql = "(" ++ l ++ " " ++ op.symbol ++ " " ++ r ++ ")" := by
  obtain ⟨v, hv, hsql⟩ := h
  rw [Expr.render] at hv
  obtain ⟨a, ha, hv⟩ := bind_eq_ok.1 hv
  obtain ⟨b, hb, hv⟩ := bind_eq_ok.1 hv
  cases hv
  obtain ⟨-, texts, htexts, hsql⟩ := operator_of_expression hsql
  obtain ⟨l, r, hl, hr, rfl⟩ := expression_pair htexts
  have hsymbol : Formatter.arithmeticSymbols.lookup op.key = some op.symbol := by cases op <;> decide
  refine ⟨l, r, ⟨a, ha, hl⟩, ⟨b, hb, hr⟩, ?_⟩
  unfold Formatter.operator at hsql
  rw [hsymbol] at hsql
  exact (Except.ok.inj hsql).symm

/-- Orders and equality need two operands. -/
theorem operator_comparison {op : ComparisonOp} (ho : op ≠ .isIn ∧ op ≠ .notIn) {args : Value} {raw : List Value}
    {texts : List String} (h : f.operator op.key args raw texts = .ok sql) :
    ∃ a v l r, raw = [a, v] ∧ texts = [l, r] ∧ sql = l ++ comparisonText op v r := by
  obtain ⟨symbol, hsymbol⟩ := Option.isSome_iff_exists.1 (symbol_of_orders ho).1
  have harithmetic : Formatter.arithmeticSymbols.lookup op.key = none := by cases op <;> decide
  unfold Formatter.operator at h
  rw [harithmetic, hsymbol] at h
  dsimp only at h
  split at h
  · cases h
    exact ⟨_, _, _, _, rfl, rfl, comparison_eq_append hsymbol _ _⟩
  · cases h

theorem compiles_comparison {op : ComparisonOp} {left right : Expr} (ho : op ≠ .isIn ∧ op ≠ .notIn)
    (hr : Grammatical right) (h : Compiles f (.comparison op left (some right)) sql) :
    left.isComposite = true ∧ ∃ l v r, Compiles f left l ∧ right.render = .ok v ∧ f.expression v = .ok r ∧
      sql = l ++ comparisonText op v r := by
  obtain ⟨document, hdocument, hsql⟩ := h
  rw [Expr.render] at hdocument
  obtain ⟨v, hv, hdocument⟩ := bind_eq_ok.1 hdocument
  obtain ⟨path, -, rfl⟩ | ⟨hcomposite, a, ha, rfl⟩ := renderComparison_eq_ok hdocument
  · -- the comparison would be an expression without its left side
    obtain ⟨-, texts, htexts, -⟩ := operator_of_expression hsql
    cases forall₂_expressionsIn htexts with
    | cons hinner _ =>
      obtain ⟨-, texts, -, hinner⟩ := operator_of_expression hinner
      obtain ⟨_, _, _, _, hraw, -⟩ := operator_comparison ho hinner
      rw [operands_of_render hr hv] at hraw
      cases hraw
  · obtain ⟨-, texts, htexts, hsql⟩ := operator_of_expression hsql
    obtain ⟨l, r, hl, hr, rfl⟩ := expression_pair htexts
    obtain ⟨_, _, _, _, hraw, htexts, rfl⟩ := operator_comparison ho hsql
    cases hraw
    cases htexts
    exact ⟨hcomposite, l, v, r, ⟨a, ha, hl⟩, hv, hr, rfl⟩

theorem operator_in {args : Value} {raw : List Value} {texts : List String}
    (h : f.operator "$in" args raw texts = .ok sql) : ∃ l r, texts = [l, r] ∧ sql = l ++ " IN (" ++ r ++ ")" := by
  have hlookup : Formatter.arithmeticSymbols.lookup "$in" = none ∧ Formatter.comparisonSymbols.lookup "$in" = none := by
    decide
  unfold Formatter.operator at h
  rw [hlookup.1, hlookup.2] at h
  dsimp only at h
  rw [if_pos (.inl rfl)] at h
  split at h
  · next l r =>
    refine ⟨l, r, rfl, ?_⟩
    rw [if_neg (by decide), String.append_empty] at h
    exact (Except.ok.inj h).symm
  · cases h

theorem balanced_literals {values : List Value} {texts : List String} (hv : values.all isLiteral = true)
    (h : f.expressionsIn f.plainScope values = .ok texts) : ∀ t ∈ texts, Balanced f.dialect t := by
  refine forall_mem_of_forall₂ (forall₂_expressionsIn h) fun v hmem text htext => ?_
  have hliteral : isLiteral v = true := List.all_eq_true.1 hv v hmem
  obtain ⟨constant, hconstant, hexpression⟩ := constant_of_isLiteral f hliteral
  cases (hexpression f.plainScope).symm.trans htext
  exact (shielded_constant hliteral hconstant).balanced

/-- A list in parentheses adds only a word to the surface. -/
theorem membership_surface {d : Dialect} {l r : String} (hl : Balanced d l) (hr : Balanced d r) :
    Balanced d (l ++ " IN (" ++ r ++ ")") ∧ (Atomic d l → Atomic d (l ++ " IN (" ++ r ++ ")")) := by
  have hopened : Opened d (" IN " ++ "(") [] 1 := .start (by decide)
  have hlist : Shielded d (" IN (" ++ r ++ ")") := (hopened.argument hr (by decide) fun _ => rfl).encloses.shielded
  have hparted : Parted d l (" IN (" ++ r ++ ")") :=
    .inr ⟨hl.closed, ' ', "IN (".toList ++ r.toList ++ ")".toList, by simp, by decide⟩
  have hassoc : l ++ " IN (" ++ r ++ ")" = l ++ (" IN (" ++ r ++ ")") := by simp [String.append_assoc]
  rw [hassoc]
  refine ⟨hl.append hlist.balanced hparted, fun hatomic => ?_⟩
  rw [Atomic, hl.surface_append hparted, List.all_append, hatomic, hlist.atomic]
  rfl

theorem compiles_membership {left : Expr} {values : List Value} (hv : values.all isLiteral = true)
    (h : Compiles f (.comparison .isIn left (some (.literal (.array values)))) sql) :
    (∃ path, left = .member path ∧ Shielded f.dialect sql) ∨
      left.isComposite = true ∧ ∃ l list, Compiles f left l ∧ Balanced f.dialect list ∧ sql = l ++ " IN (" ++ list ++ ")" := by
  obtain ⟨document, hdocument, hsql⟩ := h
  rw [Expr.render] at hdocument
  obtain ⟨path, rfl, rfl⟩ | ⟨hcomposite, a, ha, rfl⟩ := renderComparison_eq_ok hdocument
  · -- the member is called as a method of the membership
    left
    obtain ⟨-, texts, htexts, hsql⟩ := operator_of_expression hsql
    cases forall₂_expressionsIn htexts with
    | @cons _ inner _ _ hinner hnil =>
      cases hnil
      obtain ⟨-, items, hitems, hinner⟩ := operator_of_expression hinner
      obtain ⟨l, r, rfl, rfl⟩ := operator_in hinner
      have hbalanced := balanced_literals hv hitems
      obtain ⟨m, -, hcall⟩ := call?_of_operator hsql
      have hallows : ∀ m, allows (Filter.arity m) 1 = true := by
        intro m
        cases m <;> rfl
      refine ⟨path, rfl, (called_of_call? (List.forall_mem_singleton.2 ?_) (hallows m) hcall).shielded⟩
      exact (membership_surface (hbalanced l (by simp)) (hbalanced r (by simp))).1
  · right
    obtain ⟨-, texts, htexts, hsql⟩ := operator_of_expression hsql
    obtain ⟨l, list, hl, hlist, rfl⟩ := expression_pair htexts
    obtain ⟨_, _, htexts, rfl⟩ := operator_in hsql
    cases htexts
    refine ⟨hcomposite, l, list, ⟨a, ha, hl⟩, ?_, rfl⟩
    rw [Formatter.expression, Formatter.expressionIn] at hlist
    obtain ⟨items, hitems, hlist⟩ := bind_eq_ok.1 hlist
    cases hlist
    exact .joinWith (balanced_literals hv hitems) (by decide) (by decide)

theorem operands_argumentValue {values : List Value} (h : ∀ v ∈ values, operands v = [v]) :
    operands (Expr.argumentValue values) = values := by
  rcases values with _ | ⟨v, _ | ⟨w, values⟩⟩
  · rfl
  · exact h v (by simp)
  · rfl

/-- The keys of calls are those of methods, and mean nothing else. -/
theorem method_of_vocabulary {c : Filter.Callable} (h : c ∈ Filter.vocabulary) :
    "$" ++ c.name ∉ ["$in", "$nin", "$and", "$or", "$not", "$nor"] ∧
      Formatter.arithmeticSymbols.lookup ("$" ++ c.name) = none ∧
      Formatter.comparisonSymbols.lookup ("$" ++ c.name) = none ∧
      ∃ m, Method.ofKey? ("$" ++ c.name) = some m ∧ m.name = c.name ∧ Filter.arity m = c.arity := by
  have hwords : ∀ c ∈ Filter.vocabulary, "$" ++ c.name ∉ ["$in", "$nin", "$and", "$or", "$not", "$nor"] ∧
      Formatter.arithmeticSymbols.lookup ("$" ++ c.name) = none ∧
      Formatter.comparisonSymbols.lookup ("$" ++ c.name) = none ∧
      (Method.ofKey? ("$" ++ c.name)).any (fun m => m.name = c.name ∧ Filter.arity m = c.arity) = true := by decide
  obtain ⟨hkeys, harithmetic, hcomparison, hm⟩ := hwords c h
  obtain ⟨m, hm, hname⟩ := (Option.any_eq_true ..).1 hm
  exact ⟨hkeys, harithmetic, hcomparison, m, hm, of_decide_eq_true hname⟩

theorem compiles_call {c : Filter.Callable} {args : List Expr} (hm : c ∈ Filter.vocabulary)
    (ha : ∀ e ∈ args, Grammatical e) (h : Compiles f (.call c.name args) sql) :
    ∃ values texts m, Expr.renderAll args = .ok values ∧ f.expressionsIn f.plainScope values = .ok texts ∧
      m.name = c.name ∧ Filter.arity m = c.arity ∧ f.call? m values texts = some sql := by
  obtain ⟨document, hdocument, hsql⟩ := h
  rw [Expr.render] at hdocument
  obtain ⟨values, hvalues, hdocument⟩ := bind_eq_ok.1 hdocument
  split at hdocument
  · cases hdocument
  · cases hdocument
    have hsingle : ∀ v ∈ values, operands v = [v] :=
      forall_mem_of_forall₂ (forall₂_renderAll hvalues) fun e he v hv => operands_of_render (ha e he) hv
    obtain ⟨-, texts, htexts, hsql⟩ := operator_of_expression hsql
    rw [operands_argumentValue hsingle] at htexts hsql
    obtain ⟨hkeys, harithmetic, hcomparison, m, hm, hname, harity⟩ := method_of_vocabulary hm
    refine ⟨values, texts, m, hvalues, htexts, hname, harity, ?_⟩
    simp only [List.mem_cons, not_or] at hkeys
    unfold Formatter.operator at hsql
    rw [harithmetic, hcomparison] at hsql
    dsimp only at hsql
    rw [if_neg (not_or.2 ⟨hkeys.1, hkeys.2.1⟩), hm] at hsql
    dsimp only at hsql
    split at hsql
    · next hcall =>
      cases hsql
      exact hcall
    · cases hsql

theorem not_compiles_logical (op : LogicalOp) (args : List Expr) : ¬ Compiles f (.logical op args) sql := by
  rintro ⟨document, hdocument, hsql⟩
  rw [Expr.render] at hdocument
  split at hdocument
  · cases hdocument
  · obtain ⟨values, -, hdocument⟩ := bind_eq_ok.1 hdocument
    cases hdocument
    obtain ⟨-, texts, -, hsql⟩ := operator_of_expression hsql
    have hkey : Formatter.arithmeticSymbols.lookup op.key = none ∧ Formatter.comparisonSymbols.lookup op.key = none ∧
        ¬ (op.key = "$in" ∨ op.key = "$nin") ∧ Method.ofKey? op.key = none := by cases op <;> decide
    obtain ⟨harithmetic, hcomparison, hin, hmethod⟩ := hkey
    unfold Formatter.operator at hsql
    rw [harithmetic, hcomparison] at hsql
    dsimp only at hsql
    rw [if_neg hin, hmethod] at hsql
    cases hsql

/-! ### Filters -/

/-- An operator that is not logical makes an expression of the whole filter. -/
theorem filterIn_expression {key : String} {value : Value} {c : Condition} (hk : isOperatorKey key = true)
    (hl : key ∉ ["$and", "$or", "$not", "$nor"]) (h : f.filterIn f.plainScope (.entry key value) = .ok c) :
    ∃ sql, f.expression (.entry key value) = .ok sql ∧ c.text = sql := by
  simp only [List.mem_cons, List.not_mem_nil, or_false, not_or] at hl
  rw [Value.entry, Formatter.filterIn, Formatter.filterEntries, Formatter.filterEntry, if_neg hl.1, if_neg hl.2.1,
    if_neg hl.2.2.1, if_neg hl.2.2.2, if_pos hk, Formatter.filterEntries] at h
  obtain ⟨cs, hcs, h⟩ := bind_eq_ok.1 h
  obtain ⟨leaf, hleaf, hcs⟩ := bind_eq_ok.1 hcs
  obtain ⟨sql, hsql, hleaf⟩ := bind_eq_ok.1 hleaf
  cases hleaf
  cases hcs
  cases h
  exact ⟨sql, hsql, Condition.text_leaf sql⟩

theorem occurs_group (c : Condition) : Occurs c.text (Condition.group c).text := by
  rw [Condition.text_group]
  exact ((Occurs.refl _).append_left _).append_right _

/-- Each condition is in parentheses in the text of a logical operator on them. -/
theorem filterIn_logical {op : LogicalOp} {scope : Scope} {values : List Value} {c : Condition}
    (h : f.filterIn scope (.entry op.key (.array values)) = .ok c) :
    ∃ cs, f.filterItems scope values = .ok cs ∧ ∀ d ∈ cs, Occurs (Condition.group d).text c.text := by
  have hchain : ∀ (op : Connective) (cs : List Condition), ∀ d ∈ cs,
      Occurs (Condition.group d).text (Condition.chain op (cs.map Condition.group)).text := by
    intro op cs d hd
    rw [Condition.text_chain]
    exact occurs_joinWith _ (List.mem_map_of_mem (List.mem_map_of_mem hd))
  have hnegation : ∀ (op : Connective) (cs : List Condition), ∀ d ∈ cs,
      Occurs (Condition.group d).text (Condition.negation (.chain op (cs.map Condition.group))).text := by
    intro op cs d hd
    rw [Condition.text_negation]
    exact ((hchain op cs d hd).append_left _).append_right _
  have hitems : ∀ {cs}, f.filterGroup scope op.key (.array values) = .ok cs → f.filterItems scope values = .ok cs := by
    intro cs hcs
    cases values with
    | nil => cases hcs
    | cons => exact hcs
  rw [Value.entry, Formatter.filterIn, Formatter.filterEntries] at h
  obtain ⟨cs, hcs, h⟩ := bind_eq_ok.1 h
  obtain ⟨c', hc, hcs⟩ := bind_eq_ok.1 hcs
  cases hcs
  cases h
  unfold Formatter.filterEntry at hc
  cases op with
  | and | or =>
    obtain ⟨ds, hds, hc⟩ := bind_eq_ok.1 hc
    cases hc
    exact ⟨ds, hitems hds, hchain _ ds⟩
  | not | nor =>
    obtain ⟨ds, hds, hc⟩ := bind_eq_ok.1 hc
    cases hc
    exact ⟨ds, hitems hds, hnegation _ ds⟩

theorem exists_expressionIn_of_fieldOperator {op : ComparisonOp} (ho : op ≠ .isIn ∧ op ≠ .notIn) {scope : Scope}
    {column : String} {v : Value} {condition : String → Except FormatError Condition} {c : Condition}
    (h : f.fieldOperator scope column op.key v condition = .ok c) : ∃ r, f.expressionIn scope v = .ok r := by
  obtain ⟨hsymbol, hkey⟩ := symbol_of_orders ho
  obtain ⟨symbol, hsymbol⟩ := Option.isSome_iff_exists.1 hsymbol
  simp only [List.mem_cons, List.not_mem_nil, or_false, not_or] at hkey
  obtain ⟨hnot, hin, hnin, hregex, htext, -⟩ := hkey
  unfold Formatter.fieldOperator at h
  rw [if_neg hnot, if_neg (not_or.2 ⟨hin, hnin⟩), if_neg hregex, if_neg htext, hsymbol] at h
  obtain ⟨r, hr, -⟩ := bind_eq_ok.1 h
  exact ⟨r, hr⟩

theorem filterIn_member {path : String} {op : ComparisonOp} (ho : op ≠ .isIn ∧ op ≠ .notIn) {v : Value} {c : Condition}
    (hv : operands v = [v]) (h : f.filterIn f.plainScope (.entry path (.entry op.key v)) = .ok c) :
    ∃ r, f.expression v = .ok r ∧ c.text = f.style.name path ++ comparisonText op v r := by
  cases hk : isOperatorKey path with
  | true =>
    -- the comparison would be an expression without its left side
    rw [filterIn_operatorKey hk] at h
    obtain ⟨sql, hsql, -⟩ := bind_eq_ok.1 h
    obtain ⟨-, texts, -, hsql⟩ := operator_of_expression hsql
    obtain ⟨_, _, _, _, hraw, -⟩ := operator_comparison ho hsql
    rw [hv] at hraw
    cases hraw
  | false =>
    have hentry : f.filterIn f.plainScope (.entry path (.entry op.key v)) =
        f.fieldCondition f.plainScope (f.style.name path) (.entry op.key v) := filterIn_entry hk _
    have hoptions : op.key ≠ "$options" := by cases op <;> decide
    rw [hentry, Value.entry, Formatter.fieldCondition, Formatter.fieldOperators, if_neg hoptions] at h
    obtain ⟨cs, hcs, h⟩ := bind_eq_ok.1 h
    obtain ⟨c', hc, hcs⟩ := bind_eq_ok.1 hcs
    cases hcs
    cases h
    obtain ⟨r, hr⟩ : ∃ r, f.expressionIn f.plainScope v = .ok r := exists_expressionIn_of_fieldOperator ho hc
    rw [fieldOperator_of_takes hr] at hc
    cases hc
    refine ⟨r, hr, ?_⟩
    rw [Condition.text_chain, List.map_singleton, Condition.text_leaf]
    rfl

end

end Sql

end SqlQuery
