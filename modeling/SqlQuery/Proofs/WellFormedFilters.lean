import Mathlib
import SqlQuery.Proofs.DocumentReading
import SqlQuery.Proofs.FilterMerging

/-!
# Well-formed filters have SQL

`IsTerm` are the expressions that stand for values and `IsCondition` the filters on them. A term has a document, and the
document has SQL in every dialect and with every style of names (`Denotes`): calls are the ones to look at, where each
function takes its arguments by position. From there it goes up through comparisons and logical operators. A literal on
the left of `in` is what makes a filter fail, and then there is no document already (`sql_of_wellFormed`).
-/

namespace SqlQuery

open SqlQuery.Filter (isLiteral vocabulary)
open SqlQuery.Sql (Formatter operands)

namespace Expr

def isLiteral : Expr → Bool
  | .literal _ => true
  | _ => false

mutual

/-- Under the logical operators there is a comparison of which a literal is the left side. -/
def comparesLiteral : Expr → Bool
  | .comparison _ left _ => left.isLiteral
  | .logical _ args => anyComparesLiteral args
  | _ => false

def anyComparesLiteral : List Expr → Bool
  | [] => false
  | e :: es => e.comparesLiteral || anyComparesLiteral es

end

theorem anyComparesLiteral_eq_any (es : List Expr) : anyComparesLiteral es = es.any comparesLiteral := by
  induction es with
  | nil => rfl
  | cons e es ih => rw [anyComparesLiteral, ih, List.any_cons]

end Expr

namespace Filter

/-- Expressions that stand for values. The text that a match looks for is a literal, and a substring does not start at
the greatest integer. -/
inductive IsTerm : Expr → Prop where
  | member {path : String} (hk : isOperatorKey path = false) : IsTerm (.member path)
  | literal {value : Value} (hv : isLiteral value = true) : IsTerm (.literal value)
  | arithmetic {op : ArithmeticOp} {left right : Expr} (hl : IsTerm left) (hr : IsTerm right) :
    IsTerm (.arithmetic op left right)
  | call {c : Callable} {args : List Expr} (hc : c ∈ vocabulary) (hn : c.arity.admits args.length = true)
    (ht : c.name ∈ ["startsWith", "endsWith", "contains"] → ∃ text, args[1]? = some (.literal (.string text)))
    (hs : c.name = "substr" → args[1]? ≠ some (.literal (.int Int64.maxValue))) (ha : ∀ e ∈ args, IsTerm e) :
    IsTerm (.call c.name args)

/-- Filters on terms. -/
inductive IsCondition : Expr → Prop where
  | call {name : String} {args : List Expr} (h : IsTerm (.call name args)) : IsCondition (.call name args)
  | comparison {op : ComparisonOp} {left right : Expr} (ho : op.isMembership = false) (hl : IsTerm left)
    (hn : left.isLiteral = false) (hr : IsTerm right) : IsCondition (.comparison op left (some right))
  | membership {left : Expr} {values : List Value} (hl : IsTerm left) (hv : values.all isLiteral = true) :
    IsCondition (.comparison .isIn left (some (.literal (.array values))))
  | logical {op : LogicalOp} {args : List Expr} (ho : op ≠ .nor) (hne : args ≠ []) (ha : ∀ e ∈ args, IsCondition e) :
    IsCondition (.logical op args)

end Filter

namespace Sql

section

variable {f : Formatter}

/-! ### Calls -/

theorem isSome_call?_of_isUnary {m : Method} (hm : m.isUnary = true) (raw : List Value) (first : String)
    (rest : List String) : (f.call? m raw (first :: rest)).isSome = true := by
  obtain ⟨text, htext⟩ := Option.isSome_iff_exists.1 ((isSome_unaryCall? f m first).trans hm)
  simp only [Formatter.call?, htext, Option.isSome_some]

theorem isSome_substring? {raw : List Value} (h : raw[1]? ≠ some (.int Int64.maxValue)) (first start : String)
    (rest : List String) : (Formatter.substring? first raw (first :: start :: rest)).isSome = true := by
  have hstart : (Formatter.substringStart? raw (first :: start :: rest)).isSome = true := by
    rcases raw with _ | ⟨a, _ | ⟨b, raw⟩⟩
    · rfl
    · rfl
    · cases b with
      | int n =>
        have hn : n ≠ Int64.maxValue := by
          rintro rfl
          exact h rfl
        simp [Formatter.substringStart?, hn]
      | _ => rfl
  rw [substring?_eq, Option.isSome_map, hstart]

theorem isSome_matchCall? {m : Method} (hm : m ∈ [Method.startsWith, .endsWith, .contains]) {raw : List Value}
    {text : String} (h : raw[1]? = some (.string text)) (first : String) :
    (f.matchCall? m first raw).isSome = true := by
  rcases raw with _ | ⟨a, _ | ⟨b, raw⟩⟩
  · cases h
  · cases h
  · cases h
    fin_cases hm <;> rfl

/-- What is asked of the arguments of a call beyond their number. -/
structure Suits (m : Method) (raw : List Value) : Prop where
  text : m ∈ [Method.startsWith, .endsWith, .contains] → ∃ text, raw[1]? = some (.string text)
  start : m = .substr → raw[1]? ≠ some (.int Int64.maxValue)

theorem exists_cons_cons {α : Type} {xs : List α} (h : 2 ≤ xs.length) : ∃ x y rest, xs = x :: y :: rest := by
  rcases xs with _ | ⟨x, _ | ⟨y, rest⟩⟩
  · simp at h
  · simp at h
  · exact ⟨x, y, rest, rfl⟩

/-- A method that has as many arguments as it takes. Arithmetic is written with symbols instead. -/
theorem isSome_call? {m : Method} (hm : Formatter.arithmeticSymbols.lookup m.key = none) {raw : List Value}
    {sql : List String} (hlen : sql.length = raw.length) (hn : (Filter.arity m).admits raw.length = true)
    (hs : Suits m raw) : (f.call? m raw sql).isSome = true := by
  rw [← hlen] at hn
  have htwo : Filter.arity m = .orOneMore 2 → 2 ≤ sql.length := by
    intro harity
    rw [harity, Filter.Arity.admits, Bool.or_eq_true, decide_eq_true_eq, decide_eq_true_eq] at hn
    omega
  by_cases hu : m.isUnary = true
  · have hone : Filter.arity m = .exactly 1 := by
      revert hu
      cases m <;> intro hu <;> first | rfl | cases hu
    rw [hone] at hn
    obtain ⟨first, rfl⟩ := List.length_eq_one_iff.1 (of_decide_eq_true hn)
    exact isSome_call?_of_isUnary hu raw first []
  · cases m with
    | round =>
      rcases sql with _ | ⟨first, _ | ⟨places, rest⟩⟩
      · cases hn
      · rfl
      · rfl
    | substr =>
      obtain ⟨first, start, rest, rfl⟩ := exists_cons_cons (htwo rfl)
      exact isSome_substring? (hs.start rfl) first start rest
    | indexOfBytes =>
      obtain ⟨first, search, rest, rfl⟩ := exists_cons_cons (htwo rfl)
      rfl
    | concat =>
      rcases sql with _ | ⟨first, rest⟩
      · cases hn
      · rfl
    | startsWith | endsWith | contains =>
      rcases sql with _ | ⟨first, rest⟩
      · cases hn
      · obtain ⟨text, htext⟩ := hs.text (by decide)
        exact isSome_matchCall? (by decide) htext first
    | add | subtract | multiply | divide | mod | bit => cases hm
    | _ => exact absurd rfl hu

/-! ### Terms -/

/-- A function that goes through a list item by item has a result if it has one for each item. -/
theorem exists_of_traversal {ε α β : Type} {g : List α → Except ε (List β)} {r : α → Except ε β} {P : α → β → Prop}
    (hnil : g [] = .ok []) (hcons : ∀ x xs, g (x :: xs) = (do return (← r x) :: (← g xs))) {xs : List α}
    (h : ∀ x ∈ xs, ∃ y, r x = .ok y ∧ P x y) : ∃ ys, g xs = .ok ys ∧ List.Forall₂ P xs ys := by
  induction xs with
  | nil => exact ⟨[], hnil, .nil⟩
  | cons x xs ih =>
    obtain ⟨⟨y, hy, hp⟩, hxs⟩ := List.forall_mem_cons.1 h
    obtain ⟨ys, hys, hps⟩ := ih hxs
    exact ⟨y :: ys, by rw [hcons, hy, hys]; rfl, .cons hp hps⟩

theorem exists_renderAll {es : List Expr} {P : Expr → Value → Prop} (h : ∀ e ∈ es, ∃ v, e.render = .ok v ∧ P e v) :
    ∃ vs, Expr.renderAll es = .ok vs ∧ List.Forall₂ P es vs :=
  exists_of_traversal (by rw [Expr.renderAll]) (fun _ _ => by rw [Expr.renderAll]) h

theorem exists_expressionsIn {vs : List Value} (h : ∀ v ∈ vs, ∃ sql, f.expression v = .ok sql) :
    ∃ texts, f.expressionsIn f.plainScope vs = .ok texts ∧ texts.length = vs.length := by
  obtain ⟨texts, htexts, hall⟩ := exists_of_traversal (g := f.expressionsIn f.plainScope)
    (r := f.expression) (P := fun _ _ => True) (by rw [Formatter.expressionsIn])
    (fun _ _ => by rw [Formatter.expressionsIn]; rfl) fun v hv => (h v hv).imp fun _ hsql => ⟨hsql, trivial⟩
  exact ⟨texts, htexts, hall.length_eq.symm⟩

/-- The tree has a document, and the document has SQL of its own. -/
structure Denotes (e : Expr) (v : Value) : Prop where
  render : e.render = .ok v
  single : operands v = [v]
  literal : isLiteral v = true → e = .literal v
  expression : ∀ f : Formatter, ∃ sql, f.expression v = .ok sql

theorem expression_entry {key : String} {arg : Value} {texts : List String} (hk : isOperatorKey key = true)
    (h : f.expressionsIn f.plainScope (operands arg) = .ok texts) :
    f.expression (.entry key arg) = f.operator key arg (operands arg) texts := by
  rw [Formatter.expression, Value.entry, expressionIn_entry, if_pos hk, h]
  rfl

theorem exists_expressions_pair {l r : Value} (hl : ∃ sql, f.expression l = .ok sql)
    (hr : ∃ sql, f.expression r = .ok sql) : ∃ a b, f.expressionsIn f.plainScope [l, r] = .ok [a, b] := by
  obtain ⟨texts, htexts, hlen⟩ :=
    exists_expressionsIn (List.forall_mem_cons.2 ⟨hl, List.forall_mem_singleton.2 hr⟩)
  obtain ⟨a, b, rfl⟩ := List.length_eq_two.1 hlen
  exact ⟨a, b, htexts⟩

theorem exists_expression_arithmetic (op : ArithmeticOp) {l r : Value} (hl : ∃ sql, f.expression l = .ok sql)
    (hr : ∃ sql, f.expression r = .ok sql) : ∃ sql, f.expression (.entry op.key (.array [l, r])) = .ok sql := by
  obtain ⟨a, b, htexts⟩ := exists_expressions_pair hl hr
  have hsymbol : Formatter.arithmeticSymbols.lookup op.key = some op.symbol := by cases op <;> decide
  rw [expression_entry op.isOperatorKey_key htexts]
  unfold Formatter.operator
  rw [hsymbol]
  exact ⟨_, rfl⟩

theorem exists_expression_comparison (op : ComparisonOp) {l r : Value} (hl : ∃ sql, f.expression l = .ok sql)
    (hr : ∃ sql, f.expression r = .ok sql) : ∃ sql, f.expression (.entry op.key (.array [l, r])) = .ok sql := by
  obtain ⟨a, b, htexts⟩ := exists_expressions_pair hl hr
  rw [expression_entry op.isOperatorKey_key htexts]
  cases op <;> exact ⟨_, rfl⟩

theorem exists_expression_call {c : Filter.Callable} {args : List Expr} {values : List Value} (hc : c ∈ vocabulary)
    (hn : c.arity.admits args.length = true)
    (ht : c.name ∈ ["startsWith", "endsWith", "contains"] → ∃ text, args[1]? = some (.literal (.string text)))
    (hs : c.name = "substr" → args[1]? ≠ some (.literal (.int Int64.maxValue)))
    (ha : List.Forall₂ Denotes args values) :
    ∃ sql, f.expression (.entry ("$" ++ c.name) (Expr.argumentValue values)) = .ok sql := by
  have hmem : ∀ v ∈ values, ∃ e, Denotes e v := forall_mem_of_forall₂ ha fun e _ v hv => ⟨e, hv⟩
  have hsingle : ∀ v ∈ values, operands v = [v] := by
    intro v hv
    obtain ⟨e, he⟩ := hmem v hv
    exact he.single
  obtain ⟨texts, htexts, hlen⟩ : ∃ texts, f.expressionsIn f.plainScope values = .ok texts ∧
      texts.length = values.length := by
    refine exists_expressionsIn fun v hv => ?_
    obtain ⟨e, he⟩ := hmem v hv
    exact he.expression f
  obtain ⟨hkeys, harithmetic, hcomparison, m, hm, hname, harity⟩ := method_of_vocabulary hc
  simp only [List.mem_cons, not_or] at hkeys
  have hkey : m.key = "$" ++ c.name := by rw [Method.key, hname]
  have hsuits : Suits m values := by
    constructor
    · intro hmatch
      obtain ⟨text, htext⟩ := ht (by
        rw [← hname]
        fin_cases hmatch <;> decide)
      obtain ⟨v, hv, hdenotes⟩ := exists_getElem? ha htext
      cases hdenotes.render
      exact ⟨text, hv⟩
    · rintro rfl hstart
      obtain ⟨e, he, hdenotes⟩ := exists_getElem? ha.flip hstart
      rw [hdenotes.literal rfl] at he
      exact hs hname.symm he
  obtain ⟨sql, hsql⟩ := Option.isSome_iff_exists.1
    (isSome_call? (f := f) (by rw [hkey, harithmetic]) hlen (by rw [harity, ← ha.length_eq, hn]) hsuits)
  rw [expression_entry (isOperatorKey_dollar _) (by rw [operands_argumentValue hsingle, htexts]),
    operands_argumentValue hsingle]
  unfold Formatter.operator
  rw [harithmetic, hcomparison]
  dsimp only
  rw [if_neg (not_or.2 ⟨hkeys.1, hkeys.2.1⟩), hm]
  dsimp only
  rw [hsql]
  exact ⟨sql, rfl⟩

/-- Every term has a document with SQL. -/
theorem exists_denotes {e : Expr} (he : Filter.IsTerm e) : ∃ v, Denotes e v := by
  induction he with
  | @member path hk => exact ⟨.ref path, rfl, rfl, (fun h => by cases h), fun f => ⟨_, rfl⟩⟩
  | @literal value hv =>
    refine ⟨value, rfl, ?_, fun _ => rfl, ?_⟩
    · cases value <;> first | rfl | cases hv
    · intro f
      obtain ⟨constant, -, hconstant⟩ := constant_of_isLiteral f hv
      exact ⟨constant, hconstant _⟩
  | @arithmetic op left right _ _ ihl ihr =>
    obtain ⟨l, hl⟩ := ihl
    obtain ⟨r, hr⟩ := ihr
    refine ⟨.entry op.key (.array [l, r]), ?_, rfl, (fun h => by cases h), ?_⟩
    · rw [Expr.render, hl.render, hr.render]
      rfl
    · intro f
      exact exists_expression_arithmetic op (hl.expression f) (hr.expression f)
  | @call c args hc hn ht hs _ ih =>
    obtain ⟨values, hvalues, hdenotes⟩ := exists_renderAll fun e he => (ih e he).imp fun _ hv => ⟨hv.render, hv⟩
    have hne : values ≠ [] := by
      rintro rfl
      cases hdenotes
      have hempty : vocabulary.all (fun c => !c.arity.admits 0) = true := by decide
      have hadmits := List.all_eq_true.1 hempty c hc
      rw [List.length_nil] at hn
      rw [hn] at hadmits
      cases hadmits
    refine ⟨.entry ("$" ++ c.name) (Expr.argumentValue values), ?_, rfl, (fun h => by cases h), ?_⟩
    · rw [Expr.render, hvalues]
      exact if_neg (by simpa using hne)
    · intro f
      exact exists_expression_call hc hn ht hs hdenotes

/-! ### Filters -/

/-- An operator that is not logical is a filter if it is an expression. -/
theorem accepts_of_expression {key : String} {arg : Value} {sql : String} (hk : isOperatorKey key = true)
    (hl : key ∉ ["$and", "$or", "$not", "$nor"]) (h : f.expression (.entry key arg) = .ok sql) :
    Accepts f f.plainScope (.entry key arg) := by
  simp only [List.mem_cons, List.not_mem_nil, or_false, not_or] at hl
  have hexpression : f.expressionIn f.plainScope (.object [(key, arg)]) = .ok sql := h
  refine ⟨.leaf sql, ?_⟩
  rw [Value.entry, Formatter.filterIn, Formatter.filterEntries, Formatter.filterEntry, if_neg hl.1, if_neg hl.2.1,
    if_neg hl.2.2.1, if_neg hl.2.2.2, if_pos hk, Formatter.filterEntries, hexpression]
  rfl

/-- The comparison of a term, unless it is a literal. -/
theorem exists_comparison {op : ComparisonOp} {left right : Expr} {r : Value} (hl : Filter.IsTerm left)
    (hn : left.isLiteral = false) (hr : right.render = .ok r)
    (hsql : ∀ f : Formatter, ∃ sql, f.expression r = .ok sql) :
    ∃ v, (Expr.comparison op left (some right)).render = .ok v ∧ ∀ f : Formatter, Accepts f f.plainScope v := by
  obtain ⟨l, hdenotes⟩ := exists_denotes hl
  have haccepts : ∀ f : Formatter, Accepts f f.plainScope (.entry op.key (.array [l, r])) := by
    intro f
    obtain ⟨sql, h⟩ := exists_expression_comparison op (hdenotes.expression f) (hsql f)
    exact accepts_of_expression op.isOperatorKey_key (by cases op <;> decide) h
  cases hl with
  | literal => cases hn
  | @member path hk =>
    refine ⟨.entry path (.entry op.key r), ?_, ?_⟩
    · rw [Expr.render, hr]
      rfl
    · intro f
      obtain ⟨sql, h⟩ := hsql f
      exact accepts_iff_filter.2 ⟨_, filter_member hk h⟩
  | arithmetic | call =>
    refine ⟨_, ?_, haccepts⟩
    rw [Expr.render, hr, hdenotes.render]
    rfl

theorem exists_filter {e : Expr} (he : Filter.IsCondition e) (hn : e.comparesLiteral = false) :
    ∃ v, e.render = .ok v ∧ ∀ f : Formatter, Accepts f f.plainScope v := by
  induction he with
  | @call name args h =>
    obtain ⟨v, hv⟩ := exists_denotes h
    refine ⟨v, hv.render, ?_⟩
    intro f
    obtain ⟨sql, hsql⟩ := hv.expression f
    cases h with
    | @call c _ hc =>
      have hrender := hv.render
      rw [Expr.render] at hrender
      obtain ⟨values, -, hrender⟩ := bind_eq_ok.1 hrender
      split at hrender
      · cases hrender
      · cases hrender
        obtain ⟨hkeys, -⟩ := method_of_vocabulary hc
        exact accepts_of_expression (isOperatorKey_dollar _) (fun h => hkeys (.tail _ (.tail _ h))) hsql
  | comparison ho hl hn' hr =>
    obtain ⟨r, hr⟩ := exists_denotes hr
    exact exists_comparison hl hn' hr.render hr.expression
  | @membership left values hl hv =>
    refine exists_comparison hl hn rfl fun f => ?_
    have htakes : ComparisonOp.isIn.takes (.array values) = true := hv
    obtain ⟨constant, -, hconstant⟩ := constant_of_takes f htakes
    exact ⟨constant, hconstant _⟩
  | @logical op args ho hne ha ih =>
    rw [Expr.comparesLiteral, Expr.anyComparesLiteral_eq_any] at hn
    have hargs : ∀ e ∈ args, ∃ v, e.render = .ok v ∧ ∀ f : Formatter, Accepts f f.plainScope v :=
      fun e he => ih e he (by simpa using List.any_eq_false.1 hn e he)
    obtain ⟨values, hvalues, haccepts⟩ := exists_renderAll hargs
    refine ⟨.entry op.key (.array values), ?_, ?_⟩
    · rw [Expr.render, if_neg (by simpa using hne), hvalues]
      rfl
    · intro f
      refine accepts_list_iff.2 ⟨?_, forall_mem_of_forall₂ haccepts fun _ _ v hv => hv f⟩
      rintro rfl
      cases haccepts
      exact hne rfl

/-- Of several arguments, the first that has no document is reported. -/
theorem renderAll_error {es : List Expr} {p : Expr → Bool} {cause : RenderError}
    (hok : ∀ e ∈ es, p e = false → ∃ v, e.render = .ok v) (herror : ∀ e ∈ es, p e = true → e.render = .error cause)
    (h : es.any p = true) : Expr.renderAll es = .error cause := by
  induction es with
  | nil => cases h
  | cons e es ih =>
    obtain ⟨hok, hoks⟩ := List.forall_mem_cons.1 hok
    obtain ⟨herror, herrors⟩ := List.forall_mem_cons.1 herror
    rw [Expr.renderAll]
    cases hp : p e with
    | true =>
      rw [herror hp]
      rfl
    | false =>
      obtain ⟨v, hv⟩ := hok hp
      rw [List.any_cons, hp, Bool.false_or] at h
      rw [hv, ih hoks herrors h]
      rfl

theorem render_of_comparesLiteral {e : Expr} (he : Filter.IsCondition e) (hl : e.comparesLiteral = true) :
    e.render = .error (.invalidLeftOperand "literal") := by
  induction he with
  | call => cases hl
  | comparison _ _ hn _ =>
    rw [Expr.comparesLiteral, hn] at hl
    cases hl
  | @membership left values _ _ =>
    cases left with
    | literal value => rfl
    | _ => cases hl
  | @logical op args _ hne ha ih =>
    rw [Expr.comparesLiteral, Expr.anyComparesLiteral_eq_any] at hl
    have hargs : Expr.renderAll args = .error (.invalidLeftOperand "literal") :=
      renderAll_error (fun e he hn => (exists_filter (ha e he) hn).imp fun _ hv => hv.1) ih hl
    rw [Expr.render, if_neg (by simpa using hne), hargs]
    rfl

end

end Sql

/-- A well-formed filter has a document with SQL in every dialect and every style of names, unless a literal is on the
left of `in`: then it has no document. -/
theorem wellFormed_filter_has_sql {e : Expr} (he : Filter.IsCondition e) :
    (e.comparesLiteral = false →
      ∃ document, e.render = .ok document ∧ ∀ f : Formatter, ∃ sql, f.filter document = .ok sql) ∧
    (e.comparesLiteral = true → e.render = .error (.invalidLeftOperand "literal")) := by
  refine ⟨fun hn => ?_, Sql.render_of_comparesLiteral he⟩
  obtain ⟨document, hrender, haccepts⟩ := Sql.exists_filter he hn
  exact ⟨document, hrender, fun f => Sql.accepts_iff_filter.1 (haccepts f)⟩

/-- A match, and a negated choice between an order of terms and a list. -/
theorem wellFormed_filter_has_sql_nested :
    ∃ e document, Filter.IsCondition e ∧ e.comparesLiteral = false ∧ e.render = .ok document ∧
      (∀ f : Formatter, ∃ sql, f.filter document = .ok sql) ∧ Formatter.filter {} document =
        .ok "(((a LIKE '%x%')) AND (NOT (((ROUND(b, 2)<(c + 1)) OR (d IN ('y', NULL))))))" := by
  have hmatch : Filter.IsTerm (.call "contains" [.member "a", .literal (.string "x")]) :=
    .call (c := ⟨"contains", "contains", .exactly 2⟩) (by decide) (by decide) (fun _ => ⟨_, rfl⟩)
      (fun h => absurd h (by decide))
      (List.forall_mem_cons.2 ⟨.member (by decide), List.forall_mem_singleton.2 (.literal rfl)⟩)
  have hround : Filter.IsTerm (.call "round" [.member "b", .literal (.int 2)]) :=
    .call (c := ⟨"round", "round", .orOneMore 1⟩) (by decide) (by decide) (fun h => absurd h (by decide))
      (fun h => absurd h (by decide))
      (List.forall_mem_cons.2 ⟨.member (by decide), List.forall_mem_singleton.2 (.literal rfl)⟩)
  have horder : Filter.IsCondition
      (.comparison .lt _ (some (.arithmetic .add (.member "c") (.literal (.int 1))))) :=
    .comparison rfl hround rfl (.arithmetic (.member (by decide)) (.literal rfl))
  have hlist : Filter.IsCondition (.comparison .isIn (.member "d") (some (.literal (.array [.string "y", .null])))) :=
    .membership (.member (by decide)) (by decide)
  have hchoice : Filter.IsCondition (.logical .not [.logical .or [_, _]]) :=
    .logical (by decide) (by simp) (List.forall_mem_singleton.2 (.logical (by decide) (by simp)
      (List.forall_mem_cons.2 ⟨horder, List.forall_mem_singleton.2 hlist⟩)))
  have hcondition : Filter.IsCondition (.logical .and [_, _]) :=
    .logical (by decide) (by simp) (List.forall_mem_cons.2 ⟨.call hmatch, List.forall_mem_singleton.2 hchoice⟩)
  obtain ⟨document, hrender, hsql⟩ := (wellFormed_filter_has_sql hcondition).1 rfl
  refine ⟨_, document, hcondition, rfl, hrender, hsql, ?_⟩
  cases hrender
  exact eq_ok_of_toOption (by decide +kernel)

/-- A literal on the left of `in` is read, but is no left side. -/
theorem literal_in_list_has_no_document :
    ∃ e, Filter.parse "1 in (1, 2)" = .ok e ∧ Filter.IsCondition e ∧
      e.render = .error (.invalidLeftOperand "literal") := by
  have hprintable : Filter.Printable
      (.comparison .isIn (.literal (.int 1)) (some (.literal (.array [.int 1, .int 2])))) :=
    .membership (.literal rfl) (by decide)
  have hcondition : Filter.IsCondition
      (.comparison .isIn (.literal (.int 1)) (some (.literal (.array [.int 1, .int 2])))) :=
    .membership (.literal rfl) (by decide)
  have htext : Filter.printText .minimal
      (.comparison .isIn (.literal (.int 1)) (some (.literal (.array [.int 1, .int 2])))) = "1 in (1, 2)" := by
    decide +kernel
  refine ⟨_, ?_, hcondition, rfl⟩
  rw [← htext]
  exact Filter.parse_printText .minimal hprintable (by decide)

end SqlQuery
