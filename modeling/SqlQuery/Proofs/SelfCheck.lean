import SqlQuery.Pipeline
import SqlQuery.Proofs.ByteScanning
import SqlQuery.Proofs.FilterDescent
import SqlQuery.Proofs.GrammaticalTrees
import SqlQuery.Proofs.IndexedSteps
import SqlQuery.Proofs.ValueEquality

/-!
# Filters from text to SQL, step by step

All stages of a filter by way of programs that can be without an outcome: the text is scanned with a byte offset, read
with a counter, rendered and formatted with items by number, and in between it is rendered once more and the two values
are compared (`filterSteps`). They stop in one case only: the comparison fails because the value holds a NaN.

The comparison is of a value with itself. `Value.same` is reflexive away from a NaN, through lists and documents, as
long as no document has a key twice; and the value of a filter has none that does.
-/

namespace SqlQuery

/-! ### Values that equal themselves -/

namespace Value

/-- There is a NaN in a value, at some depth. -/
inductive HoldsNaN : Value → Prop where
  | float {x : Float} (h : x.isNaN = true) : HoldsNaN (.float x)
  | item {items : List Value} {v : Value} (hv : v ∈ items) (h : HoldsNaN v) : HoldsNaN (.array items)
  | entry {entries : Document} {e : String × Value} (he : e ∈ entries) (h : HoldsNaN e.2) : HoldsNaN (.object entries)

theorem holdsNaN_float {x : Float} : HoldsNaN (.float x) ↔ x.isNaN = true := by
  constructor
  · rintro ⟨h⟩
    exact h
  · exact .float

theorem holdsNaN_array {items : List Value} : HoldsNaN (.array items) ↔ ∃ v ∈ items, HoldsNaN v := by
  constructor
  · intro h
    cases h with
    | item hv h => exact ⟨_, hv, h⟩
  · rintro ⟨v, hv, h⟩
    exact .item hv h

theorem holdsNaN_object {entries : Document} : HoldsNaN (.object entries) ↔ ∃ e ∈ entries, HoldsNaN e.2 := by
  constructor
  · intro h
    cases h with
    | entry he h => exact ⟨_, he, h⟩
  · rintro ⟨e, he, h⟩
    exact .entry he h

/-- A double is the same as itself unless it is no number. -/
theorem float_beq_self (x : Float) : (x == x) = !x.isNaN := by
  change x.toModel.unpack.beq x.toModel.unpack = !x.toModel.unpack.isNaN
  cases x.toModel.unpack with
  | notANumber => rfl
  | infinity s => cases s <;> rfl
  | zero s => cases s <;> rfl
  | finite s m e hm =>
    cases s <;>
      simp [Float.Model.UnpackedFloat.beq, Float.Model.UnpackedFloat.isNaN, Float.Model.UnpackedFloat.compare]

theorem same_self_iff {v : Value} (hv : v.DistinctKeys) : v.same v = true ↔ ¬ v.HoldsNaN := by
  induction v using induct with
  | scalar v hs =>
    by_cases hfloat : ∃ x, v = .float x
    · obtain ⟨x, rfl⟩ := hfloat
      rw [holdsNaN_float, Bool.not_eq_true, ← Bool.not_eq_true', ← float_beq_self, same]
    · have hne : ∀ x, v ≠ .float x := not_exists.1 hfloat
      refine iff_of_true ((same_scalar hs).2 (.inl ⟨rfl, hne⟩)) ?_
      rintro (h | ⟨-, -⟩ | ⟨-, -⟩)
      · exact hne _ rfl
      · cases hs
      · cases hs
  | array items ih =>
    rw [distinctKeys_array] at hv
    rw [holdsNaN_array, same_array]
    constructor
    · rintro ⟨_, ⟨⟩, hitems⟩ ⟨v, hv', hnan⟩
      rw [List.forall₂_same] at hitems
      exact (ih v hv' (hv v hv')).1 (hitems v hv') hnan
    · intro hnone
      refine ⟨items, rfl, List.forall₂_same.2 fun v hv' => (ih v hv' (hv v hv')).2 fun hnan => ?_⟩
      exact hnone ⟨v, hv', hnan⟩
  | object entries ih =>
    obtain ⟨hnodup, hv⟩ := distinctKeys_object.1 hv
    rw [holdsNaN_object, same_object]
    constructor
    · rintro ⟨_, ⟨⟩, -, hentries⟩ ⟨e, he, hnan⟩
      obtain ⟨v, hget, hsame⟩ := hentries e he
      rw [Entries.get?_of_mem hnodup he] at hget
      obtain rfl := Option.some.inj hget
      exact (ih e he (hv e he)).1 hsame hnan
    · intro hnone
      refine ⟨entries, rfl, rfl, fun e he => ⟨e.2, Entries.get?_of_mem hnodup he, ?_⟩⟩
      exact (ih e he (hv e he)).2 fun hnan => hnone ⟨e, he, hnan⟩

end Value

/-! ### The values of filters -/

theorem isScalar_of_isLiteral {v : Value} (h : Filter.isLiteral v = true) : v.isScalar = true := by
  cases v <;> first | rfl | cases h

theorem distinctKeys_renderComparison {op : ComparisonOp} {left : Expr} {rendered : Except RenderError Value}
    {right v : Value} (h : Expr.renderComparison op left rendered right = .ok v)
    (hl : ∀ l, rendered = .ok l → l.DistinctKeys) (hr : right.DistinctKeys) : v.DistinctKeys := by
  have hpair : ∀ l, rendered = .ok l → (Value.entry op.key (.array [l, right])).DistinctKeys := by
    intro l hl'
    refine Value.distinctKeys_entry (.array ?_)
    simpa using ⟨hl l hl', hr⟩
  cases left with
  | member path =>
    cases h
    exact Value.distinctKeys_entry (Value.distinctKeys_entry hr)
  | arithmetic | call =>
    cases rendered with
    | error cause => cases h
    | ok l =>
      cases h
      exact hpair l rfl
  | _ => cases h

theorem distinctKeys_renderAll {es : List Expr} {vs : List Value}
    (hes : ∀ e ∈ es, ∀ v, e.render = .ok v → v.DistinctKeys) (h : Expr.renderAll es = .ok vs) :
    ∀ v ∈ vs, v.DistinctKeys :=
  Sql.forall_mem_of_forall₂ (Sql.forall₂_renderAll h) hes

theorem distinctKeys_renderLogical {op : LogicalOp} {args : List Expr} {v : Value} (hne : args ≠ [])
    (hargs : ∀ e ∈ args, ∀ v, e.render = .ok v → v.DistinctKeys) (h : (Expr.logical op args).render = .ok v) :
    v.DistinctKeys := by
  rw [Expr.render, if_neg (by simpa using hne)] at h
  obtain ⟨values, hvalues, h⟩ := bind_eq_ok.1 h
  cases h
  exact Value.distinctKeys_entry (.array (distinctKeys_renderAll hargs hvalues))

/-- No document in the value of a filter has a key twice. -/
theorem distinctKeys_render {e : Expr} (he : Filter.Grammatical e) (v : Value) (h : e.render = .ok v) :
    v.DistinctKeys := by
  induction he generalizing v with
  | member =>
    cases h
    exact .scalar rfl
  | literal hv =>
    cases h
    exact .scalar (isScalar_of_isLiteral hv)
  | arithmetic _ _ _ ihl ihr =>
    rw [Expr.render] at h
    obtain ⟨l, hl, h⟩ := bind_eq_ok.1 h
    obtain ⟨r, hr, h⟩ := bind_eq_ok.1 h
    cases h
    refine Value.distinctKeys_entry (.array ?_)
    simpa using ⟨ihl l hl, ihr r hr⟩
  | comparison _ _ _ ihl ihr =>
    rw [Expr.render] at h
    obtain ⟨r, hr, h⟩ := bind_eq_ok.1 h
    exact distinctKeys_renderComparison h ihl (ihr r hr)
  | membership _ hv ihl =>
    refine distinctKeys_renderComparison h ihl (.array fun v hmem => ?_)
    exact .scalar (isScalar_of_isLiteral (List.all_eq_true.1 hv v hmem))
  | chain _ _ _ ih => exact distinctKeys_renderLogical (List.cons_ne_nil _ _) ih h
  | negation _ ih =>
    refine distinctKeys_renderLogical (List.cons_ne_nil _ _) (fun e hmem => ?_) h
    rw [List.mem_singleton.1 hmem]
    exact ih
  | call _ _ _ ih =>
    rw [Expr.render] at h
    obtain ⟨values, hvalues, h⟩ := bind_eq_ok.1 h
    split at h
    · cases h
    · cases h
      exact Value.distinctKeys_entry (Value.distinctKeys_argumentValue (distinctKeys_renderAll ih hvalues))

/-! ### All stages -/

namespace Filter.Program

/-- The expression of tokens, read with a counter. -/
def parseTokens (tokens : List Token) : Option (Except ParseError Expr) :=
  if tokens.isEmpty then some (.error .noExpression)
  else do
    let (parsed, cursor) ← expression (tokens.length + 1) 0 ⟨⟨0, tokens⟩, 0⟩
    match parsed, cursor.stream.rest with
    | .error cause, _ => return .error cause
    | .ok (e, _), [] => return .ok e
    | .ok _, t :: _ => return .error (unexpected t)

/-- The expression of a filter, scanned with a byte offset. -/
def parse (text : String) : Option (Except ParseError Expr) := do
  match ← ByteScan.tokenize text with
  | .error cause => return .error (.lexical cause)
  | .ok tokens => parseTokens tokens

theorem parseTokens_eq (tokens : List Token) : parseTokens tokens = some (Filter.parseTokens tokens) := by
  unfold parseTokens Filter.parseTokens
  split
  · rfl
  · have hends := expression_ends 0 0 (s := ⟨0, tokens⟩) (Nat.lt_succ_self tokens.length)
    rw [Nat.sub_zero] at hends
    cases hrun : (Filter.expression Expr.maxHeight).run 0 ⟨0, tokens⟩ with
    | error cause =>
      rw [hrun] at hends
      obtain ⟨after, hafter⟩ := hends.error cause rfl
      rw [hafter]
      rfl
    | ok p =>
      rw [hrun] at hends
      rw [hends.ok p rfl]
      obtain ⟨e, height, last, rest⟩ := p
      cases rest <;> rfl

/-- Reading a filter has an outcome, whatever its text is. -/
theorem parse_eq (text : String) : parse text = some (Filter.parse text) := by
  rw [parse, ByteScan.tokenize_eq, Filter.parse]
  cases Filter.tokenize text with
  | error cause => rfl
  | ok tokens => exact parseTokens_eq tokens

end Filter.Program

/-- What a filter is answered with, if it is. -/
def Outcome.answer : Outcome → Option (Option String)
  | .sql text => some (some text)
  | .rejected => some none
  | .inconsistent => none

/-- The SQL of a value, if rendering again gave the same one. There is no outcome if it gave another, or none. -/
def formatChecked (first : Value) : Except RenderError Value → Option (Option String)
  | .error _ => none
  | .ok again =>
    if again.same first then do
      let sql ← (Sql.Formatter.Indexed.filter {} first).run
      return sql.toOption
    else none

/-- All stages of a filter. -/
def filterSteps (text : String) : Option (Option String) := do
  match ← Filter.Program.parse text with
  | .error _ => return none
  | .ok e =>
    match ← (Expr.Indexed.render e).run with
    | .error _ => return none
    | .ok rendered =>
      let again ← (Expr.Indexed.render e).run
      formatChecked rendered again

theorem formatChecked_eq (first again : Value) :
    formatChecked first (.ok again) = (checkRendered first again).answer := by
  rw [formatChecked, checkRendered, Sql.Formatter.Indexed.filter_eq]
  cases again.same first with
  | false => rfl
  | true => cases Sql.Formatter.filter {} first <;> rfl

/-- Every stage has an outcome but for the comparison. -/
theorem filterSteps_eq (text : String) : filterSteps text = (checkFilter text).answer := by
  rw [filterSteps, Filter.Program.parse_eq, checkFilter]
  cases Filter.parse text with
  | error cause => rfl
  | ok e =>
    dsimp only [Option.bind_eq_bind, Option.bind_some]
    rw [Expr.Indexed.render_eq]
    cases e.render with
    | error cause => rfl
    | ok rendered => exact formatChecked_eq rendered rendered

/-- A filter that can be read and rendered, and of which the value holds a NaN. -/
def RendersNaN (text : String) : Prop := ∃ e v, Filter.parse text = .ok e ∧ e.render = .ok v ∧ v.HoldsNaN

theorem answer_eq_none {o : Outcome} : o.answer = none ↔ o = .inconsistent := by
  cases o <;> simp [Outcome.answer]

theorem checkRendered_self_iff {v : Value} (h : v.DistinctKeys) : checkRendered v v = .inconsistent ↔ v.HoldsNaN := by
  rw [checkRendered, ← not_iff_not, ← Value.same_self_iff h]
  cases v.same v with
  | false => simp
  | true => cases Sql.Formatter.filter {} v <;> simp

theorem checkFilter_eq_inconsistent_iff (text : String) : checkFilter text = .inconsistent ↔ RendersNaN text := by
  unfold checkFilter RendersNaN
  cases hparse : Filter.parse text with
  | error cause => simp
  | ok e =>
    cases hrender : e.render with
    | error cause => simp [hrender]
    | ok rendered =>
      have hkeys := distinctKeys_render (Filter.grammatical_of_parse hparse) rendered hrender
      dsimp only
      rw [hrender]
      dsimp only
      rw [checkRendered_self_iff hkeys]
      constructor
      · intro hnan
        exact ⟨e, rendered, rfl, hrender, hnan⟩
      · rintro ⟨_, v, ⟨⟩, hv, hnan⟩
        obtain rfl := Except.ok.inj (hrender.symm.trans hv)
        exact hnan

/-- The stages of a filter are all gone through, with SQL or without, and the answer is that of `checkFilter`. Only for
a text that is read and rendered as a value with a NaN in it there is none, and then it is the comparison of the value
with itself that fails, always. -/
theorem filterSteps_answered_iff (text : String) :
    filterSteps text = (checkFilter text).answer ∧
      ((∃ answer, filterSteps text = some answer) ↔ ¬ RendersNaN text) ∧
      (checkFilter text = .inconsistent ↔ RendersNaN text) := by
  refine ⟨filterSteps_eq text, ?_, checkFilter_eq_inconsistent_iff text⟩
  rw [filterSteps_eq, ← checkFilter_eq_inconsistent_iff, ← answer_eq_none, ← Option.ne_none_iff_exists']

example : (checkFilter "contains(name, 'é') and a in (1, NaN)").answer = none := by decide +kernel

example : (checkFilter "substring(name, length(é), 2) eq 'é'").answer =
    some (some "(SUBSTRING(name, (LENGTH(é) + 1), 2)='é')") := by decide +kernel

end SqlQuery
