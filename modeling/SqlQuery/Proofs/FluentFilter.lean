import SqlQuery.Proofs.ClauseText
import SqlQuery.Proofs.FilterMeaning
import SqlQuery.Query.Step

/-!
# Filters that are built and filters that are read

A list of clauses can be given to a builder step by step, or as one text. Both ways merge a document for each clause
into the filter (`mergedWith`): the builder merges the document of a completed comparison (`Clause.fluent`), and the
tree of the text is rendered to the merged documents of its comparisons (`Clause.document`). The documents of a clause
differ only if it compares for equality, and then they have the same SQL, so that the merged filters have it too
(`Twins`).
-/

namespace SqlQuery

open SqlQuery.Filter (Clause clauseExpr clauseText parse_clauseText isPlain)
open SqlQuery.Sql (Formatter Condition)

/-! ### Documents -/

namespace Filter.Clause

/-- The comparison that completes a clause in a builder. -/
def comparison (c : Clause) : Comparison :=
  match c.comparator with
  | .eq => .equal c.value
  | .ne => .notEqual c.value
  | .lt => .lowerThan c.value
  | .lte => .lowerOrEqual c.value
  | .gt => .greaterThan c.value
  | .gte => .greaterOrEqual c.value
  | .isIn => .isIn c.value
  | .notIn => .notIn c.value

/-- The document of a clause that is rendered. -/
def document (c : Clause) : Value := .entry c.field (.entry c.comparator.key c.value)

/-- The document of a clause that is built: equality with a constant is the constant. -/
def fluent (c : Clause) : Value :=
  .entry c.field (if c.comparator = .eq then c.value else .entry c.comparator.key c.value)

end Filter.Clause

/-- The documents of clauses, merged into one filter from the left. -/
def mergedWith (document : Clause → Value) (first : Clause) (rest : List Clause) : Value :=
  rest.foldl (fun merged c => mergeFilter (some merged) c.connective (document c)) (document first)

theorem isScalar_of_isPlain {value : Value} (h : isPlain value = true) : value.isScalar = true := by
  cases value with
  | array | object => cases h
  | _ => rfl

theorem LogicalOp.key_inj {op op' : LogicalOp} : op.key = op'.key ↔ op = op' := by
  cases op <;> cases op' <;> decide

theorem mergeFilter_group (op op' : LogicalOp) (items : List Value) (condition : Value) :
    mergeFilter (some (.entry op'.key (.array items))) op condition =
      if op' = op then .entry op.key (.array (items ++ [condition]))
      else .entry op.key (.array [.entry op'.key (.array items), condition]) := by
  simp only [mergeFilter, Value.entry, LogicalOp.key_inj]

theorem mergeFilter_of_ne_array {key : String} {value : Value} (h : ∀ items, value ≠ .array items) (op : LogicalOp)
    (condition : Value) :
    mergeFilter (some (.entry key value)) op condition = .entry op.key (.array [.entry key value, condition]) := by
  cases value with
  | array items => exact absurd rfl (h items)
  | _ => rfl

/-! ### The tree of a text -/

/-- The tree renders to the document, which is that of one clause or a group of documents. -/
inductive Rendered : Expr → Value → Prop where
  | clause (c : Clause) : Rendered c.expr c.document
  | group {op : LogicalOp} {args : List Expr} {documents : List Value} (hne : args ≠ [])
    (h : Expr.renderAll args = .ok documents) : Rendered (.logical op args) (.entry op.key (.array documents))

namespace Rendered

variable {e : Expr} {document : Value}

theorem render (h : Rendered e document) : e.render = .ok document := by
  cases h with
  | clause c => rfl
  | group hne h =>
    rw [Expr.render, if_neg (by simpa using hne), h]
    rfl

theorem renderAll_concat {args : List Expr} {documents : List Value} (h : Expr.renderAll args = .ok documents)
    (he : e.render = .ok document) : Expr.renderAll (args ++ [e]) = .ok (documents ++ [document]) := by
  induction args generalizing documents with
  | nil =>
    obtain rfl : [] = documents := by simpa [Expr.renderAll] using h
    simp [Expr.renderAll, he, bind, Except.bind, pure, Except.pure]
  | cons arg args ih =>
    obtain ⟨first, hfirst, h⟩ := bind_eq_ok.1 h
    obtain ⟨more, hmore, h⟩ := bind_eq_ok.1 h
    obtain rfl := pure_eq_ok.1 h
    simp [Expr.renderAll, hfirst, ih hmore, bind, Except.bind, pure, Except.pure]

/-- The tree takes a clause in where its document does. -/
theorem join (h : Rendered e document) (c : Clause) :
    Rendered (c.joinExpr e) (mergeFilter (some document) c.connective c.document) := by
  have hc : c.expr.render = .ok c.document := (clause c).render
  cases h with
  | clause c' =>
    rw [Clause.document, mergeFilter_of_ne_array (by simp [Value.entry])]
    refine group (by simp) ?_
    simp [Expr.renderAll, (clause c').render, hc, bind, Except.bind, pure, Except.pure, Clause.document]
  | @group op args documents hne h =>
    rw [mergeFilter_group, Clause.joinExpr, Expr.combine]
    by_cases hop : op = c.connective
    · rw [if_pos hop, if_pos hop]
      exact group (by simp) (renderAll_concat h hc)
    · rw [if_neg hop, if_neg hop]
      have hgroup : (Expr.logical op args).render = .ok (.entry op.key (.array documents)) := (group hne h).render
      exact group (by simp) (by simp [Expr.renderAll, hgroup, hc, bind, Except.bind, pure, Except.pure])

end Rendered

theorem render_clauseExpr (first : Clause) (rest : List Clause) :
    (clauseExpr first rest).render = .ok (mergedWith Clause.document first rest) := by
  have hfold : ∀ {e : Expr} {document : Value}, Rendered e document →
      Rendered (rest.foldl Clause.joinExpr e)
        (rest.foldl (fun merged c => mergeFilter (some merged) c.connective c.document) document) := by
    induction rest with
    | nil => exact id
    | cons c rest ih => exact fun h => ih (h.join c)
  exact (hfold (.clause first)).render

/-! ### The two builds -/

/-- All of a collection that a filter takes. -/
def selected (target : Collection) (filter : Value) : Query where
  collection := some target
  statement := some (.select [])
  filter := some filter

/-- All of a collection that a filter takes, where labels stand for computed fields. -/
def selectedWith (target : Collection) (filter : Value) (computed : Document) : Query where
  collection := some target
  statement := some (.select [])
  filter := some filter
  computed := computed

/-- Clauses that are given to a builder one by one. -/
def fluentSteps (target : Collection) (first : Clause) (rest : List Clause) : List Step :=
  [.selectAll, .fromCollection target, .whereField (.name first.field), .compare first.comparison] ++
    rest.flatMap fun c => [.continueWith c.connective (.name c.field), .compare c.comparison]

/-- A text that is given to a builder. -/
def textSteps (target : Collection) (text : String) : List Step :=
  [.selectAll, .fromCollection target, .filter text]

/-- The path of a clause starts as its first segment does, and so with a letter. -/
theorem Filter.Clause.exists_toList_eq_cons (c : Clause) :
    ∃ x xs, c.field.toList = x :: xs ∧ Filter.isWordStart x = true := by
  have hgrow : ∀ (names : List String) (path : String) (x : Char) (xs : List Char), path.toList = x :: xs →
      ∃ ys, (names.foldl (fun path name => path ++ "." ++ name) path).toList = x :: ys := by
    intro names
    induction names with
    | nil => exact fun path x xs h => ⟨xs, h⟩
    | cons name names ih =>
      intro path x xs h
      exact ih (path ++ "." ++ name) x (xs ++ '.' :: name.toList) (by simp [h])
  cases hs : Filter.segments c.field with
  | nil =>
    have hfree := c.free
    rw [hs] at hfree
    cases hfree
  | cons name names =>
    have hnamed := c.named
    rw [hs, List.all_cons, Bool.and_eq_true] at hnamed
    obtain ⟨x, xs, hname, hx, -, -⟩ := Filter.isName_iff.1 hnamed.1
    obtain ⟨ys, hys⟩ := hgrow names name x xs hname
    rw [Filter.foldl_segments hs] at hys
    exact ⟨x, ys, hys, hx⟩

/-- A name that is not blank is a field. -/
theorem Source.field?_name {name : String} (h : Text.isBlankText name = false) :
    (Source.name name).field? = .ok (Field.ofName name) := by
  have hname : Field.ofName? name = .ok (Field.ofName name) := by
    rw [Field.ofName?, h]
    rfl
  rw [Source.field?, Source.columns, hname]
  rfl

theorem Filter.Clause.field?_eq (c : Clause) : (Source.name c.field).field? = .ok (Field.ofName c.field) := by
  refine Source.field?_name ?_
  obtain ⟨x, xs, hx, hstart⟩ := c.exists_toList_eq_cons
  rw [Text.isBlankText, hx, List.all_cons, Filter.isBlank_eq_false_of_isWordStart hstart, Bool.false_and]

theorem Filter.Clause.condition_comparison (c : Clause) :
    c.comparison.condition = .ok (if c.comparator = .eq then c.value else .entry c.comparator.key c.value) := by
  have hs := isScalar_of_isPlain c.plain
  obtain ⟨hin, hnot⟩ := c.orders
  unfold Filter.Clause.comparison
  split <;> simp_all [Comparison.condition]

/-- A builder that waits for the comparison of a clause merges the clause into its filter. -/
theorem step_compare (c : Clause) (query : Query) (connective : Option LogicalOp) (join : Option OpenJoin) :
    Builder.step ⟨query, some (.bare c.field []), connective, join⟩ (.compare c.comparison) =
      .ok ⟨{ query with filter := some (mergeFilter query.filter (connective.getD .and) c.fluent) }, none, none,
        join⟩ := by
  rw [Builder.step, Builder.compare, c.condition_comparison]
  rfl

theorem step_continueWith (c : Clause) (b : Builder) :
    b.step (.continueWith c.connective (.name c.field)) =
      .ok { b with connective := some c.connective, left := some (.bare c.field []) } := by
  rw [Builder.step, Builder.continueWith, c.field?_eq]
  rfl

theorem step_whereField (c : Clause) (b : Builder) :
    b.step (.whereField (.name c.field)) =
      .ok { b with
        query := { b.query with filter := none }, connective := none, left := some (.bare c.field []) } := by
  rw [Builder.step, Builder.whereField, c.field?_eq]
  rfl

theorem run_cons {b b' : Builder} {s : Step} (steps : List Step) (h : b.step s = .ok b') :
    b.run (s :: steps) = b'.run steps := by
  rw [Builder.run, h]
  rfl

/-- The clauses after the first are merged one by one. -/
theorem run_continuations (q : Query) (rest : List Clause) (merged : Value) :
    Builder.run { query := { q with filter := some merged } }
        (rest.flatMap fun c => [.continueWith c.connective (.name c.field), .compare c.comparison]) =
      .ok { query := { q with
        filter := some (rest.foldl (fun merged c => mergeFilter (some merged) c.connective c.fluent) merged) } } := by
  induction rest generalizing merged with
  | nil => rfl
  | cons c rest ih =>
    rw [List.flatMap_cons, List.cons_append, List.cons_append, List.nil_append, run_cons _ (step_continueWith c _),
      run_cons _ (step_compare c _ _ _)]
    exact ih (mergeFilter (some merged) c.connective c.fluent)

theorem build_fluentSteps (target : Collection) (first : Clause) (rest : List Clause) :
    Query.build (fluentSteps target first rest) = .ok (selected target (mergedWith Clause.fluent first rest)) := by
  have hrun : Builder.run {} (fluentSteps target first rest) =
      .ok { query := selected target (mergedWith Clause.fluent first rest) } := by
    rw [fluentSteps, List.cons_append, List.cons_append, List.cons_append, List.cons_append, List.nil_append,
      run_cons _ rfl, run_cons _ rfl, run_cons _ (step_whereField first _), run_cons _ (step_compare first _ _ _)]
    exact run_continuations (selected target .null) rest first.fluent
  rw [Query.build, hrun]
  rfl

theorem build_textSteps (target : Collection) {text : String} {e : Expr} {document : Value}
    (hp : Filter.parse text = .ok e) (hr : e.render = .ok document) :
    Query.build (textSteps target text) = .ok (selected target document) := by
  have hrun : Builder.run {} (textSteps target text) = .ok { query := selected target document } := by
    have hfilter : ∀ b : Builder, b.step (.filter text) = .ok (b.addCondition .and document) := by
      intro b
      rw [Builder.step, Builder.filter, hp]
      show (e.render.mapError Error.render >>= _) = _
      rw [hr]
      rfl
    rw [textSteps, run_cons _ rfl, run_cons _ rfl, run_cons _ (hfilter _)]
    rfl
  rw [Query.build, hrun]
  rfl

/-! ### The SQL of merged documents -/

namespace Sql

variable {f : Formatter}

/-- Both filters have a condition, and these are written alike. -/
def SameSql (f : Formatter) (v w : Value) : Prop :=
  ∃ c d, f.filterIn (f.scopeOf []) v = .ok c ∧ f.filterIn (f.scopeOf []) w = .ok d ∧ c.text = d.text

theorem filterIn_field {scope : Scope} {key : String} (hk : isOperatorKey key = false) (v : Value) :
    f.filterIn scope (.entry key v) = scope key >>= fun field => f.fieldCondition scope field v := by
  have hentry : ∀ group, f.filterEntry scope key v group = scope key >>= fun field => f.fieldCondition scope field v := by
    intro group
    rw [Formatter.filterEntry, if_neg (ne_of_isOperatorKey hk (by decide)), if_neg (ne_of_isOperatorKey hk (by decide)),
      if_neg (ne_of_isOperatorKey hk (by decide)), if_neg (ne_of_isOperatorKey hk (by decide)), if_neg (by simp [hk])]
  rw [Value.entry, Formatter.filterIn, Formatter.filterEntries, hentry, Formatter.filterEntries]
  cases (scope key >>= fun field => f.fieldCondition scope field v) <;> rfl

theorem filterIn_entry {key : String} (hk : isOperatorKey key = false) (v : Value) :
    f.filterIn (f.scopeOf []) (.entry key v) = f.fieldCondition (f.scopeOf []) (f.style.name key) v :=
  filterIn_field hk v

theorem expressionIn_of_isPlain {scope : Scope} {value : Value} (h : isPlain value = true) :
    ∃ sql, f.expressionIn scope value = .ok sql := by
  cases value with
  | null => exact ⟨_, rfl⟩
  | bool b => cases b <;> exact ⟨_, rfl⟩
  | int n => exact ⟨_, rfl⟩
  | string s => exact ⟨_, rfl⟩
  | _ => cases h

/-- Orders and equality have symbols, and their keys mean nothing else. -/
theorem symbol_of_orders {op : ComparisonOp} (h : op ≠ .isIn ∧ op ≠ .notIn) :
    (Formatter.comparisonSymbols.lookup op.key).isSome = true ∧
      op.key ∉ ["$not", "$in", "$nin", "$regex", "$text", "$options"] := by
  revert h
  cases op <;> decide

/-- The comparison of a clause is one piece of SQL. -/
theorem fieldOperator_clause (c : Clause) (scope : Scope) (column : String)
    (condition : String → Except FormatError Condition) :
    ∃ sql, f.fieldOperator scope column c.comparator.key c.value condition = .ok (.leaf sql) := by
  obtain ⟨hsymbol, hkey⟩ := symbol_of_orders c.orders
  obtain ⟨symbol, hsymbol⟩ := Option.isSome_iff_exists.1 hsymbol
  have hright : ∃ right, f.expressionIn scope c.value = .ok right := expressionIn_of_isPlain c.plain
  obtain ⟨right, hright⟩ := hright
  simp only [List.mem_cons, List.not_mem_nil, or_false, not_or] at hkey
  obtain ⟨hnot, hin, hnin, hregex, htext, -⟩ := hkey
  refine ⟨Formatter.comparison c.comparator.key symbol column c.value right, ?_⟩
  unfold Formatter.fieldOperator
  rw [if_neg hnot, if_neg (not_or.2 ⟨hin, hnin⟩), if_neg hregex, if_neg htext, hsymbol]
  simp only [hright]
  rfl

/-- Both documents of a clause have the same SQL. -/
theorem sameSql_clause (f : Formatter) (c : Clause) : SameSql f c.fluent c.document := by
  obtain ⟨sql, hop⟩ := fieldOperator_clause c (f.scopeOf []) (f.style.name c.field)
    fun column => f.fieldCondition (f.scopeOf []) column c.value
  have hdocument : f.fieldCondition (f.scopeOf []) (f.style.name c.field) (.entry c.comparator.key c.value) =
      .ok (.chain .and [.leaf sql]) := by
    have hoptions : c.comparator.key ≠ "$options" := fun h => (symbol_of_orders c.orders).2 (by simp [h])
    rw [Value.entry, Formatter.fieldCondition, Formatter.fieldOperators, if_neg hoptions, hop]
    rfl
  rw [Clause.fluent, Clause.document]
  by_cases heq : c.comparator = .eq
  · rw [if_pos heq]
    refine ⟨.leaf sql, _, ?_, (filterIn_entry c.unmarked _).trans hdocument, ?_⟩
    · rw [filterIn_entry c.unmarked, fieldCondition_of_isScalar (isScalar_of_isPlain c.plain)]
      rw [heq] at hop
      exact hop
    · rw [Condition.text_chain]
      rfl
  · rw [if_neg heq]
    exact ⟨_, _, (filterIn_entry c.unmarked _).trans hdocument, (filterIn_entry c.unmarked _).trans hdocument, rfl⟩

theorem sameSql_items {vs ws : List Value} (h : List.Forall₂ (SameSql f) vs ws) :
    ∃ cs ds, f.filterItems (f.scopeOf []) vs = .ok cs ∧ f.filterItems (f.scopeOf []) ws = .ok ds ∧
      cs.map Condition.text = ds.map Condition.text := by
  induction h with
  | nil => exact ⟨[], [], rfl, rfl, rfl⟩
  | cons h _ ih =>
    obtain ⟨c, d, hc, hd, htext⟩ := h
    obtain ⟨cs, ds, hcs, hds, htexts⟩ := ih
    refine ⟨c :: cs, d :: ds, ?_, ?_, by rw [List.map_cons, List.map_cons, htext, htexts]⟩
    · rw [Formatter.filterItems, hc, hcs]
      rfl
    · rw [Formatter.filterItems, hd, hds]
      rfl

/-- The connective of a logical operator. -/
def Connective.ofLogical : LogicalOp → Connective
  | .or => .or
  | _ => .and

theorem filterIn_group {op : LogicalOp} (ho : op = .and ∨ op = .or) {vs : List Value} (hne : vs ≠ [])
    {cs : List Condition} (h : f.filterItems (f.scopeOf []) vs = .ok cs) :
    f.filterIn (f.scopeOf []) (.entry op.key (.array vs)) =
      .ok (.chain (.ofLogical op) (cs.map Condition.group)) := by
  obtain ⟨v, vs, rfl⟩ := List.exists_cons_of_ne_nil hne
  have hgroup : f.filterGroup (f.scopeOf []) op.key (.array (v :: vs)) = .ok cs := h
  rcases ho with rfl | rfl
  · rw [Value.entry, Formatter.filterIn, Formatter.filterEntries, Formatter.filterEntry, if_pos (by decide), hgroup]
    rfl
  · rw [Value.entry, Formatter.filterIn, Formatter.filterEntries, Formatter.filterEntry, if_neg (by decide),
      if_pos (by decide), hgroup]
    rfl

theorem sameSql_group {op : LogicalOp} (ho : op = .and ∨ op = .or) {vs ws : List Value} (hne : vs ≠ [])
    (h : List.Forall₂ (SameSql f) vs ws) : SameSql f (.entry op.key (.array vs)) (.entry op.key (.array ws)) := by
  have hne' : ws ≠ [] := by
    rintro rfl
    cases h
    exact hne rfl
  obtain ⟨cs, ds, hcs, hds, htexts⟩ := sameSql_items h
  refine ⟨_, _, filterIn_group ho hne hcs, filterIn_group ho hne' hds, ?_⟩
  have hgroups : ∀ cs : List Condition,
      (cs.map Condition.group).map Condition.text = (cs.map Condition.text).map fun s => "(" ++ s ++ ")" := by
    intro cs
    rw [List.map_map, List.map_map]
    exact List.map_congr_left fun c _ => c.text_group
  rw [Condition.text_chain, Condition.text_chain, hgroups, hgroups, htexts]

/-- Filters that are merged alike: both are one entry without a list, or both are groups of an operator. -/
inductive Twins (f : Formatter) : Value → Value → Prop where
  | entry {key : String} {v w : Value} (hv : ∀ items, v ≠ .array items) (hw : ∀ items, w ≠ .array items)
    (h : SameSql f (.entry key v) (.entry key w)) : Twins f (.entry key v) (.entry key w)
  | group {op : LogicalOp} {vs ws : List Value} (ho : op = .and ∨ op = .or) (hne : vs ≠ [])
    (h : List.Forall₂ (SameSql f) vs ws) : Twins f (.entry op.key (.array vs)) (.entry op.key (.array ws))

namespace Twins

variable {v w : Value}

theorem sameSql (h : Twins f v w) : SameSql f v w := by
  cases h with
  | entry hv hw h => exact h
  | group ho hne h => exact sameSql_group ho hne h

theorem merge {op : LogicalOp} {v' w' : Value} (h : Twins f v w) (ho : op = .and ∨ op = .or) (h' : SameSql f v' w') :
    Twins f (mergeFilter (some v) op v') (mergeFilter (some w) op w') := by
  have hpair : List.Forall₂ (SameSql f) [v, v'] [w, w'] := .cons h.sameSql (.cons h' .nil)
  cases h with
  | entry hv hw h =>
    rw [mergeFilter_of_ne_array hv, mergeFilter_of_ne_array hw]
    exact group ho (by simp) hpair
  | @group op' vs ws ho' hne h =>
    rw [mergeFilter_group, mergeFilter_group]
    split
    · exact group ho (by simp) (List.rel_append h (.cons h' .nil))
    · exact group ho (by simp) hpair

theorem clause (f : Formatter) (c : Clause) : Twins f c.fluent c.document := by
  refine entry (fun items => ?_) (by simp [Value.entry]) (sameSql_clause f c)
  have hv := c.plain
  intro hc
  split at hc
  · rw [hc] at hv
    cases hv
  · cases hc

end Twins

theorem sameSql_mergedWith (f : Formatter) (first : Clause) (rest : List Clause) :
    SameSql f (mergedWith Clause.fluent first rest) (mergedWith Clause.document first rest) := by
  have hfold : ∀ {v w : Value}, Twins f v w →
      Twins f (rest.foldl (fun merged c => mergeFilter (some merged) c.connective c.fluent) v)
        (rest.foldl (fun merged c => mergeFilter (some merged) c.connective c.document) w) := by
    induction rest with
    | nil => exact id
    | cons c rest ih => exact fun h => ih (h.merge c.joins (sameSql_clause f c))
  exact (hfold (.clause f first)).sameSql

/-- The clause of a single filter is its condition in parentheses. -/
theorem whereClause_eq_map {q : Query} {v : Value} (hp : q.prepared = none) (hv : q.filter = some v) :
    f.whereClause q = (f.filterIn (f.scopeOf q.computed) v).map fun c => " WHERE (" ++ c.text ++ ")" := by
  rw [Formatter.whereClause, Formatter.whereCondition, hp, hv]
  show ((do
    let cs ← [v].mapM (f.filterIn (f.scopeOf q.computed))
    _) >>= _) = _
  rw [List.mapM_cons]
  cases f.filterIn (f.scopeOf q.computed) v with
  | error e => rfl
  | ok c =>
    have htext : (Condition.chain .and [.group c]).text = "(" ++ c.text ++ ")" := by
      rw [Condition.text_chain]
      exact c.text_group
    show Except.ok (" WHERE " ++ (Condition.chain .and [.group c]).text) = .ok (" WHERE (" ++ c.text ++ ")")
    rw [htext, ← String.append_assoc, ← String.append_assoc]
    rfl

/-- All of a collection that a filter takes is selected by the filter's condition alone. -/
theorem format_selectedWith (target : Collection) (v : Value) (computed : Document) :
    f.format (selectedWith target v computed) = (f.filterIn (f.scopeOf computed) v).map fun c =>
      "SELECT * FROM " ++ f.source target.name target.label ++ (" WHERE (" ++ c.text ++ ")") ++
        f.dialect.paging none none := by
  have hclause : f.whereClause (selectedWith target v computed) =
      (f.filterIn (f.scopeOf computed) v).map fun c => " WHERE (" ++ c.text ++ ")" := whereClause_eq_map rfl rfl
  show f.select (selectedWith target v computed) = _
  rw [selectedWith, Formatter.select, ← selectedWith, Formatter.clauses, hclause]
  cases f.filterIn (f.scopeOf computed) v with
  | error e => rfl
  | ok c =>
    have hstart : "SELECT " ++ "" ++ "*" ++ " FROM " = "SELECT * FROM " := by decide
    show Except.ok ("SELECT " ++ "" ++ "*" ++ " FROM " ++ f.source target.name target.label ++ "" ++ _) = _
    rw [hstart]
    simp only [String.append_empty, String.append_assoc]
    rfl

theorem format_selected (target : Collection) {v : Value} {c : Condition} (hc : f.filterIn (f.scopeOf []) v = .ok c) :
    f.format (selected target v) = .ok ("SELECT * FROM " ++ f.source target.name target.label ++
      (" WHERE (" ++ c.text ++ ")") ++ f.dialect.paging none none) := by
  have hformat := format_selectedWith (f := f) target v []
  rwa [hc] at hformat

theorem SameSql.format {v w : Value} (h : SameSql f v w) (target : Collection) :
    ∃ sql, f.format (selected target v) = .ok sql ∧ f.format (selected target w) = .ok sql := by
  obtain ⟨c, d, hc, hd, htext⟩ := h
  refine ⟨_, format_selected target hc, ?_⟩
  rw [htext]
  exact format_selected target hd

end Sql

/-! ### Same SQL -/

/-- Clauses that are built step by step give the SQL of their text. -/
theorem format_fluent_eq_format_text (target : Collection) (first : Clause) (rest : List Clause)
    (hlimit : ∀ position, Filter.parse (clauseText first rest) ≠ .error (.nestingTooDeep position)) :
    ∃ fluent textual, Query.build (fluentSteps target first rest) = .ok fluent ∧
      Query.build (textSteps target (clauseText first rest)) = .ok textual ∧
      ∀ f : Formatter, ∃ sql, f.format fluent = .ok sql ∧ f.format textual = .ok sql := by
  have hparse : Filter.parse (clauseText first rest) = .ok (clauseExpr first rest) := by
    rcases parse_clauseText first rest with h | ⟨-, position, h⟩
    · exact h
    · exact absurd h (hlimit position)
  exact ⟨_, _, build_fluentSteps target first rest, build_textSteps target hparse (render_clauseExpr first rest),
    fun f => (Sql.sameSql_mergedWith f first rest).format target⟩

/-- The connective changes twice, and a clause compares with null. -/
theorem format_fluent_eq_format_text_mixed :
    ∃ first second third fourth : Clause,
      clauseText first [second, third, fourth] =
        "(((a eq NULL) or (b/c ge 5)) or (d eq 'it\\'s')) and (e ne true)" ∧
      ∃ fluent textual, Query.build (fluentSteps ⟨"t", none⟩ first [second, third, fourth]) = .ok fluent ∧
        Query.build (textSteps ⟨"t", none⟩ "(((a eq NULL) or (b/c ge 5)) or (d eq 'it\\'s')) and (e ne true)") =
          .ok textual ∧
        ∀ f : Formatter, ∃ sql, f.format fluent = .ok sql ∧ f.format textual = .ok sql := by
  let first : Clause :=
    ⟨.and, "a", .eq, .null, .inl rfl, by decide, by decide, by decide, by decide, rfl⟩
  let second : Clause :=
    ⟨.or, "b.c", .gte, .int 5, .inr rfl, by decide, by decide, by decide, by decide, rfl⟩
  let third : Clause :=
    ⟨.or, "d", .eq, .string "it's", .inr rfl, by decide, by decide, by decide, by decide, rfl⟩
  let fourth : Clause :=
    ⟨.and, "e", .ne, .bool true, .inl rfl, by decide, by decide, by decide, by decide, rfl⟩
  have htext : clauseText first [second, third, fourth] =
      "(((a eq NULL) or (b/c ge 5)) or (d eq 'it\\'s')) and (e ne true)" := by decide +kernel
  have hlimit : ∀ position,
      Filter.parse (clauseText first [second, third, fourth]) ≠ .error (.nestingTooDeep position) := by
    intro position
    rcases parse_clauseText first [second, third, fourth] with h | ⟨hlong, -⟩
    · simp [h]
    · exact absurd hlong (by decide)
  exact ⟨first, second, third, fourth, htext, htext ▸ format_fluent_eq_format_text ⟨"t", none⟩ _ _ hlimit⟩

end SqlQuery
