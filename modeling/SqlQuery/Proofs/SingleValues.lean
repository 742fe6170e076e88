import Mathlib
import SqlQuery.Proofs.InsertedRows
import SqlQuery.Proofs.StatedConditions

/-!
# Values as single expressions

A literal is written as one expression, and a list as its items with commas between them. The text of a constant is a
single expression just if the constant is a literal or a list of one such constant (`undivided_constant_iff`).
Comparisons and assignments write the value that they are given as it is, so that a list of another length is compared
or assigned as several expressions or as none (`single_value_iff`).
-/

namespace SqlQuery

/-- A literal, or a list with one such value in it. -/
inductive Value.Single : Value → Prop where
  | literal {v : Value} (hv : Filter.isLiteral v = true) : Single v
  | item {v : Value} (h : Single v) : Single (.array [v])

theorem Value.single_array_iff {items : List Value} : Single (.array items) ↔ ∃ v, items = [v] ∧ Single v := by
  constructor
  · intro h
    cases h with
    | literal hv => cases hv
    | item h => exact ⟨_, rfl, h⟩
  · rintro ⟨v, rfl, h⟩
    exact .item h

namespace Sql

/-- The text is not empty, and no comma in it is outside of parentheses and literals. -/
def Undivided (d : Dialect) (text : String) : Prop := text ≠ "" ∧ ',' ∉ surface d text

instance (d : Dialect) (text : String) : Decidable (Undivided d text) := inferInstanceAs (Decidable (_ ∧ _))

/-! ### Constants -/

section

variable {d : Dialect} {f : Formatter} {v : Value} {s t text : String}

theorem balanced_constant (v : Value) {text : String} (h : f.constant v = .ok text) : Balanced f.dialect text := by
  induction v using Value.induct generalizing text with
  | scalar v hv =>
    cases v with
    | array | object => cases hv
    | ref => cases h
    | _ => exact (shielded_constant rfl h).balanced
  | array items ih =>
    rw [constant_array] at h
    obtain ⟨texts, htexts, h⟩ := bind_eq_ok.1 h
    cases h
    exact .joinWith (forall_mem_of_forall₂ (forall₂_mapM htexts) fun v hv _ h => ih v hv h) (by decide) (by decide)
  | object entries => cases h

theorem undivided_quote (d : Dialect) (s : String) : Undivided d (d.quote s) := by
  refine ⟨fun h => ?_, by rw [Balanced.surface_quote]; exact List.not_mem_nil⟩
  have hempty : (d.quote s).toList = [] := h ▸ rfl
  rw [Dialect.quote, String.toList_ofList] at hempty
  cases hempty

theorem undivided_literal (hv : Filter.isLiteral v = true) (h : f.constant v = .ok text) :
    Undivided f.dialect text := by
  obtain ⟨s, rfl⟩ | ⟨hne, hchars⟩ := text_of_isLiteral hv h
  · exact undivided_quote _ s
  · have hnot : ∀ c, isUnquotedChar c = false → c ∉ text.toList := by
      intro c hc hmem
      rw [hchars c hmem] at hc
      cases hc
    have hbare : Bare text := ⟨hnot _ (by decide), hnot _ (by decide), hnot _ (by decide)⟩
    refine ⟨fun hempty => hne (hempty ▸ rfl), ?_⟩
    rw [hbare.surface_eq]
    exact hnot _ (by decide)

/-- The comma between two texts is outside of their parentheses and literals. -/
theorem not_undivided_between (hs : Balanced d s) (ht : Balanced d t) : ¬ Undivided d (s ++ ", " ++ t) := by
  rintro ⟨-, hcomma⟩
  rw [(hs.between (by decide) (by decide) ht).2] at hcomma
  simp at hcomma

/-- A constant is written as a single expression just if it is a literal or a list of one such constant. -/
theorem undivided_constant_iff (v : Value) {text : String} (h : f.constant v = .ok text) :
    Undivided f.dialect text ↔ v.Single := by
  induction v using Value.induct generalizing text with
  | scalar v hv =>
    cases v with
    | array | object => cases hv
    | ref => cases h
    | _ => exact iff_of_true (undivided_literal rfl h) (.literal rfl)
  | array items ih =>
    rw [constant_array] at h
    obtain ⟨texts, htexts, h⟩ := bind_eq_ok.1 h
    cases h
    rw [Value.single_array_iff]
    have hbalanced : ∀ t ∈ texts, Balanced f.dialect t :=
      forall_mem_of_forall₂ (forall₂_mapM htexts) fun v _ _ => balanced_constant v
    -- no item leaves the text empty, and two put a comma on its surface
    cases forall₂_mapM htexts with
    | nil => exact iff_of_false (fun h => h.1 rfl) (by simp)
    | cons hv hrest =>
      cases hrest with
      | nil =>
        rw [Text.joinWith, ih _ (List.mem_singleton_self _) hv]
        simp
      | cons hw hrest =>
        obtain ⟨hfirst, hmore⟩ := List.forall_mem_cons.1 hbalanced
        refine iff_of_false (not_undivided_between hfirst ?_) (by simp)
        exact .joinWith hmore (by decide) (by decide)
  | object entries => cases h

theorem expressionsIn_eq_constants {values : List Value} {scope : Scope}
    (h : ∀ v ∈ values, f.expressionIn scope v = f.constant v) : f.expressionsIn scope values = f.constants values := by
  induction values with
  | nil => rfl
  | cons v values ih =>
    obtain ⟨hv, hvalues⟩ := List.forall_mem_cons.1 h
    rw [Formatter.expressionsIn, Formatter.constants, hv, ih hvalues]

/-- A constant is the same expression in every scope. -/
theorem expressionIn_of_constant (hv : Closure.Constant v) (scope : Scope) :
    f.expressionIn scope v = f.constant v := by
  induction hv with
  | literal hv =>
    obtain ⟨text, hconstant, hexpression⟩ := constant_of_isLiteral f hv
    rw [hconstant, hexpression]
  | list _ ih => rw [Formatter.expressionIn, Formatter.constant, expressionsIn_eq_constants ih]

end

end Sql

/-! ### Comparisons -/

namespace Comparison

/-- The operator and the value of a comparison with one value. -/
def operator? : Comparison → Option (ComparisonOp × Value)
  | .equal v => some (.eq, v)
  | .notEqual v => some (.ne, v)
  | .greaterThan v => some (.gt, v)
  | .greaterOrEqual v => some (.gte, v)
  | .lowerThan v => some (.lt, v)
  | .lowerOrEqual v => some (.lte, v)
  | _ => none

variable {c : Comparison} {op : ComparisonOp} {v condition : Value}

theorem orders_of_operator? (h : c.operator? = some (op, v)) : op ≠ .isIn ∧ op ≠ .notIn := by
  cases c <;> cases h <;> decide

/-- The condition is the operator on the value, or a scalar alone for equality with it. -/
theorem condition_of_operator? (h : c.operator? = some (op, v)) (hc : c.condition = .ok condition) :
    condition = .entry op.key v ∨ op = .eq ∧ v.isScalar = true ∧ condition = v := by
  cases c with
  | equal value =>
    cases h
    obtain rfl := Except.ok.inj hc
    split
    · next hs => exact .inr ⟨rfl, hs, rfl⟩
    · exact .inl rfl
  | isIn | notIn | startsWith | endsWith | contains | notContains => cases h
  | _ =>
    cases h
    exact .inl (Except.ok.inj hc).symm

end Comparison

namespace Sql

variable {f : Formatter} {scope : Scope} {name text sql : String} {op : ComparisonOp} {v condition : Value} {q : Query}

/-- What stands between a column and the value that it is compared with. -/
def comparisonWord (op : ComparisonOp) (v : Value) : String :=
  match op, v with
  | .eq, .null => " IS "
  | .ne, .null => " IS NOT "
  | op, _ => (Formatter.comparisonSymbols.lookup op.key).getD ""

theorem comparisonText_eq (ho : op ≠ .isIn ∧ op ≠ .notIn) (h : f.constant v = .ok text) :
    comparisonText op v text = comparisonWord op v ++ text := by
  cases op with
  | isIn => exact absurd rfl ho.1
  | notIn => exact absurd rfl ho.2
  | eq | ne =>
    cases v with
    | null =>
      cases h
      rfl
    | _ => rfl
  | _ => cases v <;> rfl

/-- SQL compares a column with the text of a value, in parentheses. -/
def Compares (scope : Scope) (name : String) (op : ComparisonOp) (v : Value) (text sql : String) : Prop :=
  ∃ column, scope name = .ok column ∧ Occurs ("(" ++ column ++ comparisonWord op v ++ text ++ ")") sql

/-- The condition of a comparison is that of the column with the text of the value. -/
theorem text_of_filterIn {c : Comparison} (hk : isOperatorKey name = false) (hc : c.operator? = some (op, v))
    (hcondition : c.condition = .ok condition) (hv : Closure.Constant v) (htext : f.constant v = .ok text)
    {d : Condition} (hd : f.filterIn scope (.entry name condition) = .ok d) :
    ∃ column, scope name = .ok column ∧ d.text = column ++ (comparisonWord op v ++ text) := by
  have hright : f.expressionIn scope v = .ok text := (expressionIn_of_constant hv scope).trans htext
  rw [filterIn_field hk] at hd
  obtain ⟨column, hcolumn, hd⟩ := bind_eq_ok.1 hd
  refine ⟨column, hcolumn, ?_⟩
  rw [← comparisonText_eq (Comparison.orders_of_operator? hc) htext]
  -- equality with a scalar is stated without an operator, and compiles as if there were one
  rcases Comparison.condition_of_operator? hc hcondition with rfl | ⟨rfl, hscalar, rfl⟩
  · rw [fieldCondition_comparison hright] at hd
    cases hd
    rw [Condition.text_chain, List.map_singleton, Condition.text_leaf]
    rfl
  · have hleaf : f.fieldOperator scope column ComparisonOp.eq.key condition (fun _ => .ok d) = _ :=
      fieldOperator_of_takes hright _
    cases hd.symm.trans ((fieldCondition_of_isScalar hscalar).trans hleaf)
    rw [Condition.text_leaf]

theorem compares_format {c : Comparison} (hk : isOperatorKey name = false) (hc : c.operator? = some (op, v))
    (hcondition : c.condition = .ok condition) (hv : Closure.Constant v) (htext : f.constant v = .ok text)
    (h : q.States name condition) (hs : ∀ rows, q.statement ≠ some (.insert rows)) (hsql : f.format q = .ok sql) :
    Compares (f.scopeOf q.computed) name op v text sql := by
  obtain ⟨d, hd, hoccurs⟩ := occurs_format h hs hsql
  obtain ⟨column, hcolumn, hleaf⟩ := text_of_filterIn hk hc hcondition hv htext hd
  refine ⟨column, hcolumn, ?_⟩
  rw [Condition.text_group, hleaf, ← String.append_assoc, ← String.append_assoc] at hoccurs
  exact hoccurs

/-! ### Assignments -/

/-- SQL updates the columns of a document to texts. -/
def Assigns (f : Formatter) (values : Document) (texts : List String) (sql : String) : Prop :=
  ∃ target clause, sql = "UPDATE " ++ target ++ " SET " ++
    Text.joinWith ", " (List.zipWith (fun entry text => f.style.name entry.1 ++ "=" ++ text) values texts) ++ clause

theorem exists_assigned {values : Document} {assignments : List String}
    (h : List.Forall₂ (fun entry text => f.assignment entry = .ok text) values assignments) :
    ∃ texts, List.Forall₂ (fun entry text => f.expression entry.2 = .ok text) values texts ∧
      assignments = List.zipWith (fun entry text => f.style.name entry.1 ++ "=" ++ text) values texts := by
  induction h with
  | nil => exact ⟨[], .nil, rfl⟩
  | cons hentry _ ih =>
    obtain ⟨texts, htexts, rfl⟩ := ih
    obtain ⟨text, htext, hentry⟩ := bind_eq_ok.1 hentry
    cases hentry
    exact ⟨text :: texts, .cons htext htexts, rfl⟩

theorem exists_assigns {values : Document} (hs : q.statement = some (.update (some values)))
    (hsql : f.format q = .ok sql) :
    ∃ texts, Assigns f values texts sql ∧
      List.Forall₂ (fun entry text => f.expression entry.2 = .ok text) values texts := by
  cases hc : q.collection with
  | none =>
    rw [Formatter.format, hc] at hsql
    cases hsql
  | some target =>
    have hupdate : f.format q = f.updateValues target.name values q := by
      simp only [Formatter.format, Formatter.update, hc, hs, Option.getD_some]
    rw [hupdate, Formatter.updateValues] at hsql
    split at hsql
    · cases hsql
    · obtain ⟨assignments, hassignments, hsql⟩ := bind_eq_ok.1 hsql
      obtain ⟨clause, -, hsql⟩ := bind_eq_ok.1 hsql
      cases hsql
      obtain ⟨texts, htexts, rfl⟩ := exists_assigned (forall₂_mapM hassignments)
      exact ⟨texts, ⟨_, clause, rfl⟩, htexts⟩

end Sql

/-- The steps that set the statement or its values. -/
def Step.setsStatement : Step → Bool
  | .fromCollection _ | .select _ | .selectAll | .insert _ | .insertMany _ | .update _ | .setValues _
  | .delete _ => true
  | _ => false

theorem Builder.statement_of_step {b after : Builder} {s : Step} (hs : s.setsStatement = false)
    (h : b.step s = .ok after) : after.query.statement = b.query.statement := by
  cases step_eq_ok.1 h with
  | fromCollection | select | selectAll | insert | insertMany | update | setValues | delete => cases hs
  | _ => rfl

open Sql (Formatter Undivided Compares Assigns)

/-- A comparison on a field, or an update, writes the text of each constant as it is. That is a single expression just
if the constant is. -/
theorem single_value_iff (f : Formatter) {b after : Builder} {s : Step} {more : List Step} {sql : String}
    (hrun : b.run (s :: more) = .ok after) (hsql : f.format after.query = .ok sql) :
    (∀ {c : Comparison} {op : ComparisonOp} {v : Value} {name : String}, s = .compare c → c.operator? = some (op, v) →
      b.left = some (.bare name []) → isOperatorKey name = false → Closure.Constant v →
      (∀ t ∈ more, t.replacesFilter = false) → (∀ rows, after.query.statement ≠ some (.insert rows)) →
      ∃ text, f.constant v = .ok text ∧ Compares (f.scopeOf after.query.computed) name op v text sql ∧
        (Undivided f.dialect text ↔ v.Single)) ∧
    ∀ {values : Document}, s = .setValues (.object values) → (∀ t ∈ more, t.setsStatement = false) →
      ∃ texts, Assigns f values texts sql ∧ List.Forall₂ (fun entry text => Closure.Constant entry.2 →
        f.constant entry.2 = .ok text ∧ (Undivided f.dialect text ↔ entry.2.Single)) values texts := by
  obtain ⟨next, hs, hrun⟩ := bind_eq_ok.1 hrun
  constructor
  · rintro c op v name rfl hc hl hk hv hmore hinsert
    obtain ⟨text, htext⟩ := (Sql.exists_constant_iff v).2 hv
    cases Builder.step_eq_ok.1 hs with
    | @compare _ condition left hcondition hleft =>
      obtain rfl := Option.some.inj (hl.symm.trans hleft)
      have hstates := (states_complete_bare b name condition).run hk hmore hrun
      exact ⟨text, htext, Sql.compares_format hk hc hcondition hv htext hstates hinsert hsql,
        Sql.undivided_constant_iff v htext⟩
  · rintro values rfl hmore
    cases Builder.step_eq_ok.1 hs with
    | setValues _ hupdate =>
      have hstatement := Builder.run_keeps_of_forall (P := fun b => b.query.statement = some (.update (some values)))
        (fun ht hb hstep => (Builder.statement_of_step ht hstep).trans hb) hrun hmore rfl
      obtain ⟨texts, hassigns, htexts⟩ := Sql.exists_assigns hstatement hsql
      refine ⟨texts, hassigns, htexts.imp fun entry text htext hv => ?_⟩
      have hconstant : f.constant entry.2 = .ok text := (Sql.expressionIn_of_constant hv _).symm.trans htext
      exact ⟨hconstant, Sql.undivided_constant_iff entry.2 hconstant⟩

/-- A list is a single expression if there is one literal in it, also when conditions are joined to it later. -/
theorem single_value_iff_nested :
    (∃ after : Builder, Builder.run
        { query := { collection := some ⟨"T", none⟩, statement := some (.select []) }, left := some (.bare "a" []) }
        [.compare (.notEqual (.array [.array [.string "x, (y"]])), .continueWith .or (.name "b"),
          .compare (.equal .null), .prepare .and] = .ok after ∧
      Formatter.format {} after.query = .ok "SELECT * FROM T WHERE ((a<>'x, (y') OR (b IS NULL))" ∧
      ∃ text, Compares (Formatter.scopeOf {} after.query.computed) "a" .ne (.array [.array [.string "x, (y"]]) text
        "SELECT * FROM T WHERE ((a<>'x, (y') OR (b IS NULL))" ∧ Undivided .mysql text) ∧
    ∃ after : Builder, (Builder.update {} ⟨"T", none⟩).run
        [.setValues (.object [("tags", .array [.int 1, .int 2]), ("n", .array [.int 3])]), .whereField (.name "id"),
          .compare (.equal (.int 7))] = .ok after ∧
      Formatter.format {} after.query = .ok "UPDATE T SET tags=1, 2, n=3 WHERE (id=7)" ∧
      ∃ tags n, Assigns {} [("tags", .array [.int 1, .int 2]), ("n", .array [.int 3])] [tags, n]
        "UPDATE T SET tags=1, 2, n=3 WHERE (id=7)" ∧ ¬ Undivided .mysql tags ∧ Undivided .mysql n := by
  have hexists : ∀ {x : Except Error Builder} {a : Builder} {P : Builder → Prop}, x = .ok a → (∀ b, x = .ok b → P b) →
      ∃ b, x = .ok b ∧ P b := fun h hp => ⟨_, h, hp _ h⟩
  have hconstant : ∀ v text, Formatter.constant {} v = .ok text → Closure.Constant v :=
    fun v text h => (Sql.exists_constant_iff v).1 ⟨text, h⟩
  constructor
  · refine hexists rfl fun after hrun => ?_
    have hsql : Formatter.format {} after.query = .ok "SELECT * FROM T WHERE ((a<>'x, (y') OR (b IS NULL))" := by
      cases hrun
      exact eq_ok_of_toOption (by decide +kernel)
    have hinsert : ∀ rows, after.query.statement ≠ some (.insert rows) := by
      cases hrun
      exact fun rows h => by cases h
    obtain ⟨text, -, hcompares, hsingle⟩ := (single_value_iff {} hrun hsql).1 rfl rfl rfl (by decide)
      (hconstant _ _ rfl) (by decide) hinsert
    exact ⟨hsql, text, hcompares, hsingle.2 (.item (.item (.literal rfl)))⟩
  · refine hexists rfl fun after hrun => ?_
    have hsql : Formatter.format {} after.query = .ok "UPDATE T SET tags=1, 2, n=3 WHERE (id=7)" := by
      cases hrun
      exact eq_ok_of_toOption (by decide +kernel)
    obtain ⟨texts, hassigns, htexts⟩ := (single_value_iff {} hrun hsql).2 rfl (by decide)
    rcases htexts with _ | ⟨htags, _ | ⟨hn, _ | _⟩⟩
    refine ⟨hsql, _, _, hassigns, fun h => ?_, (hn (hconstant _ _ rfl)).2.2 (.item (.literal rfl))⟩
    obtain ⟨v, hv, -⟩ := Value.single_array_iff.1 ((htags (hconstant _ _ rfl)).2.1 h)
    cases hv

/-- A list is compared as its items with commas between them. -/
theorem list_compared_as_value :
    ∃ q, Query.build [.fromCollection ⟨"T", none⟩, .selectAll, .whereField (.name "a"),
        .compare (.equal (.array [.int 1, .int 2]))] = .ok q ∧
      Formatter.format {} q = .ok "SELECT * FROM T WHERE (a=1, 2)" ∧
      Formatter.constant {} (.array [.int 1, .int 2]) = .ok "1, 2" ∧ ¬ Undivided .mysql "1, 2" :=
  ⟨_, rfl, eq_ok_of_toOption (by decide +kernel), eq_ok_of_toOption (by decide +kernel), by decide +kernel⟩

end SqlQuery
