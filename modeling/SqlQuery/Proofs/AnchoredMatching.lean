import Mathlib
import SqlQuery.Proofs.LikeMatching
import SqlQuery.Proofs.NestedTransforms

/-!
# Matches at the start and at the end

A builder writes a match at the start or at the end of a field as an expression with an anchor, `^` before the text or
`$` after it, while a call of the method keeps the text apart. The anchor is found again by the characters at both ends
of the expression, so a text that has the other anchor at its open end is matched as a whole, without that character
(`ofRegex_regex`). All other texts are matched as the call matches them (`anchored_match`).
-/

namespace SqlQuery

open Sql (Condition Dialect Formatter LikePattern Scope)

/-! ### Anchors -/

/-- Where a text is matched. -/
inductive Anchor where
  | start | finish

namespace Anchor

/-- The comparison that a builder is given. -/
def comparison (anchor : Anchor) (text : String) : Comparison :=
  match anchor with
  | .start => .startsWith text
  | .finish => .endsWith text

/-- The method that is called. -/
def method : Anchor → Method
  | .start => .startsWith
  | .finish => .endsWith

/-- The text with its anchor. -/
def regex (anchor : Anchor) (text : String) : String :=
  match anchor with
  | .start => "^" ++ text
  | .finish => text ++ "$"

/-- The text, open at its other end. -/
def pattern (anchor : Anchor) (text : String) : LikePattern :=
  match anchor with
  | .start => ⟨false, text, true⟩
  | .finish => ⟨true, text, false⟩

/-- The text has the other anchor at its open end. -/
def meetsOther (anchor : Anchor) (text : String) : Bool :=
  match anchor with
  | .start => text.toList.getLast? = some '$'
  | .finish => text.toList.head? = some '^'

/-- The text without the character at its open end. -/
def trimmed (anchor : Anchor) (text : String) : String :=
  match anchor with
  | .start => String.ofList text.toList.dropLast
  | .finish => String.ofList text.toList.tail

/-- The pattern that the comparison is compiled to. -/
def compiled (anchor : Anchor) (text : String) : LikePattern :=
  if anchor.meetsOther text then ⟨false, anchor.trimmed text, false⟩ else anchor.pattern text

variable {anchor : Anchor} {text : String}

theorem condition_comparison (anchor : Anchor) (text : String) :
    (anchor.comparison text).condition = .ok (Comparison.pattern (anchor.regex text)) := by
  cases anchor <;> rfl

theorem ofRegex_of_head {regex : String} {cs : List Char} (h : regex.toList = '^' :: cs) :
    LikePattern.ofRegex regex =
      if cs.getLast? = some '$' then ⟨false, String.ofList cs.dropLast, false⟩
      else ⟨false, String.ofList cs, true⟩ := by
  rw [LikePattern.ofRegex, h]
  rfl

theorem ofRegex_of_head_ne {regex : String} (h : regex.toList.head? ≠ some '^') :
    LikePattern.ofRegex regex =
      if regex.toList.getLast? = some '$' then ⟨true, String.ofList regex.toList.dropLast, false⟩
      else ⟨true, regex, true⟩ := by
  unfold LikePattern.ofRegex
  split
  · next cs hcs =>
    rw [hcs] at h
    exact absurd rfl h
  · rfl

theorem ofRegex_regex (anchor : Anchor) (text : String) :
    LikePattern.ofRegex (anchor.regex text) = anchor.compiled text := by
  cases anchor with
  | start =>
    have hregex : ("^" ++ text).toList = '^' :: text.toList := by simp
    rw [regex, ofRegex_of_head hregex, String.ofList_toList]
    simp only [compiled, meetsOther, decide_eq_true_eq]
    rfl
  | finish =>
    have hregex : (text ++ "$").toList = text.toList ++ ['$'] := by simp
    by_cases hhead : text.toList.head? = some '^'
    · have htext : (text ++ "$").toList = '^' :: (text.toList.tail ++ ['$']) := by
        rw [hregex, ← List.cons_append, List.cons_head?_tail hhead]
      have hmeets : meetsOther .finish text = true := decide_eq_true hhead
      rw [regex, ofRegex_of_head htext, List.getLast?_concat, if_pos rfl, List.dropLast_concat, compiled, if_pos hmeets]
      rfl
    · have hhead' : (text ++ "$").toList.head? ≠ some '^' := by
        rw [hregex]
        cases hcs : text.toList with
        | nil => decide
        | cons c cs =>
          rw [hcs] at hhead
          exact hhead
      have hmeets : meetsOther .finish text = false := decide_eq_false hhead
      rw [regex, ofRegex_of_head_ne hhead', hregex, List.getLast?_concat, if_pos rfl, List.dropLast_concat,
        String.ofList_toList, compiled, hmeets]
      rfl

/-- A text that is taken to stand between two anchors has the shorter pattern. -/
theorem length_chars_compiled (h : anchor.meetsOther text = true) :
    (anchor.compiled text).chars.length < (anchor.pattern text).chars.length := by
  rw [compiled, if_pos h]
  cases anchor with
  | start =>
    have hlast : text.toList.getLast? = some '$' := of_decide_eq_true h
    have htext : text.toList = text.toList.dropLast ++ ['$'] := (List.dropLast_append_getLast? _ hlast).symm
    rw [pattern, LikePattern.chars, LikePattern.chars, htext]
    simp [trimmed]
  | finish =>
    have hhead : text.toList.head? = some '^' := of_decide_eq_true h
    have htext : text.toList = '^' :: text.toList.tail := (List.cons_head?_tail hhead).symm
    rw [pattern, LikePattern.chars, LikePattern.chars, htext]
    simp [trimmed]

theorem operand_compiled_iff (anchor : Anchor) (text : String) (d : Dialect) :
    (anchor.compiled text).operand d = (anchor.pattern text).operand d ↔ anchor.meetsOther text = false := by
  constructor
  · intro h
    by_contra hmeets
    have hlength := length_chars_compiled (Bool.eq_true_of_not_eq_false hmeets)
    rw [LikePattern.chars_eq_of_operand_eq h] at hlength
    exact absurd hlength (lt_irrefl _)
  · intro h
    rw [compiled, h]
    rfl

end Anchor

/-! ### Conditions -/

namespace Sql

variable {f : Formatter} {scope : Scope}

theorem fieldCondition_pattern (column regex : String) :
    f.fieldCondition scope column (Comparison.pattern regex) =
      .ok (.chain .and [.leaf (column ++ " LIKE " ++ (LikePattern.ofRegex regex).operand f.dialect)]) :=
  rfl

/-- Under a name that is an operator's, a match has no SQL. -/
theorem filterIn_pattern_of_isOperatorKey {key : String} (hk : isOperatorKey key = true) (regex : String) :
    ∃ cause, f.filterIn scope (.entry key (Comparison.pattern regex)) = .error cause := by
  have hgroup : ∃ cause, f.filterGroup scope key (Comparison.pattern regex) = .error cause := ⟨_, rfl⟩
  obtain ⟨cause, hgroup⟩ := hgroup
  have hexpression : f.expressionIn scope (.object [(key, Comparison.pattern regex)]) =
      .error (.malformed (Comparison.pattern regex)) := by
    rw [expressionIn_entry, if_pos hk]
    rfl
  rw [Value.entry, Formatter.filterIn, Formatter.filterEntries, Formatter.filterEntry, hgroup, if_pos hk, hexpression]
  split_ifs <;> exact ⟨_, rfl⟩

/-- A name stands for the field that it was made up for. -/
theorem scopeOf_key (f : Formatter) (field : Field) :
    f.scopeOf (field.key []).2 (field.key []).1 = f.expression field.value := by
  obtain ⟨term, label⟩ := field
  cases label with
  | some label =>
    show f.scopeOf (Entries.insert label term.value []) label = _
    rw [Formatter.scopeOf, Entries.get?_insert_self]
    rfl
  | none =>
    cases term with
    | simple name => rfl
    | computed method args =>
      have hget : Entries.get? (hoist method args []).1 (hoist method args []).2 =
          some (Term.computed method args).value := Entries.get?_insert_self
      show f.scopeOf (hoist method args []).2 (hoist method args []).1 = _
      rw [Formatter.scopeOf, hget]
      rfl

theorem expression_match (f : Formatter) (anchor : Anchor) (value : Value) (text : String) :
    f.expression (.entry anchor.method.key (.array [value, .string text])) = (f.expression value).map fun column =>
      "(" ++ column ++ " LIKE " ++ (anchor.pattern text).operand f.dialect ++ ")" := by
  have hkey : isOperatorKey anchor.method.key = true := by cases anchor <;> decide
  rw [Formatter.expression, Value.entry, expressionIn_entry, if_pos hkey]
  show (f.expressionsIn f.plainScope [value, .string text] >>= _) = _
  rw [Formatter.expressionsIn]
  show ((f.expression value >>= _) >>= _) = _
  cases f.expression value with
  | error cause => rfl
  | ok column => cases anchor <;> rfl

end Sql

/-! ### Queries -/

/-- A first condition on a field goes under its name, or under the label that it gets. -/
theorem Operand.under_ofField (field : Field) (condition : Value) :
    (Operand.ofField field).under ((Operand.ofField field).label []) condition = .entry (field.key []).1 condition ∧
      (Operand.ofField field).filed = (field.key []).2 := by
  obtain ⟨term, label⟩ := field
  cases term <;> cases label <;> exact ⟨rfl, rfl⟩

theorem build_match (anchor : Anchor) (text : String) (target : Collection) {s : Source} {field : Field}
    (hs : s.field? = .ok field) :
    Query.build [.fromCollection target, .selectAll, .whereField s, .compare (anchor.comparison text)] =
      .ok (selectedWith target (.entry (field.key []).1 (Comparison.pattern (anchor.regex text)))
        (field.key []).2) := by
  have hrun : Builder.run {} [.fromCollection target, .selectAll, .whereField s] =
      .ok (.comparing target (.ofField field)) := by
    rw [run_cons _ rfl, run_cons _ rfl, run_cons _ (Builder.Takes.whereField hs).step]
    rfl
  obtain ⟨hunder, hfiled⟩ := Operand.under_ofField field (Comparison.pattern (anchor.regex text))
  have hstep := Operand.step_compare target (x := .ofField field) (anchor.condition_comparison text)
  rw [hunder, hfiled] at hstep
  have hbuild := Builder.run_append hrun [.compare (anchor.comparison text)]
  rw [run_cons _ hstep] at hbuild
  exact congrArg (Except.map Builder.query) hbuild

/-- A match at one end of a field that is built: its SQL is the field's column and the operand of the compiled pattern,
and none if the field goes under an operator's name. A call of the method has the operand of the text, open at the other
end. The two are one exactly if the text does not have the other anchor at its open end. -/
theorem anchored_match (anchor : Anchor) (text : String) (target : Collection) {s : Source} {field : Field}
    (hs : s.field? = .ok field) :
    ∃ q, Query.build [.fromCollection target, .selectAll, .whereField s, .compare (anchor.comparison text)] = .ok q ∧
      (isOperatorKey (field.key []).1 = false → ∀ f : Formatter,
        f.format q = (f.expression field.value).map fun column =>
          "SELECT * FROM " ++ f.source target.name target.label ++ " WHERE (" ++ column ++ " LIKE " ++
            (anchor.compiled text).operand f.dialect ++ ")") ∧
      (isOperatorKey (field.key []).1 = true → ∀ f : Formatter, ∃ cause, f.format q = .error cause) ∧
      (∀ e : Expr, e.render = .ok field.value →
        ∃ call, (Expr.call anchor.method.name [e, .literal (.string text)]).render = .ok call ∧ ∀ f : Formatter,
          f.expression call = (f.expression field.value).map fun column =>
            "(" ++ column ++ " LIKE " ++ (anchor.pattern text).operand f.dialect ++ ")") ∧
      ∀ d : Dialect, (anchor.compiled text).operand d = (anchor.pattern text).operand d ↔
        anchor.meetsOther text = false := by
  refine ⟨_, build_match anchor text target hs, ?_, ?_, ?_, anchor.operand_compiled_iff text⟩
  · intro hk f
    have hpaging : f.dialect.paging none none = "" := by cases f.dialect <;> rfl
    rw [Sql.format_selectedWith, Sql.filterIn_field hk, Sql.scopeOf_key, hpaging]
    cases f.expression field.value with
    | error cause => rfl
    | ok column =>
      have htext : (Condition.chain .and
          [.leaf (column ++ " LIKE " ++ (LikePattern.ofRegex (anchor.regex text)).operand f.dialect)]).text =
          column ++ " LIKE " ++ (anchor.compiled text).operand f.dialect := by
        rw [Condition.text_chain, anchor.ofRegex_regex]
        exact Condition.text_leaf _
      show Except.map _ (f.fieldCondition _ column _) = _
      rw [Sql.fieldCondition_pattern]
      show Except.ok ("SELECT * FROM " ++ _ ++ (" WHERE (" ++ (Condition.chain .and [.leaf _]).text ++ ")") ++ "") = _
      rw [htext, String.append_empty]
      simp only [String.append_assoc]
      rfl
  · intro hk f
    obtain ⟨cause, hcause⟩ := Sql.filterIn_pattern_of_isOperatorKey hk (anchor.regex text)
    exact ⟨cause, by rw [Sql.format_selectedWith, hcause]; rfl⟩
  · intro e he
    refine ⟨.entry anchor.method.key (.array [field.value, .string text]), ?_, fun f => ?_⟩
    · rw [Expr.render, Expr.renderAll, he]
      rfl
    · exact Sql.expression_match f anchor field.value text

/-- The other end of the text may have any characters, and the text wildcards. -/
theorem anchored_match_trimmed :
    ∃ q, Query.build [.fromCollection ⟨"codes", none⟩, .selectAll,
        .whereField (.field ⟨.computed .trim [.ref "code"], none⟩), .compare (.startsWith "^50%")] = .ok q ∧
      (Formatter.mk .postgres {}).format q =
        .ok "SELECT * FROM codes WHERE (TRIM(code) LIKE '^50!%%' ESCAPE '!')" ∧
      ∃ call, (Expr.call "startsWith" [.call "trim" [.member "code"], .literal (.string "^50%")]).render = .ok call ∧
        (Formatter.mk .postgres {}).expression call = .ok "(TRIM(code) LIKE '^50!%%' ESCAPE '!')" := by
  have hs : (Source.field ⟨.computed .trim [.ref "code"], none⟩).field? =
      .ok ⟨.computed .trim [.ref "code"], none⟩ := rfl
  obtain ⟨q, hq, hsql, -, hcall, -⟩ := anchored_match .start "^50%" ⟨"codes", none⟩ hs
  obtain ⟨call, hrender, hexpression⟩ := hcall (.call "trim" [.member "code"]) rfl
  refine ⟨q, hq, (hsql (by decide) _).trans ?_, call, hrender, (hexpression _).trans ?_⟩
  · exact eq_ok_of_toOption (by decide +kernel)
  · exact eq_ok_of_toOption (by decide +kernel)

/-- A currency at the end of a text is taken for an anchor, and only the text before it is found. -/
theorem dollar_taken_for_anchor :
    (Query.build [.fromCollection ⟨"T", none⟩, .selectAll, .whereField (.name "price"),
      .compare (.startsWith "US$")]).toOption.bind (fun q => ((Formatter.mk .mysql {}).format q).toOption) =
        some "SELECT * FROM T WHERE (price LIKE 'US')" ∧
    ((Formatter.mk .mysql {}).expression (.entry "$startsWith" (.array [.ref "price", .string "US$"]))).toOption =
      some "(price LIKE 'US$%')" := by
  decide +kernel

end SqlQuery
