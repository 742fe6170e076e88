import Mathlib
import SqlQuery.Proofs.ExpressionStructure
import SqlQuery.Proofs.FluentFilter
import SqlQuery.Proofs.GrammaticalTrees

/-!
# Comparisons of members

A comparison of a member with a literal is rendered under the member's name. If the name is no operator key, its SQL is
the condition on the column (`member_condition`). A name that starts with a dollar sign is an operator key, and then it
never is: the comparison is an argument of that operator, which is an expression only if it is the membership of a list
of two literals, whose first one is then compared with the second (`member_taken_for_operator`).
-/

namespace SqlQuery

open SqlQuery.Filter (isLiteral)

namespace ComparisonOp

/-- Comparisons with a list. -/
def isMembership : ComparisonOp → Bool
  | .isIn | .notIn => true
  | _ => false

/-- The values of filters that a comparison takes: literals, or lists of them. -/
def takes (op : ComparisonOp) : Value → Bool
  | .array values => op.isMembership && values.all isLiteral
  | value => !op.isMembership && isLiteral value

end ComparisonOp

namespace Sql

/-- What follows a column that is compared with a constant. -/
def comparisonText (op : ComparisonOp) (value : Value) (constant : String) : String :=
  match op, value with
  | .eq, .null => " IS NULL"
  | .ne, .null => " IS NOT NULL"
  | .eq, _ => "=" ++ constant
  | .ne, _ => "<>" ++ constant
  | .lt, _ => "<" ++ constant
  | .lte, _ => "<=" ++ constant
  | .gt, _ => ">" ++ constant
  | .gte, _ => ">=" ++ constant
  | .isIn, _ => " IN (" ++ constant ++ ")"
  | .notIn, _ => " NOT IN (" ++ constant ++ ")"

section

variable {f : Formatter} {op : ComparisonOp} {value : Value} {scope : Scope}

/-! ### Constants -/

theorem constant_of_isLiteral (f : Formatter) (h : isLiteral value = true) :
    ∃ constant, f.constant value = .ok constant ∧ ∀ scope, f.expressionIn scope value = .ok constant := by
  cases value with
  | array | object | ref => cases h
  | bool b => cases b <;> exact ⟨_, rfl, fun _ => rfl⟩
  | _ => exact ⟨_, rfl, fun _ => rfl⟩

theorem constants_of_isLiteral (f : Formatter) {values : List Value} (h : values.all isLiteral = true) :
    ∃ texts, f.constants values = .ok texts ∧ texts.length = values.length ∧
      ∀ scope, f.expressionsIn scope values = .ok texts := by
  induction values with
  | nil => exact ⟨[], rfl, rfl, fun _ => rfl⟩
  | cons value values ih =>
    obtain ⟨hvalue, hvalues⟩ := Bool.and_eq_true_iff.1 (List.all_cons ▸ h)
    obtain ⟨text, hconstant, hexpression⟩ := constant_of_isLiteral f hvalue
    obtain ⟨texts, hconstants, hlength, hexpressions⟩ := ih hvalues
    refine ⟨text :: texts, ?_, by rw [List.length_cons, hlength, List.length_cons], fun scope => ?_⟩
    · rw [Formatter.constants, hconstant, hconstants]
      rfl
    · rw [Formatter.expressionsIn, hexpression, hexpressions]
      rfl

/-- What a comparison takes is a constant, and as an expression it is the same. -/
theorem constant_of_takes (f : Formatter) (h : op.takes value = true) :
    ∃ constant, f.constant value = .ok constant ∧ ∀ scope, f.expressionIn scope value = .ok constant := by
  cases value with
  | array values =>
    obtain ⟨texts, hconstants, -, hexpressions⟩ := constants_of_isLiteral f (Bool.and_eq_true_iff.1 h).2
    refine ⟨Text.joinWith ", " texts, ?_, fun scope => ?_⟩
    · rw [Formatter.constant, hconstants]
      rfl
    · rw [Formatter.expressionIn, hexpressions]
      rfl
  | _ => exact constant_of_isLiteral f (Bool.and_eq_true_iff.1 h).2

/-! ### Columns -/

theorem comparison_eq_append {symbol : String} (h : Formatter.comparisonSymbols.lookup op.key = some symbol)
    (column constant : String) :
    Formatter.comparison op.key symbol column value constant = column ++ comparisonText op value constant := by
  cases op <;> cases h <;> cases value <;> first | rfl | exact String.append_assoc

theorem fieldOperator_of_takes {column constant : String} (hc : f.expressionIn scope value = .ok constant)
    (condition : String → Except FormatError Condition) :
    f.fieldOperator scope column op.key value condition = .ok (.leaf (column ++ comparisonText op value constant)) := by
  cases ho : op.isMembership with
  | true =>
    have hkey : op.key = "$in" ∨ op.key = "$nin" := by
      revert ho
      cases op <;> decide
    unfold Formatter.fieldOperator
    rw [if_neg (by rcases hkey with h | h <;> rw [h] <;> decide), if_pos hkey, hc]
    have hassoc : ∀ p q r : String, column ++ p ++ q ++ constant ++ r = column ++ (p ++ q ++ constant ++ r) := by
      simp [String.append_assoc]
    show Except.ok (Condition.leaf (column ++ (if op.key = "$nin" then " NOT" else "") ++ " IN (" ++ constant ++ ")")) = _
    rw [hassoc]
    cases op with
    | isIn | notIn => rfl
    | _ => cases ho
  | false =>
    have horders : op ≠ .isIn ∧ op ≠ .notIn := by
      revert ho
      cases op <;> decide
    obtain ⟨hsymbol, hkey⟩ := symbol_of_orders horders
    obtain ⟨symbol, hsymbol⟩ := Option.isSome_iff_exists.1 hsymbol
    simp only [List.mem_cons, List.not_mem_nil, or_false, not_or] at hkey
    obtain ⟨hnot, hin, hnin, hregex, htext, -⟩ := hkey
    unfold Formatter.fieldOperator
    rw [if_neg hnot, if_neg (not_or.2 ⟨hin, hnin⟩), if_neg hregex, if_neg htext, hsymbol, hc]
    show Except.ok (Condition.leaf (Formatter.comparison op.key symbol column value constant)) = _
    rw [comparison_eq_append hsymbol]

theorem fieldCondition_comparison {column constant : String} (hc : f.expressionIn scope value = .ok constant) :
    f.fieldCondition scope column (.entry op.key value) =
      .ok (.chain .and [.leaf (column ++ comparisonText op value constant)]) := by
  have hoptions : op.key ≠ "$options" := by cases op <;> decide
  rw [Value.entry, Formatter.fieldCondition, Formatter.fieldOperators, if_neg hoptions, fieldOperator_of_takes hc]
  rfl

theorem filter_member {name constant : String} (hk : isOperatorKey name = false)
    (hc : f.expressionIn f.plainScope value = .ok constant) :
    f.filter (.entry name (.entry op.key value)) =
      .ok ("(" ++ f.style.name name ++ comparisonText op value constant ++ ")") := by
  have hfilter : f.filterIn f.plainScope (.entry name (.entry op.key value)) = _ :=
    (filterIn_entry hk (.entry op.key value)).trans (fieldCondition_comparison hc)
  rw [Formatter.filter, hfilter]
  have hassoc : ∀ column more : String, "(" ++ (column ++ more) ++ ")" = "(" ++ column ++ more ++ ")" := by
    simp [String.append_assoc]
  show Except.ok (Condition.text _) = _
  rw [Condition.text_group, Condition.text_chain, List.map_singleton, Condition.text_leaf, Text.joinWith, hassoc]

/-! ### Operators -/

/-- The comparison alone is no expression, except for the membership of two literals. -/
theorem exists_expressionIn_iff (f : Formatter) (scope : Scope) (hv : op.takes value = true) :
    (∃ sql, f.expressionIn scope (.entry op.key value) = .ok sql) ↔
      op.isMembership = true ∧ ∃ a b, value = .array [a, b] := by
  have hkey : isOperatorKey op.key = true := by cases op <;> decide
  rw [Value.entry, expressionIn_entry, if_pos hkey]
  cases ho : op.isMembership with
  | false =>
    have horders : op ≠ .isIn ∧ op ≠ .notIn := by
      revert ho
      cases op <;> decide
    obtain ⟨symbol, hsymbol⟩ := Option.isSome_iff_exists.1 (symbol_of_orders horders).1
    have harithmetic : Formatter.arithmeticSymbols.lookup op.key = none := by cases op <;> decide
    have hsingle : operands value = [value] := by
      cases value with
      | array => simp [ComparisonOp.takes, ho] at hv
      | _ => rfl
    obtain ⟨constant, -, hconstant⟩ := constant_of_takes f hv
    refine iff_of_false ?_ (fun h => by cases h.1)
    rintro ⟨sql, h⟩
    rw [hsingle, Formatter.expressionsIn, hconstant, Formatter.expressionsIn] at h
    simp [bind, Except.bind, pure, Except.pure, Formatter.operator, harithmetic, hsymbol] at h
  | true =>
    have hmember : op.key = "$in" ∨ op.key = "$nin" := by
      revert ho
      cases op <;> decide
    have hlookup : Formatter.arithmeticSymbols.lookup op.key = none ∧
        Formatter.comparisonSymbols.lookup op.key = none := by
      revert ho
      cases op <;> decide
    cases value with
    | array values =>
      obtain ⟨texts, -, hlength, htexts⟩ := constants_of_isLiteral f (Bool.and_eq_true_iff.1 hv).2
      rw [operands, htexts]
      simp only [bind, Except.bind, Formatter.operator, hlookup.1, hlookup.2, if_pos hmember]
      constructor
      · rintro ⟨sql, h⟩
        split at h
        · obtain ⟨a, b, rfl⟩ := List.length_eq_two.1 hlength.symm
          exact ⟨trivial, a, b, rfl⟩
        · cases h
      · rintro ⟨-, a, b, hab⟩
        cases hab
        obtain ⟨left, right, rfl⟩ := List.length_eq_two.1 hlength
        exact ⟨_, rfl⟩
    | _ => simp [ComparisonOp.takes, ho] at hv

/-- Methods that can be applied to one argument. -/
def appliesToOne (m : Method) : Bool := m.isUnary || m = .round || m = .concat

/-- The operators that a comparison can be the only argument of. -/
def takesComparison (key : String) : Bool :=
  key ∈ [LogicalOp.and.key, LogicalOp.or.key, LogicalOp.not.key, LogicalOp.nor.key] ||
    (Method.ofKey? key).any appliesToOne

theorem isSome_call?_single (f : Formatter) (m : Method) (arg : Value) (sql : String) :
    (f.call? m [arg] [sql]).isSome = appliesToOne m := by
  cases m <;> rfl

/-- What a text starts with is not changed by what follows. -/
theorem head?_between {p : String} (h : p.toList.head?.any (· ≠ '$') = true) (s q : String) :
    (p ++ s ++ q).toList.head? ≠ some '$' := by
  rw [String.append_assoc, String.toList_append, List.head?_append]
  cases hc : p.toList.head? with
  | none => simp [hc] at h
  | some c => simpa [hc] using h

/-- A call starts with the function's name or with a parenthesis. -/
theorem head?_call?_single {m : Method} {arg : Value} {sql text : String} (h : f.call? m [arg] [sql] = some text) :
    text.toList.head? ≠ some '$' := by
  cases hu : f.unaryCall? m sql with
  | some unary =>
    obtain rfl : unary = text := by simpa [Formatter.call?, hu] using h
    obtain ⟨p, q, hframes, rfl⟩ := exists_frames_of_unaryCall? hu
    exact head?_between hframes.head _ _
  | none =>
    have hone : appliesToOne m = true := by rw [← isSome_call?_single f m arg sql, h, Option.isSome_some]
    have hunary : m.isUnary = false := by rw [← isSome_unaryCall? f m sql, hu, Option.isSome_none]
    obtain rfl | rfl : m = .round ∨ m = .concat := by simpa [appliesToOne, hunary] using hone
    · cases h
      exact head?_between (by decide) _ _
    · obtain rfl : f.dialect.concat [sql] = text := Option.some.inj h
      unfold Dialect.concat
      cases f.dialect <;> exact head?_between (by decide) _ _

/-- An operator on one argument is a method. -/
theorem call?_of_operator {key sql text : String} {arg : Value} (h : f.operator key arg [arg] [sql] = .ok text) :
    ∃ m, Method.ofKey? key = some m ∧ f.call? m [arg] [sql] = some text := by
  unfold Formatter.operator at h
  split at h
  · cases h
  · cases h
  · split_ifs at h
    split at h
    · cases h
    · next m hm =>
      split at h
      · next hcall =>
        cases h
        exact ⟨m, hm, hcall⟩
      · cases h

theorem operator_of_call? {key sql text : String} {m : Method} {arg : Value} (hm : Method.ofKey? key = some m)
    (h : f.call? m [arg] [sql] = some text) : f.operator key arg [arg] [sql] = .ok text := by
  have hkeys : ∀ m ∈ Method.all, appliesToOne m = true → Formatter.arithmeticSymbols.lookup m.key = none ∧
      Formatter.comparisonSymbols.lookup m.key = none ∧ ¬ (m.key = "$in" ∨ m.key = "$nin") := by decide
  have hone : appliesToOne m = true := by rw [← isSome_call?_single f m arg sql, h, Option.isSome_some]
  have hkey : m.key = key := by simpa using List.find?_some hm
  obtain ⟨harithmetic, hcomparison, hin⟩ := hkeys m (List.mem_of_find?_eq_some hm) hone
  rw [hkey] at harithmetic hcomparison hin
  unfold Formatter.operator
  simp only [harithmetic, hcomparison, if_neg hin, hm, h]

theorem filterIn_operatorKey {name : String} (hk : isOperatorKey name = true) :
    f.filterIn scope (.entry name (.entry op.key value)) =
      (f.expressionIn scope (.entry op.key value)).bind fun sql =>
        if name = "$and" then .ok (.chain .and [.group (.leaf sql)])
        else if name = "$or" then .ok (.chain .or [.group (.leaf sql)])
        else if name = "$not" then .ok (.negation (.chain .and [.group (.leaf sql)]))
        else if name = "$nor" then .ok (.negation (.chain .or [.group (.leaf sql)]))
        else
          (f.operator name (.entry op.key value) [.entry op.key value] [sql]).bind fun text => .ok (.leaf text) := by
  have hkey : isOperatorKey op.key = true ∧ op.key ∉ ["$and", "$or", "$not", "$nor"] := by cases op <;> decide
  obtain ⟨hop, hne⟩ := hkey
  simp only [List.mem_cons, List.not_mem_nil, or_false, not_or] at hne
  obtain ⟨hand, hor, hnot, hnor⟩ := hne
  have hgroup : f.filterGroup scope name (.entry op.key value) =
      (f.expressionIn scope (.entry op.key value)).map fun sql => [.leaf sql] := by
    rw [Value.entry, Formatter.filterGroup, Formatter.filterEntries, Formatter.filterEntry, if_neg hand, if_neg hor,
      if_neg hnot, if_neg hnor, if_pos hop, Formatter.filterEntries]
    cases f.expressionIn scope (.object [(op.key, value)]) <;> rfl
  have hexpression : f.expressionIn scope (.object [(name, .entry op.key value)]) =
      (f.expressionIn scope (.entry op.key value)).bind fun sql =>
        f.operator name (.entry op.key value) [.entry op.key value] [sql] := by
    rw [expressionIn_entry, if_pos hk]
    show (f.expressionsIn scope [.entry op.key value]).bind _ = _
    rw [Formatter.expressionsIn, Formatter.expressionsIn]
    cases f.expressionIn scope (.entry op.key value) <;> rfl
  rw [Value.entry, Formatter.filterIn, Formatter.filterEntries, Formatter.filterEntries, Formatter.filterEntry,
    hgroup, hexpression]
  cases f.expressionIn scope (.entry op.key value) with
  | error cause => split_ifs <;> rfl
  | ok sql =>
    split_ifs with h₁ h₂ h₃ h₄
    iterate 4 rfl
    cases ho : f.operator name (.entry op.key value) [.entry op.key value] [sql] <;>
      simp only [Except.bind, ho] <;> rfl

theorem filter_operatorKey {name sql : String} (hk : isOperatorKey name = true)
    (h : f.filter (.entry name (.entry op.key value)) = .ok sql) :
    takesComparison name = true ∧ (∃ inner, f.expressionIn f.plainScope (.entry op.key value) = .ok inner) ∧
      ∃ text, sql = "(" ++ text ++ ")" ∧ text.toList.head? ≠ some '$' := by
  obtain ⟨c, hc, h⟩ := bind_eq_ok.1 h
  rw [filterIn_operatorKey hk] at hc
  obtain ⟨inner, hinner, hc⟩ := bind_eq_ok.1 hc
  cases h
  rw [Condition.text_group]
  have hresult : takesComparison name = true ∧ c.text.toList.head? ≠ some '$' := by
    have hchain : ∀ op, (Condition.chain op [.group (.leaf inner)]).text = "(" ++ inner ++ ")" := by
      intro op
      rw [Condition.text_chain, List.map_singleton, Condition.text_group, Condition.text_leaf]
      rfl
    split_ifs at hc with hand hor hnot hnor
    · cases hc
      rw [hchain, hand]
      exact ⟨by decide, head?_between (by decide) _ _⟩
    · cases hc
      rw [hchain, hor]
      exact ⟨by decide, head?_between (by decide) _ _⟩
    · cases hc
      rw [Condition.text_negation, hnot]
      exact ⟨by decide, head?_between (by decide) _ _⟩
    · cases hc
      rw [Condition.text_negation, hnor]
      exact ⟨by decide, head?_between (by decide) _ _⟩
    · obtain ⟨text, htext, hc⟩ := bind_eq_ok.1 hc
      cases hc
      obtain ⟨m, hm, hcall⟩ := call?_of_operator htext
      have hone : appliesToOne m = true := by
        rw [← isSome_call?_single f m (.entry op.key value) inner, hcall, Option.isSome_some]
      rw [Condition.text_leaf]
      exact ⟨by simp [takesComparison, hm, hone], head?_call?_single hcall⟩
  exact ⟨hresult.1, ⟨inner, hinner⟩, c.text, rfl, hresult.2⟩

theorem exists_filter_of_takesComparison {name inner : String} (hk : isOperatorKey name = true)
    (hc : takesComparison name = true) (hi : f.expressionIn f.plainScope (.entry op.key value) = .ok inner) :
    ∃ sql, f.filter (.entry name (.entry op.key value)) = .ok sql := by
  have hfilter : ∃ c, f.filterIn f.plainScope (.entry name (.entry op.key value)) = .ok c := by
    rw [filterIn_operatorKey hk, hi]
    simp only [Except.bind]
    split_ifs with hand hor hnot hnor
    iterate 4 exact ⟨_, rfl⟩
    obtain ⟨m, hm, hone⟩ : ∃ m, Method.ofKey? name = some m ∧ appliesToOne m = true := by
      have hlogical : name ∉ [LogicalOp.and.key, LogicalOp.or.key, LogicalOp.not.key, LogicalOp.nor.key] := by
        simpa [LogicalOp.key, LogicalOp.name] using ⟨hand, hor, hnot, hnor⟩
      simpa [takesComparison, hlogical, Option.any_eq_true] using hc
    obtain ⟨text, htext⟩ := Option.isSome_iff_exists.1
      ((isSome_call?_single f m (.entry op.key value) inner).trans hone)
    exact ⟨.leaf text, by rw [operator_of_call? hm htext]⟩
  obtain ⟨c, hc⟩ := hfilter
  exact ⟨(Condition.group c).text, by rw [Formatter.filter, hc]; rfl⟩

theorem head?_name {name : String} (hk : isOperatorKey name = true) (style : NameStyle) :
    (style.name name).toList.head? = some '$' := by
  obtain ⟨cs, hcs⟩ := List.head?_eq_some_iff.1 (of_decide_eq_true hk)
  have hword : Text.isWord '$' = false := by decide
  rw [NameStyle.name, String.toList_ofList, hcs, NameStyle.formatWords, if_neg (by simp [hword]), List.head?_cons]

end

end Sql

open Sql (Formatter takesComparison comparisonText)

/-- The comparison of a member with a literal, or with a list of them, is the condition on the column, unless the
member's name is an operator key. In that case there is SQL for the membership of a list of two under the operators that
can be applied to it, and it is another. -/
theorem member_condition (f : Formatter) (name : String) (op : ComparisonOp) (value : Value)
    (hv : op.takes value = true) :
    ∃ document constant, (Expr.comparison op (.member name) (some (.literal value))).render = .ok document ∧
      f.constant value = .ok constant ∧
      (isOperatorKey name = false →
        f.filter document = .ok ("(" ++ f.style.name name ++ comparisonText op value constant ++ ")")) ∧
      (isOperatorKey name = true →
        ((∃ sql, f.filter document = .ok sql) ↔
          takesComparison name = true ∧ op.isMembership = true ∧ ∃ a b, value = .array [a, b]) ∧
        f.filter document ≠ .ok ("(" ++ f.style.name name ++ comparisonText op value constant ++ ")")) := by
  obtain ⟨constant, hconstant, hexpression⟩ := Sql.constant_of_takes f hv
  refine ⟨.entry name (.entry op.key value), constant, rfl, hconstant, fun hk => ?_, fun hk => ⟨?_, fun h => ?_⟩⟩
  · exact Sql.filter_member hk (hexpression _)
  · rw [← Sql.exists_expressionIn_iff f f.plainScope hv]
    constructor
    · rintro ⟨sql, h⟩
      obtain ⟨htakes, hinner, -⟩ := Sql.filter_operatorKey hk h
      exact ⟨htakes, hinner⟩
    · rintro ⟨htakes, inner, hinner⟩
      exact Sql.exists_filter_of_takesComparison hk htakes hinner
  · -- the column would start with a dollar sign
    obtain ⟨-, -, text, heq, hhead⟩ := Sql.filter_operatorKey hk h
    obtain ⟨cs, hcs⟩ := List.head?_eq_some_iff.1 (Sql.head?_name hk f.style)
    have htext : text.toList = (f.style.name name).toList ++ (comparisonText op value constant).toList := by
      have hchars := congrArg String.toList heq
      rw [String.toList_append, String.toList_append, String.toList_append, String.toList_append,
        String.toList_append, List.append_cancel_right_eq, List.append_assoc, List.append_cancel_left_eq] at hchars
      exact hchars.symm
    exact hhead (by rw [htext, hcs]; rfl)

/-- The comparison with a list of a text and null. -/
theorem member_condition_list :
    ComparisonOp.isIn.takes (.array [.string "it's", .null]) = true ∧
      Formatter.filter {} (.entry "Person.name" (.entry "$in" (.array [.string "it's", .null]))) =
        .ok "(Person.name IN ('it\\'s', NULL))" := by
  obtain ⟨document, constant, hrender, hconstant, hfilter, -⟩ :=
    member_condition {} "Person.name" .isIn (.array [.string "it's", .null]) rfl
  have htext : Formatter.constant {} (.array [.string "it's", .null]) = .ok "'it\\'s', NULL" := by cbv
  cases hrender
  cases htext.symm.trans hconstant
  exact ⟨rfl, (hfilter (by decide)).trans (by cbv)⟩

/-- A member that is called as a method is applied to a comparison of the two values with each other. -/
theorem member_taken_for_operator :
    Filter.parse "$length in (1, 2)" =
        .ok (.comparison .isIn (.member "$length") (some (.literal (.array [.int 1, .int 2])))) ∧
      ∃ document, (Expr.comparison .isIn (.member "$length") (some (.literal (.array [.int 1, .int 2])))).render =
        .ok document ∧ Formatter.filter {} document = .ok "(LENGTH(1 IN (2)))" := by
  have hprintable : Filter.Printable
      (.comparison .isIn (.member "$length") (some (.literal (.array [.int 1, .int 2])))) :=
    .membership (.member (by decide) (by decide)) (by decide)
  have htext : Filter.printText .minimal
      (.comparison .isIn (.member "$length") (some (.literal (.array [.int 1, .int 2])))) = "$length in (1, 2)" := by
    decide +kernel
  refine ⟨?_, .entry "$length" (.entry "$in" (.array [.int 1, .int 2])), rfl, by cbv⟩
  rw [← htext]
  exact Filter.parse_printText .minimal hprintable (by decide)

end SqlQuery
