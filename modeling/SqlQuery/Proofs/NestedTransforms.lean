import Mathlib
import SqlQuery.Proofs.ClosedRanges
import SqlQuery.Proofs.MemberCondition
import SqlQuery.Proofs.ScopeReferences

/-!
# Methods below a name and methods behind a label

Methods of one argument that are applied to a field can be written in two ways: below the field's name, in the document
of the condition, or as a computed field that the condition refers to by a label. The first is unwound from the outside
while the condition is compiled (`fieldCondition_nested`), the second from the inside when the label is looked up
(`expressionIn_calls`). Both arrive at the same column, and the statements are the same (`format_nested_eq_hoisted`).
-/

namespace SqlQuery

open Sql (Formatter Condition Scope operands)
open Predicate (key_not_mem ofKey?_key transform?_key)

namespace Sql

variable {f : Formatter} {scope : Scope} {m : Method} {methods : List Method}

/-! ### Methods below a name -/

theorem fieldOperator_method (hm : m.isUnary = true) (column : String) (arg : Value)
    (condition : String → Except FormatError Condition) :
    f.fieldOperator scope column m.key arg condition = condition ((f.unaryCall? m column).getD column) := by
  have hsymbol : Formatter.comparisonSymbols.lookup m.key = none := by cases m <;> decide
  have hkey := key_not_mem m
  simp only [List.mem_cons, not_or] at hkey
  obtain ⟨-, hnot, hin, hnin, hregex, htext, -⟩ := hkey
  unfold Formatter.fieldOperator
  rw [if_neg hnot, if_neg (not_or.2 ⟨hin, hnin⟩), if_neg hregex, if_neg htext, hsymbol, bind_unaryCall?,
    transform?_key hm]
  rfl

/-- A condition below methods has the pieces of the condition on what the methods make of the column. -/
theorem fieldCondition_nested (hm : ∀ m ∈ methods, m.isUnary = true) (column : String) (condition : Value) :
    (f.fieldCondition scope column (methods.foldr (fun m inner => .entry m.key inner) condition)).map Condition.pieces =
      (f.fieldCondition scope (f.applied methods column) condition).map Condition.pieces := by
  induction methods generalizing column with
  | nil => rfl
  | cons m methods ih =>
    obtain ⟨hfirst, hrest⟩ := List.forall_mem_cons.1 hm
    have hoptions : m.key ≠ "$options" := fun h => key_not_mem m (h ▸ List.mem_cons_self)
    have hinner := ih hrest ((f.unaryCall? m column).getD column)
    rw [List.foldr_cons, Value.entry, Formatter.fieldCondition, Formatter.fieldOperators, if_neg hoptions,
      fieldOperator_method hfirst, Formatter.fieldOperators]
    refine Eq.trans ?_ hinner
    cases f.fieldCondition scope ((f.unaryCall? m column).getD column)
      (methods.foldr (fun m inner => .entry m.key inner) condition) <;> rfl

/-! ### Methods behind a label -/

theorem operator_method (hm : m.isUnary = true) (arg : Value) (sql : String) :
    f.operator m.key arg [arg] [sql] = .ok ((f.unaryCall? m sql).getD sql) := by
  obtain ⟨text, htext⟩ := Option.isSome_iff_exists.1 ((isSome_unaryCall? f m sql).trans hm)
  have hcall : f.call? m [arg] [sql] = some text := by
    unfold Formatter.call?
    simp only [htext]
  rw [operator_of_call? (ofKey?_key m) hcall, htext]
  rfl

theorem expressionIn_call (hm : m.isUnary = true) {v : Value} (hv : operands v = [v]) :
    f.expressionIn scope (.entry m.key v) =
      (f.expressionIn scope v).map fun sql => (f.unaryCall? m sql).getD sql := by
  have hkey : isOperatorKey m.key = true := by cases m <;> decide
  rw [Value.entry, expressionIn_entry, if_pos hkey, hv, Formatter.expressionsIn, Formatter.expressionsIn]
  cases f.expressionIn scope v with
  | error e => rfl
  | ok sql => exact operator_method hm v sql

/-- Calls around a value compile to what the methods make of its SQL. -/
theorem expressionIn_calls (hm : ∀ m ∈ methods, m.isUnary = true) {v : Value} (hv : operands v = [v]) :
    f.expressionIn scope (methods.foldl (fun v m => .entry m.key v) v) =
      (f.expressionIn scope v).map (f.applied methods) := by
  induction methods generalizing v with
  | nil =>
    rw [List.foldl_nil]
    cases f.expressionIn scope v <;> rfl
  | cons m methods ih =>
    obtain ⟨hfirst, hrest⟩ := List.forall_mem_cons.1 hm
    have hcall : operands (.entry m.key v) = [.entry m.key v] := rfl
    rw [List.foldl_cons, ih hrest hcall, expressionIn_call hfirst hv]
    cases f.expressionIn scope v <;> rfl

/-! ### Pieces of conditions -/

theorem format_congr {v w : Value} {computed computed' : Document}
    (h : (f.filterIn (f.scopeOf computed) v).map Condition.pieces =
      (f.filterIn (f.scopeOf computed') w).map Condition.pieces) (target : Collection) :
    f.format (selectedWith target v computed) = f.format (selectedWith target w computed') := by
  have htext : ∀ condition : Except FormatError Condition,
      (condition.map fun c => "SELECT * FROM " ++ f.source target.name target.label ++ (" WHERE (" ++ c.text ++ ")") ++
        f.dialect.paging none none) =
      (condition.map Condition.pieces).map fun ps => "SELECT * FROM " ++ f.source target.name target.label ++
        (" WHERE (" ++ Piece.texts ps ++ ")") ++ f.dialect.paging none none := by
    rintro (e | c) <;> rfl
  rw [format_selectedWith, format_selectedWith, htext, htext, h]

theorem pieces_filterIn_pair (v w : Value) :
    (f.filterIn scope (.entry LogicalOp.and.key (.array [v, w]))).map Condition.pieces = (do
      let ps ← (f.filterIn scope v).map Condition.pieces
      let qs ← (f.filterIn scope w).map Condition.pieces
      return .parenOpen :: (ps ++ [.parenClose]) ++ .join .and :: .parenOpen :: (qs ++ [.parenClose])) := by
  rw [Value.entry, Formatter.filterIn, Formatter.filterEntries, Formatter.filterEntry, if_pos (by decide),
    Formatter.filterGroup, Formatter.filterItems, Formatter.filterItems, Formatter.filterItems]
  · cases f.filterIn scope v with
    | error e => rfl
    | ok c => cases f.filterIn scope w <;> rfl
  · simp

end Sql

/-! ### Comparisons of one column -/

/-- The value that a comparison is made with. -/
def Comparison.argument : Comparison → Value
  | .equal value | .notEqual value | .greaterThan value | .greaterOrEqual value | .lowerThan value
  | .lowerOrEqual value | .isIn value | .notIn value | .contains value | .notContains value => value
  | .startsWith text | .endsWith text => .string text

/-- The values that a step compares with. -/
def Step.arguments : Step → List Value
  | .compare c => [c.argument]
  | .between low high => [low, high]
  | _ => []

theorem Comparison.references_condition {c : Comparison} {condition : Value} (h : c.condition = .ok condition) :
    condition.references = c.argument.references := by
  cases c with
  | equal value =>
    obtain rfl := Except.ok.inj h
    split
    · rfl
    · exact Value.references_entry ..
  | isIn values | notIn values =>
    cases values with
    | array items =>
      obtain rfl := Except.ok.inj h
      exact Value.references_entry ..
    | _ => cases h
  | startsWith text | endsWith text =>
    obtain rfl := Except.ok.inj h
    rfl
  | contains value =>
    obtain rfl := Except.ok.inj h
    simp [search, Comparison.argument]
  | notContains value =>
    obtain rfl := Except.ok.inj h
    simp [search, Comparison.argument]
  | _ =>
    obtain rfl := Except.ok.inj h
    exact Value.references_entry ..

/-- All of a collection, with the left side of a first comparison. -/
def Builder.comparing (target : Collection) (x : Operand) : Builder where
  query := { collection := some target, statement := some (.select []) }
  left := some x

theorem IsMinted.isOperatorKey_eq_false {label : String} (h : IsMinted label) : isOperatorKey label = false := by
  obtain ⟨m, n, rfl⟩ := h
  have hname : m.name.toList.head?.any (· ≠ '$') = true := by cases m <;> decide
  have hhead := Sql.head?_between hname (Decimal.natText n) ""
  rw [String.append_empty] at hhead
  exact decide_eq_false hhead

namespace Operand

/-- The computed fields after a first condition on the operand. -/
def filed (x : Operand) : Document := Field.fileAll x.keyed []

/-- Constant conditions on the operand are conditions on a column, and all go under one label. -/
structure CompilesTo (f : Formatter) (x : Operand) (column : String) : Prop where
  label : x.label x.filed = x.label []
  filed : Field.fileAll x.keyed x.filed = x.filed
  condition : ∀ condition : Value, condition.references = [] →
    (f.filterIn (f.scopeOf x.filed) (x.under (x.label []) condition)).map Condition.pieces =
      (f.fieldCondition f.plainScope column condition).map Condition.pieces

variable {f : Formatter} {x : Operand} {column : String}

theorem step_compare (target : Collection) {c : Comparison} {condition : Value} (hc : c.condition = .ok condition) :
    (Builder.comparing target x).step (.compare c) =
      .ok { query := selectedWith target (x.under (x.label []) condition) x.filed } := by
  refine ((Builder.Takes.compare hc rfl).step).trans ?_
  rw [Builder.complete, Operand.condition_eq]
  rfl

theorem step_between (h : x.CompilesTo f column) (target : Collection) (low high : Value) :
    (Builder.comparing target x).step (.between low high) = .ok ⟨selectedWith target (.entry LogicalOp.and.key (.array
      [x.under (x.label []) (.entry ComparisonOp.gte.key low),
        x.under (x.label []) (.entry ComparisonOp.lte.key high)])) x.filed, none, none, none⟩ := by
  have hlower : (Builder.comparing target x).complete x (.entry ComparisonOp.gte.key low) =
      { query := selectedWith target (x.under (x.label []) (.entry ComparisonOp.gte.key low)) x.filed } := by
    rw [Builder.complete, Operand.condition_eq]
    rfl
  have hnested : ∀ items, x.methods.foldr (fun m inner => Value.entry m.key inner)
      (.entry ComparisonOp.gte.key low) ≠ .array items := by
    cases x.methods <;> simp [Value.entry]
  refine ((Builder.Takes.between low high rfl).step).trans ?_
  dsimp only
  rw [hlower, Builder.complete, Operand.condition_eq]
  show Except.ok (Builder.mk (selectedWith target (mergeFilter (some (x.under (x.label []) _)) .and
    (x.under (x.label x.filed) _)) (Field.fileAll x.keyed x.filed)) none none none) = _
  rw [h.label, h.filed, under, under, mergeFilter_of_ne_array hnested]

/-- Operands that compile to one column give the same statements. -/
theorem CompilesTo.format_step {y : Operand} (hx : x.CompilesTo f column) (hy : y.CompilesTo f column)
    (target : Collection) {s : Step} (hs : s.isComparator = true) (hconstant : ∀ v ∈ s.arguments, v.references = []) :
    ((Builder.comparing target x).step s).map (fun b => f.format b.query) =
      ((Builder.comparing target y).step s).map fun b => f.format b.query := by
  cases s with
  | compare c =>
    cases hc : c.condition with
    | error e =>
      rw [Builder.step, Builder.step, Builder.compare, Builder.compare, hc]
      rfl
    | ok condition =>
      have hreferences : condition.references = [] := by
        rw [Comparison.references_condition hc]
        exact hconstant _ (List.mem_singleton_self _)
      rw [step_compare target hc, step_compare target hc]
      refine congrArg Except.ok (Sql.format_congr ?_ target)
      rw [hx.condition condition hreferences, hy.condition condition hreferences]
  | between low high =>
    have hlow : (Value.entry ComparisonOp.gte.key low).references = [] := by
      rw [Value.references_entry]
      exact hconstant low List.mem_cons_self
    have hhigh : (Value.entry ComparisonOp.lte.key high).references = [] := by
      rw [Value.references_entry]
      exact hconstant high (List.mem_cons_of_mem _ List.mem_cons_self)
    rw [step_between hx, step_between hy]
    refine congrArg Except.ok (Sql.format_congr ?_ target)
    rw [Sql.pieces_filterIn_pair, Sql.pieces_filterIn_pair, hx.condition _ hlow, hx.condition _ hhigh,
      hy.condition _ hlow, hy.condition _ hhigh]
  | _ => cases hs

/-! ### The two ways -/

variable {name : String} {methods : List Method}

theorem compilesTo_bare (hn : isOperatorKey name = false) (hm : ∀ m ∈ methods, m.isUnary = true) :
    (Operand.bare name methods).CompilesTo f (f.applied methods (f.style.name name)) where
  label := rfl
  filed := rfl
  condition := by
    intro condition _
    show (f.filterIn (f.scopeOf []) (.entry name _)).map _ = _
    rw [Sql.filterIn_entry hn]
    exact Sql.fieldCondition_nested hm (f.style.name name) condition

theorem value_toField (name : String) (methods : List Method) :
    (Operand.bare name methods).toField.value = methods.foldl (fun v m => .entry m.key v) (.ref name) := by
  have hfold : ∀ field : Field, (methods.foldl (fun f m => f.apply ⟨m, []⟩) field).value =
      methods.foldl (fun v m => .entry m.key v) field.value := by
    induction methods with
    | nil => exact fun field => rfl
    | cons m methods ih => exact fun field => ih (field.apply ⟨m, []⟩)
  exact hfold (Field.ofName name)

/-- A field with methods applied is a call of the last of them. -/
theorem exists_toField_eq (name : String) (hne : methods ≠ []) :
    ∃ (m : Method) (args : List Value), (Operand.bare name methods).toField = ⟨.computed m args, none⟩ := by
  have hlabel : ∀ (methods : List Method) (field : Field),
      (methods.foldl (fun f m => f.apply ⟨m, []⟩) field).label = field.label := by
    intro methods
    induction methods with
    | nil => exact fun field => rfl
    | cons m methods ih => exact fun field => ih (field.apply ⟨m, []⟩)
  obtain ⟨first, last, rfl⟩ := List.eq_nil_or_concat methods |>.resolve_left hne
  refine ⟨last, [(first.foldl (fun f m => f.apply ⟨m, []⟩) (Field.ofName name)).term.value], ?_⟩
  rw [toField, List.concat_eq_append, List.foldl_append]
  show Field.mk (.computed last [_]) (first.foldl (fun f m => f.apply ⟨m, []⟩) (Field.ofName name)).label = _
  rw [hlabel]
  rfl

theorem same_calls (name : String) (methods : List Method) :
    (methods.foldl (fun v m => Value.entry m.key v) (.ref name)).same
      (methods.foldl (fun v m => Value.entry m.key v) (.ref name)) = true := by
  have hfold : ∀ v : Value, v.same v = true → (methods.foldl (fun v m => Value.entry m.key v) v).same
      (methods.foldl (fun v m => Value.entry m.key v) v) = true := by
    induction methods with
    | nil => exact fun v h => h
    | cons m methods ih => exact fun v h => ih (.entry m.key v) (Value.same_entry.trans h)
  exact hfold (.ref name) (by simp [Value.same])

/-- A first label is made up once and found again. -/
theorem hoist_twice {m : Method} {args : List Value}
    (h : (Term.computed m args).value.same (Term.computed m args).value = true) :
    hoist m args (hoist m args []).2 = hoist m args [] := by
  have hfound : labelOf? (Term.computed m args).value (hoist m args []).2 = some (hoist m args []).1 := by
    have hfind : (hoist m args []).2.find? (fun e => e.2.same (Term.computed m args).value) =
        some ((hoist m args []).1, (Term.computed m args).value) := List.find?_cons_of_pos h
    rw [labelOf?, hfind]
    rfl
  rw [hoist, hfound]

theorem compilesTo_calls (hne : methods ≠ []) (hm : ∀ m ∈ methods, m.isUnary = true) :
    (Operand.field (Operand.bare name methods).toField).CompilesTo f (f.applied methods (f.style.name name)) := by
  obtain ⟨m, args, htoField⟩ := exists_toField_eq name hne
  have hvalue : (Term.computed m args).value = methods.foldl (fun v m => .entry m.key v) (.ref name) := by
    rw [← value_toField name methods, htoField]
    rfl
  have htwice : hoist m args (hoist m args []).2 = hoist m args [] := by
    refine hoist_twice ?_
    rw [hvalue]
    exact same_calls name methods
  have hlabel : isOperatorKey (hoist m args []).1 = false := IsMinted.isOperatorKey_eq_false ⟨m, 1, rfl⟩
  rw [htoField]
  constructor
  · exact congrArg Prod.fst htwice
  · exact congrArg Prod.snd htwice
  · intro condition hreferences
    have hcolumn : f.scopeOf (hoist m args []).2 (hoist m args []).1 = .ok (f.applied methods (f.style.name name)) := by
      have hget : Entries.get? (hoist m args []).1 (hoist m args []).2 = some (Term.computed m args).value :=
        Entries.get?_insert_self
      rw [Formatter.scopeOf, hget, hvalue]
      exact Sql.expressionIn_calls hm rfl
    show (f.filterIn (f.scopeOf (hoist m args []).2) (.entry (hoist m args []).1 condition)).map _ = _
    rw [Sql.filterIn_field hlabel, hcolumn]
    refine congrArg (Except.map Condition.pieces) (Sql.fieldCondition_congr ?_ _)
    rw [hreferences]
    exact List.forall_mem_nil _

end Operand

/-! ### Runs -/

theorem Operand.foldl_apply_bare (name : String) (methods before : List Method) :
    (methods.map fun m => Transform.mk m []).foldl Operand.apply (.bare name before) = .bare name (before ++ methods) := by
  induction methods generalizing before with
  | nil =>
    rw [List.append_nil]
    rfl
  | cons m methods ih =>
    rw [List.map_cons, List.foldl_cons]
    refine (ih (before ++ [m])).trans ?_
    rw [List.append_assoc, List.singleton_append]

/-- What becomes of the query that steps build is decided by the last of them. -/
theorem Query.map_build_concat {α : Type} {first : List Step} {b : Builder} (h : Builder.run {} first = .ok b) (s : Step)
    (g : Query → α) : (Query.build (first ++ [s])).map g = (b.step s).map fun after => g after.query := by
  rw [Query.build, Builder.run_append h, Builder.run]
  cases b.step s <;> rfl

/-- Methods of one argument give the same statement, or the same fault, whether they are applied to the left side of a
comparison or to the field that it is given: below the name in the one case and behind a label in the other. -/
theorem format_nested_eq_hoisted (f : Formatter) (target : Collection) {name : String}
    (hblank : Text.isBlankText name = false) (hn : isOperatorKey name = false) {methods : List Method}
    (hne : methods ≠ []) (hm : ∀ m ∈ methods, m.isUnary = true) {s : Step} (hs : s.isComparator = true)
    (hconstant : ∀ v ∈ s.arguments, v.references = []) :
    (Query.build ([.fromCollection target, .selectAll, .whereField (.name name)] ++
      methods.map (fun m => .transform ⟨m, []⟩) ++ [s])).map f.format =
    (Query.build [.fromCollection target, .selectAll,
      .whereField (.field (methods.foldl (fun field m => field.apply ⟨m, []⟩) (Field.ofName name))), s]).map f.format := by
  have hnested : Builder.run {} ([.fromCollection target, .selectAll, .whereField (.name name)] ++
      methods.map fun m => .transform ⟨m, []⟩) = .ok (.comparing target (.bare name methods)) := by
    have hnamed : Builder.run {} [.fromCollection target, .selectAll, .whereField (.name name)] =
        .ok (.comparing target (.bare name [])) := by
      rw [run_cons _ rfl, run_cons _ rfl, run_cons _ (Builder.Takes.whereField (Source.field?_name hblank)).step]
      rfl
    have htransformed := Builder.run_transforms (b := .comparing target (.bare name [])) rfl
      (methods.map fun m => Transform.mk m [])
    rw [Operand.foldl_apply_bare, List.nil_append, List.map_map] at htransformed
    rw [Builder.run_append hnamed]
    exact htransformed
  have hhoisted : Builder.run {} [.fromCollection target, .selectAll,
      .whereField (.field (methods.foldl (fun field m => field.apply ⟨m, []⟩) (Field.ofName name)))] =
      .ok (.comparing target (.field (Operand.bare name methods).toField)) := by
    obtain ⟨m, args, htoField⟩ := Operand.exists_toField_eq name hne
    rw [Operand.toField] at htoField ⊢
    rw [htoField]
    rfl
  rw [Query.map_build_concat hnested]
  refine Eq.trans ?_ (Query.map_build_concat hhoisted s f.format).symm
  exact (Operand.compilesTo_bare hn hm).format_step (Operand.compilesTo_calls hne hm) target hs hconstant

-- the builder's own methods without arguments are among them
example : ∀ entry ∈ Transform.unaryNames, entry.2.isUnary = true := by decide

/-- A range of a text in small letters. -/
theorem format_nested_eq_hoisted_range :
    (Query.build [.fromCollection ⟨"people", none⟩, .selectAll, .whereField (.name "name"), .transform ⟨.trim, []⟩,
      .transform ⟨.toLower, []⟩, .between (.string "a") (.string "f")]).map (Formatter.mk .postgres {}).format =
    (Query.build [.fromCollection ⟨"people", none⟩, .selectAll,
      .whereField (.field ⟨.computed .toLower [.entry "$trim" (.ref "name")], none⟩),
      .between (.string "a") (.string "f")]).map (Formatter.mk .postgres {}).format ∧
    (Query.build [.fromCollection ⟨"people", none⟩, .selectAll, .whereField (.name "name"), .transform ⟨.trim, []⟩,
      .transform ⟨.toLower, []⟩, .between (.string "a") (.string "f")]).toOption.bind
        (fun q => ((Formatter.mk .postgres {}).format q).toOption) =
      some "SELECT * FROM people WHERE ((LOWER(TRIM(name))>='a') AND (LOWER(TRIM(name))<='f'))" := by
  refine ⟨?_, by decide +kernel⟩
  exact @format_nested_eq_hoisted (Formatter.mk .postgres {}) ⟨"people", none⟩ "name" (by decide) (by decide)
    [.trim, .toLower] (by simp) (by decide) _ rfl (by simp [Step.arguments, Value.references])

end SqlQuery
