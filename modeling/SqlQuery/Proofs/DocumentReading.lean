import SqlQuery.Proofs.CompiledFilters

/-!
# The tree of a document

`Value.tree` reads a document back into the tree that it was rendered from. Operators share one shape, so that it goes
by the key: a comparison of a member has the member's path for a key, and the keys of arithmetic, comparisons, logical
operators and methods are all different. An argument that stands alone is told from a list of them, for no operand of
the grammar is rendered to a list. What is lost is the difference between a member whose path looks like an operator
and that operator, so that such members are left out (`tree_of_render`).
-/

namespace SqlQuery

open SqlQuery.Filter (Grammatical isLiteral)

theorem isOperatorKey_dollar (name : String) : isOperatorKey ("$" ++ name) = true := by
  simp [isOperatorKey]

theorem ArithmeticOp.isOperatorKey_key (op : ArithmeticOp) : isOperatorKey op.key = true := isOperatorKey_dollar op.name

theorem ComparisonOp.isOperatorKey_key (op : ComparisonOp) : isOperatorKey op.key = true := isOperatorKey_dollar op.name

theorem LogicalOp.isOperatorKey_key (op : LogicalOp) : isOperatorKey op.key = true := isOperatorKey_dollar op.name

namespace Expr

mutual

/-- The members that occur in a tree, from left to right. -/
def members : Expr → List String
  | .member path => [path]
  | .literal _ => []
  | .arithmetic _ left right => left.members ++ right.members
  | .comparison _ left none => left.members
  | .comparison _ left (some right) => left.members ++ right.members
  | .logical _ args => membersOf args
  | .call _ args => membersOf args
  | .sequence items => membersOf items
  | .object entries => membersUnder entries

def membersOf : List Expr → List String
  | [] => []
  | e :: es => e.members ++ membersOf es

def membersUnder : List (String × Expr) → List String
  | [] => []
  | (_, e) :: es => e.members ++ membersUnder es

end

theorem mem_membersOf {name : String} {es : List Expr} : name ∈ membersOf es ↔ ∃ e ∈ es, name ∈ e.members := by
  induction es with
  | nil => simp [membersOf]
  | cons e es ih => simp [membersOf, ih]

/-- The tree of an operator key with its operands. -/
def ofOperator (key : String) (args : List Expr) : Expr :=
  match ArithmeticOp.ofName? key, ComparisonOp.ofName? key, LogicalOp.ofName? key, args with
  | some op, _, _, [left, right] => .arithmetic op left right
  | _, some op, _, [left, right] => .comparison op left (some right)
  | _, _, some op, args => .logical op args
  | _, _, _, args => .call (unmarkedName key) args

theorem ofOperator_arithmetic (op : ArithmeticOp) (left right : Expr) :
    ofOperator op.key [left, right] = .arithmetic op left right := by
  have hkey : ArithmeticOp.ofName? op.key = some op := by cases op <;> decide
  unfold ofOperator
  rw [hkey]

theorem ofOperator_comparison (op : ComparisonOp) (left right : Expr) :
    ofOperator op.key [left, right] = .comparison op left (some right) := by
  have hkey : ArithmeticOp.ofName? op.key = none ∧ ComparisonOp.ofName? op.key = some op := by cases op <;> decide
  unfold ofOperator
  rw [hkey.1, hkey.2]

theorem ofOperator_logical (op : LogicalOp) (args : List Expr) : ofOperator op.key args = .logical op args := by
  have hkey : ArithmeticOp.ofName? op.key = none ∧ ComparisonOp.ofName? op.key = none ∧
      LogicalOp.ofName? op.key = some op := by cases op <;> decide
  unfold ofOperator
  rw [hkey.1, hkey.2.1, hkey.2.2]

theorem ofOperator_call {c : Filter.Callable} (hc : c ∈ Filter.vocabulary) (args : List Expr) :
    ofOperator ("$" ++ c.name) args = .call c.name args := by
  have hkeys : ∀ c ∈ Filter.vocabulary, ArithmeticOp.ofName? ("$" ++ c.name) = none ∧
      ComparisonOp.ofName? ("$" ++ c.name) = none ∧ LogicalOp.ofName? ("$" ++ c.name) = none ∧
      unmarkedName ("$" ++ c.name) = c.name := by decide
  obtain ⟨harithmetic, hcomparison, hlogical, hname⟩ := hkeys c hc
  unfold ofOperator
  rw [harithmetic, hcomparison, hlogical, hname]

end Expr

namespace Value

mutual

/-- The tree of a document. -/
def tree : Value → Expr
  | .ref path => .member path
  | .object [(key, arg)] => if isOperatorKey key then .ofOperator key (argumentTrees arg) else comparisonTree key arg
  | value => .literal value

/-- The trees of an operator's arguments: a value that is no list stands alone. -/
def argumentTrees : Value → List Expr
  | .array items => trees items
  | value => [value.tree]

def trees : List Value → List Expr
  | [] => []
  | value :: values => value.tree :: trees values

/-- The tree under a key that is a path. -/
def comparisonTree (path : String) : Value → Expr
  | .object [(key, right)] =>
    match ComparisonOp.ofName? key with
    | some op => .comparison op (.member path) (some right.tree)
    | none => .member path
  | _ => .member path

end

theorem argumentTrees_eq (value : Value) : argumentTrees value = trees (Sql.operands value) := by
  cases value <;> simp only [argumentTrees, Sql.operands, trees]

theorem tree_entry {key : String} (hk : isOperatorKey key = true) (arg : Value) :
    (entry key arg).tree = .ofOperator key (trees (Sql.operands arg)) := by
  rw [entry, tree, if_pos hk, argumentTrees_eq]

theorem tree_comparison {path : String} (hk : isOperatorKey path = false) (op : ComparisonOp) (right : Value) :
    (entry path (entry op.key right)).tree = .comparison op (.member path) (some right.tree) := by
  have hop : ComparisonOp.ofName? op.key = some op := by cases op <;> decide
  rw [entry, entry, tree, if_neg (by simp [hk]), comparisonTree, hop]

theorem tree_of_isLiteral {value : Value} (h : isLiteral value = true) : value.tree = .literal value := by
  cases value with
  | array | object | ref => cases h
  | _ => rw [tree.eq_def]

end Value

open Value (tree trees)

section

variable {e : Expr} {v : Value}

theorem trees_of_renderAll {es : List Expr} {vs : List Value} (h : Expr.renderAll es = .ok vs)
    (hes : ∀ e ∈ es, ∀ v, e.render = .ok v → v.tree = e) : trees vs = es := by
  have hall := Sql.forall₂_renderAll h
  clear h
  induction hall with
  | nil => rw [trees]
  | cons hv _ ih =>
    obtain ⟨he, hes⟩ := List.forall_mem_cons.1 hes
    rw [trees, he _ hv, ih hes]

/-- A comparison, given the tree of its right side. -/
theorem tree_of_renderComparison {op : ComparisonOp} {left right : Expr} {value : Value}
    (hm : ∀ name ∈ left.members, isOperatorKey name = false) (hl : ∀ v, left.render = .ok v → v.tree = left)
    (hr : value.tree = right) (h : Expr.renderComparison op left left.render value = .ok v) :
    v.tree = .comparison op left (some right) := by
  obtain ⟨path, rfl, rfl⟩ | ⟨-, l, hleft, rfl⟩ := Sql.renderComparison_eq_ok h
  · rw [Value.tree_comparison (hm path (by simp [Expr.members])), hr]
  · rw [Value.tree_entry op.isOperatorKey_key, Sql.operands, trees, trees, trees, hl l hleft, hr,
      Expr.ofOperator_comparison]

/-- A logical operator, given the trees of its operands. -/
theorem tree_of_logical {op : LogicalOp} {args : List Expr} (ha : ∀ e ∈ args, ∀ v, e.render = .ok v → v.tree = e)
    (h : (Expr.logical op args).render = .ok v) : v.tree = .logical op args := by
  rw [Expr.render] at h
  split at h
  · cases h
  · obtain ⟨values, hvalues, h⟩ := bind_eq_ok.1 h
    cases h
    rw [Value.tree_entry op.isOperatorKey_key, Sql.operands, trees_of_renderAll hvalues ha, Expr.ofOperator_logical]

theorem forall_members_of_mem {es : List Expr} {p : String → Prop} (h : ∀ name ∈ Expr.membersOf es, p name)
    (he : e ∈ es) : ∀ name ∈ e.members, p name :=
  fun name hname => h name (Expr.mem_membersOf.2 ⟨e, he, hname⟩)

/-- A document without members that look like operators is read back into its tree. -/
theorem tree_of_render (he : Grammatical e) (hm : ∀ name ∈ e.members, isOperatorKey name = false)
    (h : e.render = .ok v) : v.tree = e := by
  induction he generalizing v with
  | member =>
    cases h
    rw [tree]
  | literal hv =>
    cases h
    exact Value.tree_of_isLiteral hv
  | @arithmetic op left right _ _ _ ihl ihr =>
    rw [Expr.members] at hm
    obtain ⟨hml, hmr⟩ := List.forall_mem_append.1 hm
    rw [Expr.render] at h
    obtain ⟨l, hl, h⟩ := bind_eq_ok.1 h
    obtain ⟨r, hr, h⟩ := bind_eq_ok.1 h
    cases h
    rw [Value.tree_entry op.isOperatorKey_key, Sql.operands, trees, trees, trees, ihl hml hl, ihr hmr hr,
      Expr.ofOperator_arithmetic]
  | comparison _ _ _ ihl ihr =>
    rw [Expr.members] at hm
    obtain ⟨hml, hmr⟩ := List.forall_mem_append.1 hm
    rw [Expr.render] at h
    obtain ⟨r, hr, h⟩ := bind_eq_ok.1 h
    exact tree_of_renderComparison hml (fun l => ihl hml) (ihr hmr hr) h
  | @membership left values _ _ ihl =>
    rw [Expr.members] at hm
    obtain ⟨hml, -⟩ := List.forall_mem_append.1 hm
    rw [Expr.render] at h
    obtain ⟨r, hr, h⟩ := bind_eq_ok.1 h
    cases hr
    -- a list of constants is no operand: it stands on the right of `in` only
    exact tree_of_renderComparison hml (fun l => ihl hml) (by rw [tree.eq_def]) h
  | chain _ _ _ ih =>
    rw [Expr.members] at hm
    exact tree_of_logical (fun e he v hv => ih e he (forall_members_of_mem hm he) hv) h
  | negation _ ih =>
    rw [Expr.members] at hm
    refine tree_of_logical (fun e he v hv => ?_) h
    have hme := forall_members_of_mem hm he
    obtain rfl := List.mem_singleton.1 he
    exact ih hme hv
  | @call c args hc _ ha ih =>
    rw [Expr.members] at hm
    rw [Expr.render] at h
    obtain ⟨values, hvalues, h⟩ := bind_eq_ok.1 h
    have hsingle : ∀ v ∈ values, Sql.operands v = [v] :=
      Sql.forall_mem_of_forall₂ (Sql.forall₂_renderAll hvalues) fun e he v hv => Sql.operands_of_render (ha e he) hv
    have htrees : trees values = args :=
      trees_of_renderAll hvalues fun e he v hv => ih e he (forall_members_of_mem hm he) hv
    split at h
    · cases h
    · cases h
      rw [Value.tree_entry (isOperatorKey_dollar _), Sql.operands_argumentValue hsingle, htrees,
        Expr.ofOperator_call hc]

end

/-- Filters that are rendered to one document are one tree. -/
theorem eq_of_render_eq {text text' : String} {e e' : Expr} {v v' : Value} (h : Filter.parse text = .ok e)
    (h' : Filter.parse text' = .ok e') (hm : ∀ name ∈ e.members, isOperatorKey name = false)
    (hm' : ∀ name ∈ e'.members, isOperatorKey name = false) (hv : e.render = .ok v) (hv' : e'.render = .ok v')
    (heq : v = v') : e = e' := by
  have htree := tree_of_render (Filter.grammatical_of_parse h) hm hv
  have htree' := tree_of_render (Filter.grammatical_of_parse h') hm' hv'
  rw [← htree, ← htree', heq]

/-- Parentheses leave no trace, and one argument and a list of literals are told apart. -/
theorem eq_of_render_eq_parentheses :
    ∃ e e' v v', Filter.parse "a/b eq 1 and length(c) in (1, 2)" = .ok e ∧
      Filter.parse "((a/b) eq (1)) and ((length((c))) in (1, 2))" = .ok e' ∧
      (∀ name ∈ e.members, isOperatorKey name = false) ∧ (∀ name ∈ e'.members, isOperatorKey name = false) ∧
      e.render = .ok v ∧ e'.render = .ok v' ∧ v = v' ∧ e = e' := by
  have hequal : Filter.Printable (.comparison .eq (.member "a.b") (some (.literal (.int 1)))) :=
    .comparison (by decide) (.member (by decide) (by decide)) (.literal rfl)
  have hlength : Filter.Printable (.call "length" [.member "c"]) :=
    .call (c := ⟨"length", "length", .exactly 1⟩) (by decide) (by decide)
      (List.forall_mem_singleton.2 (.member (by decide) (by decide)))
  have hmembership : Filter.Printable (.comparison .isIn _ (some (.literal (.array [.int 1, .int 2])))) :=
    .membership hlength (by decide)
  have hchain : Filter.Printable (.logical .and [_, _]) :=
    .chain (.inl rfl) rfl (List.forall_mem_cons.2 ⟨hequal, List.forall_mem_singleton.2 hmembership⟩)
  obtain ⟨e, v, hprintable, hheight, htext, htext', hmembers, hv⟩ :
      ∃ e v, Filter.Printable e ∧ 2 * e.height ≤ Expr.maxHeight ∧
        Filter.printText .minimal e = "a/b eq 1 and length(c) in (1, 2)" ∧
        Filter.printText ⟨fun _ _ => true, fun _ => rfl⟩ e = "((a/b) eq (1)) and ((length((c))) in (1, 2))" ∧
        (∀ name ∈ e.members, isOperatorKey name = false) ∧ e.render = .ok v :=
    ⟨_, _, hchain, by decide, by decide +kernel, by decide +kernel,
      by simp [Expr.members, Expr.membersOf, isOperatorKey], rfl⟩
  have hparse := Filter.parse_printText .minimal hprintable hheight
  have hparse' := Filter.parse_printText ⟨fun _ _ => true, fun _ => rfl⟩ hprintable hheight
  rw [htext] at hparse
  rw [htext'] at hparse'
  exact ⟨e, e, v, v, hparse, hparse', hmembers, hmembers, hv, hv, rfl,
    eq_of_render_eq hparse hparse' hmembers hmembers hv hv rfl⟩

end SqlQuery
