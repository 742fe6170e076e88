import Mathlib
import SqlQuery.Proofs.CompiledFilters

/-!
# Operands beside symbols

`Expr.Beside` says which operands of a tree its SQL puts beside the symbol of an arithmetic operator or of a
comparison. What is said of them is put together from `Sound`, one case for each kind of tree: arithmetic and calls
have parentheses around them, a comparison has none. So an operand has no comparison on its surface unless it is a
comparison itself (`operand_surface`), and then the symbols are read in another order than they were written
(`operand_not_parenthesized`).
-/

namespace SqlQuery

open SqlQuery.Filter (Grammatical isLiteral)

inductive Side where
  | left | right

/-- An operand, and the symbol that it is on a side of. -/
structure Neighbour where
  side : Side
  symbol : String
  operand : Expr

/-- SQL with the symbol beside it. -/
def Neighbour.text (n : Neighbour) (sql : String) : String :=
  match n.side with
  | .left => sql ++ n.symbol
  | .right => n.symbol ++ sql

/-- The symbol of a comparison; there are words for comparisons with null. -/
def ComparisonOp.symbol? (op : ComparisonOp) (rightIsNull : Bool) : Option String :=
  if (op = .eq ∨ op = .ne) ∧ rightIsNull then none else Sql.Formatter.comparisonSymbols.lookup op.key

namespace Expr

/-- Comparisons with a symbol, which have no parentheses around them. -/
def isBare : Expr → Bool
  | .comparison op _ (some right) => (op.symbol? right.isNull).isSome
  | _ => false

def operands : Expr → List Expr
  | .arithmetic _ left right => [left, right]
  | .comparison _ left right => left :: right.toList
  | .logical _ args | .call _ args => args
  | _ => []

/-- The start of a search beside symbols. -/
def besideStart (d : Sql.Dialect) (start : Expr) : List Neighbour :=
  match d with
  | .mysql => [⟨.left, " + ", start⟩]
  | _ => [⟨.left, " + ", start⟩, ⟨.right, " + ", start⟩, ⟨.left, " - ", start⟩]

/-- The operands that the SQL of an expression itself puts beside a symbol. Places in texts are counted from zero, so
that one is added to them. -/
def neighbours (d : Sql.Dialect) : Expr → List Neighbour
  | .arithmetic op left right =>
    [⟨.left, " " ++ op.symbol ++ " ", left⟩, ⟨.right, " " ++ op.symbol ++ " ", right⟩]
  | .comparison op left (some right) =>
    (op.symbol? right.isNull).toList.flatMap fun symbol => [⟨.left, symbol, left⟩, ⟨.right, symbol, right⟩]
  | .call name args =>
    if name = Method.substr.name then (args[1]?.filter (!·.isInt)).toList.map (⟨.left, " + ", ·⟩)
    else if name = Method.indexOfBytes.name then args[2]?.toList.flatMap (besideStart d)
    else []
  | _ => []

/-- The SQL of an expression has the operand beside the symbol. -/
inductive Beside (d : Sql.Dialect) : Expr → Neighbour → Prop where
  | here {e : Expr} {n : Neighbour} (h : n ∈ e.neighbours d) : Beside d e n
  | inside {e o : Expr} {n : Neighbour} (ho : o ∈ e.operands) (h : Beside d o n) : Beside d e n

end Expr

namespace Sql

section

variable {f : Formatter} {e : Expr} {sql text : String} {n : Neighbour}

/-- The operand is beside the symbol in a text, and has no comparison on its surface unless it is one. -/
def Placed (f : Formatter) (n : Neighbour) (text : String) : Prop :=
  ∃ sql, Compiles f n.operand sql ∧ Occurs (n.text sql) text ∧ (Atomic f.dialect sql ↔ n.operand.isBare = false)

theorem isBare_of_isComposite (h : e.isComposite = true) : e.isBare = false := by
  cases e <;> first | rfl | cases h

theorem Placed.mono (h : Placed f n sql) (ho : Occurs sql text) : Placed f n text := by
  obtain ⟨s, hs, hoccurs, hatomic⟩ := h
  exact ⟨s, hs, hoccurs.trans ho, hatomic⟩

/-- What holds of the SQL of an expression. -/
structure Sound (f : Formatter) (e : Expr) (sql : String) : Prop where
  balanced : Balanced f.dialect sql
  atomic : Atomic f.dialect sql ↔ e.isBare = false
  placed : ∀ {n}, e.Beside f.dialect n → Placed f n sql

namespace Sound

theorem neighbour {side : Side} {symbol : String} (h : Sound f e sql) (hc : Compiles f e sql)
    (ho : Occurs (Neighbour.text ⟨side, symbol, e⟩ sql) text) : Placed f ⟨side, symbol, e⟩ text :=
  ⟨sql, hc, ho, h.atomic⟩

/-- An expression with nothing beside symbols. -/
theorem of_shielded (h : Shielded f.dialect sql) (hb : e.isBare = false) (hn : ∀ n, ¬ e.Beside f.dialect n) :
    Sound f e sql :=
  ⟨h.balanced, iff_of_true h.atomic hb, fun hn' => absurd hn' (hn _)⟩

theorem start (h : Sound f e sql) (hc : Compiles f e sql) (ho : ∀ {t}, t ∈ besideStart f.dialect sql → Occurs t text)
    (hn : n ∈ e.besideStart f.dialect) : Placed f n text := by
  unfold Expr.besideStart at hn
  unfold besideStart at ho
  cases hd : f.dialect with
  | mysql =>
    rw [hd] at hn ho
    obtain rfl := List.mem_singleton.1 hn
    exact h.neighbour hc (ho (by simp [Neighbour.text]))
  | postgres | sqlite =>
    rw [hd] at hn ho
    simp only [List.mem_cons, List.not_mem_nil, or_false] at hn
    rcases hn with rfl | rfl | rfl
    · exact h.neighbour hc (ho (by simp [Neighbour.text]))
    · exact h.neighbour hc (ho (by simp [Neighbour.text]))
    · exact h.neighbour hc (ho (by simp [Neighbour.text]))

end Sound

theorem not_beside_member {d : Dialect} (path : String) (n : Neighbour) : ¬ (Expr.member path).Beside d n
  | .here h => by cases h
  | .inside ho _ => by cases ho

theorem not_beside_literal {d : Dialect} (value : Value) (n : Neighbour) : ¬ (Expr.literal value).Beside d n
  | .here h => by cases h
  | .inside ho _ => by cases ho

/-- Membership has no symbol. -/
theorem not_beside_membership {d : Dialect} (path : String) (values : List Value) (n : Neighbour) :
    ¬ (Expr.comparison .isIn (.member path) (some (.literal (.array values)))).Beside d n := by
  intro hn
  cases hn with
  | here h => cases h
  | inside hmem h =>
    simp only [Expr.operands, Option.toList_some, List.mem_cons, List.not_mem_nil, or_false] at hmem
    rcases hmem with rfl | rfl
    · exact not_beside_member _ _ h
    · exact not_beside_literal _ _ h

/-! ### Soundness -/

theorem comparisonText_cases {op : ComparisonOp} (ho : op ≠ .isIn ∧ op ≠ .notIn) (v : Value) (r : String) :
    (∃ symbol, op.symbol? v.isNull = some symbol ∧ comparisonText op v r = symbol ++ r ∧
        Plain symbol ∧ Bare symbol ∧ symbol.toList.all (fun c => !isComparisonChar c) = false) ∨
      op.symbol? v.isNull = none ∧ v.isNull = true ∧ ∃ words, comparisonText op v r = words ∧
        Plain words ∧ Bare words ∧ words.toList.all (fun c => !isComparisonChar c) = true := by
  cases op with
  | isIn => exact absurd rfl ho.1
  | notIn => exact absurd rfl ho.2
  | eq =>
    cases v with
    | null => exact .inr ⟨rfl, rfl, " IS NULL", rfl, by decide, by decide, by decide⟩
    | _ => exact .inl ⟨_, rfl, rfl, by decide, by decide, by decide⟩
  | ne =>
    cases v with
    | null => exact .inr ⟨rfl, rfl, " IS NOT NULL", rfl, by decide, by decide, by decide⟩
    | _ => exact .inl ⟨_, rfl, rfl, by decide, by decide, by decide⟩
  | _ => cases v <;> exact .inl ⟨_, rfl, rfl, by decide, by decide, by decide⟩

theorem Sound.arithmetic {op : ArithmeticOp} {left right : Expr} {l r : String} (hcl : Compiles f left l)
    (hcr : Compiles f right r) (hl : Sound f left l) (hr : Sound f right r) :
    Sound f (.arithmetic op left right) ("(" ++ l ++ " " ++ op.symbol ++ " " ++ r ++ ")") := by
  have hsymbol : Plain (" " ++ op.symbol ++ " ") ∧ Bare (" " ++ op.symbol ++ " ") := by cases op <;> decide
  have hassoc : "(" ++ l ++ " " ++ op.symbol ++ " " ++ r ++ ")" =
      "(" ++ (l ++ (" " ++ op.symbol ++ " ") ++ r) ++ ")" := by simp [String.append_assoc]
  rw [hassoc]
  have hbetween := (hl.balanced.between hsymbol.1 hsymbol.2 hr.balanced).1
  have hparens : Encloses f.dialect _ [_] := .parens hbetween
  have hinner := hparens.occurs _ (List.mem_singleton_self _)
  refine ⟨hparens.shielded.balanced, iff_of_true hparens.shielded.atomic rfl, fun hn => ?_⟩
  cases hn with
  | here h =>
    simp only [Expr.neighbours, List.mem_cons, List.not_mem_nil, or_false] at h
    rcases h with rfl | rfl
    · exact hl.neighbour hcl (((Occurs.refl _).append_right r).trans hinner)
    · exact hr.neighbour hcr ((occurs_right l _ r).trans hinner)
  | inside ho h =>
    simp only [Expr.operands, List.mem_cons, List.not_mem_nil, or_false] at ho
    rcases ho with rfl | rfl
    · exact (hl.placed h).mono ((((Occurs.refl l).append_right _).append_right r).trans hinner)
    · exact (hr.placed h).mono (((Occurs.refl r).append_left _).trans hinner)

/-- The operands of a comparison in its SQL, whatever the left side is. -/
theorem placed_comparison {op : ComparisonOp} {left right : Expr} (ho : op ≠ .isIn ∧ op ≠ .notIn) {l r : String}
    {v : Value} (hright : Grammatical right) (hcl : Compiles f left l) (hl : Sound f left l) (hv : right.render = .ok v)
    (hcr : f.expression v = .ok r) (hr : Sound f right r)
    (h : (Expr.comparison op left (some right)).Beside f.dialect n) : Placed f n (l ++ comparisonText op v r) := by
  have hnull := isNull_of_render hright hv
  obtain ⟨symbol, hsymbol, htext, -⟩ | ⟨hnone, hv, -⟩ := comparisonText_cases ho v r
  · rw [htext, ← String.append_assoc]
    rw [hnull] at hsymbol
    cases h with
    | here h =>
      simp only [Expr.neighbours, hsymbol, Option.toList_some, List.flatMap_singleton, List.mem_cons, List.not_mem_nil,
        or_false] at h
      rcases h with rfl | rfl
      · exact hl.neighbour hcl ((Occurs.refl _).append_right r)
      · exact hr.neighbour ⟨v, hv, hcr⟩ (occurs_right l symbol r)
    | inside hmem h =>
      simp only [Expr.operands, Option.toList_some, List.mem_cons, List.not_mem_nil, or_false] at hmem
      rcases hmem with rfl | rfl
      · exact (hl.placed h).mono (((Occurs.refl l).append_right symbol).append_right r)
      · exact (hr.placed h).mono ((Occurs.refl r).append_left _)
  · rw [hnull] at hnone hv
    obtain ⟨value, rfl⟩ : ∃ value, right = .literal value := by
      cases right with
      | literal value => exact ⟨value, rfl⟩
      | _ => cases hv
    cases h with
    | here h => simp [Expr.neighbours, hnone] at h
    | inside hmem h =>
      simp only [Expr.operands, Option.toList_some, List.mem_cons, List.not_mem_nil, or_false] at hmem
      rcases hmem with rfl | rfl
      · exact (hl.placed h).mono ((Occurs.refl l).append_right _)
      · exact absurd h (not_beside_literal _ _)

theorem Sound.comparison {op : ComparisonOp} {left right : Expr} (ho : op ≠ .isIn ∧ op ≠ .notIn) {l r : String}
    {v : Value} (hright : Grammatical right) (hbare : left.isBare = false) (hcl : Compiles f left l)
    (hl : Sound f left l) (hv : right.render = .ok v) (hcr : f.expression v = .ok r) (hr : Sound f right r) :
    Sound f (.comparison op left (some right)) (l ++ comparisonText op v r) := by
  have hplaced := fun {n} => placed_comparison (n := n) ho hright hcl hl hv hcr hr
  have hisBare : (Expr.comparison op left (some right)).isBare = (op.symbol? v.isNull).isSome := by
    rw [Expr.isBare, isNull_of_render hright hv]
  obtain ⟨symbol, hsymbol, htext, hp, hb, hchars⟩ | ⟨hnone, -, words, htext, hp, hb, hchars⟩ :=
    comparisonText_cases ho v r
  · obtain ⟨hbalanced, hsurface⟩ := hl.balanced.between hp hb hr.balanced
    refine ⟨?_, ?_, hplaced⟩
    · rwa [htext, ← String.append_assoc]
    · rw [htext, ← String.append_assoc, Atomic, hsurface, hisBare, hsymbol]
      simp [hchars]
  · have hparted : Parted f.dialect l words := hp.parted hl.balanced.closed
    refine ⟨?_, ?_, hplaced⟩
    · rw [htext]
      exact hl.balanced.append hb.balanced hparted
    · have hatomic : (surface f.dialect l).all (fun c => !isComparisonChar c) = true := hl.atomic.2 hbare
      rw [htext, Atomic, hl.balanced.surface_append hparted, hb.surface_eq, List.all_append, hatomic, hchars, hisBare,
        hnone]
      exact iff_of_true rfl rfl

theorem Sound.membership {left : Expr} {values : List Value} {l list : String} (hl : Sound f left l)
    (hbare : left.isBare = false) (hlist : Balanced f.dialect list) :
    Sound f (.comparison .isIn left (some (.literal (.array values)))) (l ++ " IN (" ++ list ++ ")") := by
  obtain ⟨hbalanced, hatomic⟩ := membership_surface hl.balanced hlist
  refine ⟨hbalanced, iff_of_true (hatomic (hl.atomic.2 hbare)) rfl, fun h => ?_⟩
  cases h with
  | here h => cases h
  | inside hmem h =>
    simp only [Expr.operands, Option.toList_some, List.mem_cons, List.not_mem_nil, or_false] at hmem
    rcases hmem with rfl | rfl
    · exact (hl.placed h).mono ((((Occurs.refl l).append_right _).append_right list).append_right _)
    · exact absurd h (not_beside_literal _ _)

theorem Sound.call {name : String} {m : Method} {args : List Expr} {values : List Value} {texts : List String}
    (ha : ∀ e ∈ args, Grammatical e) (hvalues : Expr.renderAll args = .ok values)
    (htexts : f.expressionsIn f.plainScope values = .ok texts) (hname : m.name = name)
    (hsound : ∀ e ∈ args, ∀ {sql}, Compiles f e sql → Sound f e sql) (hc : Called f.dialect m values texts sql) :
    Sound f (.call name args) sql := by
  -- what is known of the argument at a place
  have hargument : ∀ {i : Nat} {o : Expr}, args[i]? = some o → ∃ v text, values[i]? = some v ∧ texts[i]? = some text ∧
      Grammatical o ∧ o.render = .ok v ∧ Compiles f o text ∧ Sound f o text := by
    intro i o hi
    have hmem : o ∈ args := List.mem_of_getElem? hi
    obtain ⟨v, hv, hrender⟩ := exists_getElem? (forall₂_renderAll hvalues) hi
    obtain ⟨text, htext, hexpression⟩ := exists_getElem? (forall₂_expressionsIn htexts) hv
    have hcompiles : Compiles f o text := ⟨v, hrender, hexpression⟩
    exact ⟨v, text, hv, htext, ha o hmem, hrender, hcompiles, hsound o hmem hcompiles⟩
  refine ⟨hc.shielded.balanced, iff_of_true hc.shielded.atomic rfl, fun h => ?_⟩
  cases h with
  | here h =>
    rw [Expr.neighbours] at h
    split at h
    · next hsubstr =>
      obtain ⟨o, ho, rfl⟩ := List.mem_map.1 h
      obtain ⟨ho, hint⟩ := Option.filter_eq_some_iff.1 (Option.mem_toList.1 ho)
      obtain ⟨v, text, hv, htext, hgrammatical, hrender, hcompiles, hsound⟩ := hargument ho
      have hm : m = .substr := by
        rw [hsubstr] at hname
        revert hname
        cases m <;> decide
      exact hsound.neighbour hcompiles
        (hc.start hm htext (isInt_of_render hgrammatical hrender hv (by simpa using hint)))
    · split at h
      · next hindex =>
        obtain ⟨o, ho, h⟩ := List.mem_flatMap.1 h
        obtain ⟨v, text, hv, htext, -, -, hcompiles, hsound⟩ := hargument (Option.mem_toList.1 ho)
        have hm : m = .indexOfBytes := by
          rw [hindex] at hname
          revert hname
          cases m <;> decide
        exact hsound.start hcompiles (hc.position hm htext) h
      · cases h
  | inside hmem h =>
    obtain ⟨i, hi⟩ := List.mem_iff_getElem?.1 hmem
    obtain ⟨v, text, hv, htext, hgrammatical, hrender, -, hsound⟩ := hargument hi
    obtain ⟨rfl, -⟩ | ⟨-, hliteral, -⟩ := render_cases hgrammatical hrender
    · exact absurd h (not_beside_literal _ _)
    · exact (hsound.placed h).mono (hc.occurs htext hv hliteral)

theorem sound_of_compiles (hf : f.style.nameFormat = "$1") (he : Grammatical e) (h : Compiles f e sql) :
    Sound f e sql := by
  induction he generalizing sql with
  | member hn =>
    obtain ⟨v, hv, hsql⟩ := h
    cases hv
    cases hsql
    exact .of_shielded (shielded_name hf hn) rfl (not_beside_member _)
  | literal hv =>
    obtain ⟨v, hrender, hsql⟩ := h
    cases hrender
    obtain ⟨constant, hconstant, hexpression⟩ := constant_of_isLiteral f hv
    cases (hexpression f.plainScope).symm.trans hsql
    exact .of_shielded (shielded_constant hv hconstant) rfl (not_beside_literal _)
  | arithmetic _ _ _ ihl ihr =>
    obtain ⟨l, r, hl, hr, rfl⟩ := compiles_arithmetic h
    exact .arithmetic hl hr (ihl hl) (ihr hr)
  | comparison ho _ hr ihl ihr =>
    obtain ⟨hbare, l, v, r, hcl, hv, hcr, rfl⟩ := compiles_comparison ho hr h
    exact .comparison ho hr (isBare_of_isComposite hbare) hcl (ihl hcl) hv hcr (ihr ⟨v, hv, hcr⟩)
  | membership hl hv ih =>
    obtain ⟨path, rfl, hshielded⟩ | ⟨hbare, l, list, hcl, hlist, rfl⟩ := compiles_membership hv h
    · exact .of_shielded hshielded rfl (not_beside_membership _ _)
    · exact (ih hcl).membership (isBare_of_isComposite hbare) hlist
  | chain | negation => exact absurd h (not_compiles_logical _ _)
  | @call c args hm hc ha ih =>
    obtain ⟨values, texts, m, hvalues, htexts, hname, harity, hcall⟩ := compiles_call hm ha h
    have hlength : texts.length = args.length :=
      ((forall₂_renderAll hvalues).length_eq.trans (forall₂_expressionsIn htexts).length_eq).symm
    refine .call ha hvalues htexts hname (fun e he {sql} h => ih e he h) (called_of_call? ?_ ?_ hcall)
    · have hrendered : ∀ v ∈ values, ∃ e ∈ args, e.render = .ok v :=
        forall_mem_of_forall₂ (forall₂_renderAll hvalues) fun e he v hv => ⟨e, he, hv⟩
      refine forall_mem_of_forall₂ (forall₂_expressionsIn htexts) fun v hv text htext => ?_
      obtain ⟨e, he, hrender⟩ := hrendered v hv
      exact (ih e he ⟨v, hrender, htext⟩).balanced
    · rw [harity, hlength]
      exact allows_of_admits hc

/-- An operator key that is not logical makes an expression of the filter. -/
theorem placed_of_expression (hf : f.style.nameFormat = "$1") (he : Grammatical e) {key : String} {value : Value}
    {c : Condition} (hd : e.render = .ok (.entry key value)) (hk : isOperatorKey key = true)
    (hl : key ∉ ["$and", "$or", "$not", "$nor"]) (hc : f.filterIn f.plainScope (.entry key value) = .ok c)
    (hn : e.Beside f.dialect n) : Placed f n c.text := by
  obtain ⟨sql, hsql, htext⟩ := filterIn_expression hk hl hc
  rw [htext]
  exact (sound_of_compiles hf he ⟨_, hd, hsql⟩).placed hn

theorem placed_logical {op : LogicalOp} {args : List Expr} {document : Value} {c : Condition}
    (ih : ∀ e ∈ args, ∀ {document c}, e.render = .ok document → f.filterIn f.plainScope document = .ok c →
      e.Beside f.dialect n → Placed f n c.text)
    (hd : (Expr.logical op args).render = .ok document) (hc : f.filterIn f.plainScope document = .ok c)
    (hn : (Expr.logical op args).Beside f.dialect n) : Placed f n c.text := by
  rw [Expr.render] at hd
  split at hd
  · cases hd
  · obtain ⟨values, hvalues, hd⟩ := bind_eq_ok.1 hd
    cases hd
    obtain ⟨cs, hcs, hoccurs⟩ := filterIn_logical hc
    cases hn with
    | here h => cases h
    | inside hmem h =>
      obtain ⟨i, hi⟩ := List.mem_iff_getElem?.1 hmem
      obtain ⟨v, hv, hrender⟩ := exists_getElem? (forall₂_renderAll hvalues) hi
      obtain ⟨d, hd, hfilter⟩ := exists_getElem? (forall₂_filterItems hcs) hv
      exact (ih _ hmem hrender hfilter h).mono ((occurs_group d).trans (hoccurs d (List.mem_of_getElem? hd)))

theorem placed_of_filterIn (hf : f.style.nameFormat = "$1") (he : Grammatical e) {document : Value} {c : Condition}
    (hd : e.render = .ok document) (hc : f.filterIn f.plainScope document = .ok c) (hn : e.Beside f.dialect n) :
    Placed f n c.text := by
  induction he generalizing document c with
  | member => exact absurd hn (not_beside_member _ _)
  | literal => exact absurd hn (not_beside_literal _ _)
  | @arithmetic op left right ho hl hr =>
    have hd' := hd
    rw [Expr.render] at hd
    obtain ⟨a, ha, hd⟩ := bind_eq_ok.1 hd
    obtain ⟨b, hb, hd⟩ := bind_eq_ok.1 hd
    cases hd
    have hkey : isOperatorKey op.key = true ∧ op.key ∉ ["$and", "$or", "$not", "$nor"] := by cases op <;> decide
    exact placed_of_expression hf (.arithmetic ho hl hr) hd' hkey.1 hkey.2 hc hn
  | @comparison op left right ho hl hr =>
    have hd' := hd
    rw [Expr.render] at hd
    obtain ⟨v, hv, hd⟩ := bind_eq_ok.1 hd
    obtain ⟨path, rfl, rfl⟩ | ⟨-, a, -, rfl⟩ := renderComparison_eq_ok hd
    · obtain ⟨r, hcr, htext⟩ := filterIn_member ho (operands_of_render hr hv) hc
      have hcl : Compiles f (.member path) (f.style.name path) := ⟨.ref path, rfl, rfl⟩
      rw [htext]
      exact placed_comparison ho hr hcl (sound_of_compiles hf hl hcl) hv hcr
        (sound_of_compiles hf hr ⟨v, hv, hcr⟩) hn
    · have hkey : isOperatorKey op.key = true ∧ op.key ∉ ["$and", "$or", "$not", "$nor"] := by cases op <;> decide
      exact placed_of_expression hf (.comparison ho hl hr) hd' hkey.1 hkey.2 hc hn
  | @membership left values hl hv =>
    have hd' := hd
    rw [Expr.render] at hd
    obtain ⟨path, rfl, rfl⟩ | ⟨-, a, -, rfl⟩ := renderComparison_eq_ok hd
    · exact absurd hn (not_beside_membership _ _ _)
    · exact placed_of_expression hf (.membership hl hv) hd' (by decide) (by decide) hc hn
  | chain _ _ _ ih => exact placed_logical ih hd hc hn
  | negation _ ih => exact placed_logical (List.forall_mem_singleton.2 ih) hd hc hn
  | @call callable args hm harity ha =>
    have hd' := hd
    rw [Expr.render] at hd
    obtain ⟨values, -, hd⟩ := bind_eq_ok.1 hd
    split at hd
    · cases hd
    · cases hd
      have hkeys := (method_of_vocabulary hm).1
      have hkey : isOperatorKey ("$" ++ callable.name) = true := by simp [isOperatorKey]
      refine placed_of_expression hf (.call hm harity ha) hd' hkey (fun hmem => hkeys ?_) hc hn
      exact List.mem_cons_of_mem _ (List.mem_cons_of_mem _ hmem)

end

end Sql

open Sql (Formatter Placed Occurs Atomic Compiles)

/-- Each operand that the SQL of a filter puts beside a symbol of arithmetic or of a comparison is there as it is
written alone, and has no comparison outside of parentheses and literals unless it is a comparison itself. -/
theorem operand_surface (f : Formatter) (hf : f.style.nameFormat = "$1") {text : String} {e : Expr} {document : Value}
    {sql : String} (hp : Filter.parse text = .ok e) (hd : e.render = .ok document) (hs : f.filter document = .ok sql)
    (n : Neighbour) (hn : e.Beside f.dialect n) : Placed f n sql := by
  obtain ⟨c, hc, hs⟩ := bind_eq_ok.1 hs
  cases hs
  rw [Sql.Condition.text_group]
  have hplaced := Sql.placed_of_filterIn hf (Filter.grammatical_of_parse hp) hd hc hn
  exact hplaced.mono (((Occurs.refl _).append_left "(").append_right ")")

/-- A difference on the right side of an order. -/
theorem operand_surface_difference :
    ∃ e document, Filter.parse "round(a add 1, 2) lt length(b) sub c" = .ok e ∧ e.render = .ok document ∧
      Formatter.filter {} document = .ok "(ROUND((a + 1), 2)<(LENGTH(b) - c))" ∧
      Placed {} ⟨.right, "<", .arithmetic .subtract (.call "length" [.member "b"]) (.member "c")⟩
        "(ROUND((a + 1), 2)<(LENGTH(b) - c))" := by
  have hsum : Filter.Printable (.arithmetic .add (.member "a") (.literal (.int 1))) :=
    .arithmetic (by decide) (.member (by decide) (by decide)) (.literal rfl)
  have hround : Filter.Printable (.call "round" [_, .literal (.int 2)]) :=
    .call (c := ⟨"round", "round", .orOneMore 1⟩) (by decide) (by decide)
      (List.forall_mem_cons.2 ⟨hsum, List.forall_mem_singleton.2 (.literal rfl)⟩)
  have hlength : Filter.Printable (.call "length" [.member "b"]) :=
    .call (c := ⟨"length", "length", .exactly 1⟩) (by decide) (by decide)
      (List.forall_mem_singleton.2 (.member (by decide) (by decide)))
  have hprintable : Filter.Printable (.comparison .lt _ (some (.arithmetic .subtract _ (.member "c")))) :=
    .comparison (by decide) hround (.arithmetic (by decide) hlength (.member (by decide) (by decide)))
  obtain ⟨e, document, hprintable, htext, hheight, hrender, hsql, hmem⟩ :
      ∃ e document, Filter.Printable e ∧ Filter.printText .minimal e = "round(a add 1, 2) lt length(b) sub c" ∧
        2 * e.height ≤ Expr.maxHeight ∧ e.render = .ok document ∧
        Formatter.filter {} document = .ok "(ROUND((a + 1), 2)<(LENGTH(b) - c))" ∧
        ⟨.right, "<", .arithmetic .subtract (.call "length" [.member "b"]) (.member "c")⟩ ∈ e.neighbours .mysql :=
    ⟨_, _, hprintable, by decide +kernel, by decide, rfl, eq_ok_of_toOption (by decide +kernel),
      List.mem_cons_of_mem _ List.mem_cons_self⟩
  have hparse : Filter.parse "round(a add 1, 2) lt length(b) sub c" = .ok e := by
    rw [← htext]
    exact Filter.parse_printText .minimal hprintable hheight
  exact ⟨e, document, hparse, hrender, hsql, operand_surface {} rfl hparse hrender hsql _ (.here hmem)⟩

/-- A comparison that is added has no parentheses around it, so that the sum is what is compared. -/
theorem operand_not_parenthesized :
    ∃ e document n, Filter.parse "a add (length(b) eq 1) eq 2" = .ok e ∧ e.render = .ok document ∧
      Formatter.filter {} document = .ok "((a + LENGTH(b)=1)=2)" ∧ e.Beside .mysql n ∧
      n.text "LENGTH(b)=1" = " + LENGTH(b)=1" ∧ Compiles {} n.operand "LENGTH(b)=1" ∧ ¬ Atomic .mysql "LENGTH(b)=1" := by
  have hlength : Filter.Printable (.call "length" [.member "b"]) :=
    .call (c := ⟨"length", "length", .exactly 1⟩) (by decide) (by decide)
      (List.forall_mem_singleton.2 (.member (by decide) (by decide)))
  have hcompared : Filter.Printable (.comparison .eq _ (some (.literal (.int 1)))) :=
    .comparison (by decide) hlength (.literal rfl)
  have hprintable : Filter.Printable
      (.comparison .eq (.arithmetic .add (.member "a") _) (some (.literal (.int 2)))) :=
    .comparison (by decide) (.arithmetic (by decide) (.member (by decide) (by decide)) hcompared) (.literal rfl)
  obtain ⟨e, document, n, htext, hprintable, hheight, hrender, hrest⟩ :
      ∃ e document n, Filter.printText .minimal e = "a add (length(b) eq 1) eq 2" ∧ Filter.Printable e ∧
        2 * e.height ≤ Expr.maxHeight ∧ e.render = .ok document ∧
        Formatter.filter {} document = .ok "((a + LENGTH(b)=1)=2)" ∧ e.Beside .mysql n ∧
        n.text "LENGTH(b)=1" = " + LENGTH(b)=1" ∧ Compiles {} n.operand "LENGTH(b)=1" ∧
        ¬ Atomic .mysql "LENGTH(b)=1" := by
    refine ⟨_, _, _, ?_, hprintable, by decide, rfl, eq_ok_of_toOption (by decide +kernel),
      .inside List.mem_cons_self (.here (List.mem_cons_of_mem _ List.mem_cons_self)), by decide,
      ⟨_, rfl, eq_ok_of_toOption (by decide +kernel)⟩, by decide⟩
    decide +kernel
  refine ⟨e, document, n, ?_, hrender, hrest⟩
  rw [← htext]
  exact Filter.parse_printText .minimal hprintable hheight

end SqlQuery
