import Mathlib
import SqlQuery.Proofs.ClosureRoundTrip
import SqlQuery.Proofs.UnquotedNames

/-!
# The members of a filter in its SQL

`Expr.kept` are the members of a tree that reach its SQL. Most trees keep all of them. A member is lost with an argument
that a call does not write, with an entry that a later one with the same key replaces, with an option or a searched
text, and on the left of a comparison if its path looks like an operator.

What is kept is shown by the document (`kept_subset_shown`), and what the document shows is in the SQL
(`members_mentioned`). A filter that is read from text has no more arguments than are written, so that it keeps all
members that do not look like operators (`kept_eq_members`).
-/

namespace SqlQuery

open SqlQuery.Filter (Grammatical isLiteral)

/-! ### Kept members -/

namespace Expr

/-- The key of an item that has one. -/
def itemKey (index : Nat) (e : Expr) : String := (sequenceKey index e).toOption.getD ""

def itemKeys (index : Nat) : List Expr → List String
  | [] => []
  | e :: items => itemKey index e :: itemKeys (index + 1) items

/-- Names under a key, unless they are hidden there or a later entry has the same key. -/
def unreplaced (key : String) (later names : List String) : List String :=
  if key ∈ hiddenKeys ∨ key ∈ later then [] else names

/-- The names of a comparison, given those of its sides: a member is the key of its comparison. -/
def comparisonNames (left : Expr) (leftNames rightNames : List String) : List String :=
  match left with
  | .member path => entryNames path [rightNames]
  | _ => leftNames ++ rightNames

/-- The names of an item, given those of its value: a member is the key of its item. -/
def itemNames (e : Expr) (names : List String) : List String :=
  match e with
  | .member path => entryNames path []
  | _ => names

mutual

/-- The members that reach the SQL. -/
def kept : Expr → List String
  | .member path => [path]
  | .literal _ => []
  | .arithmetic _ left right => left.kept ++ right.kept
  | .comparison _ left none => comparisonNames left left.kept []
  | .comparison _ left (some right) => comparisonNames left left.kept right.kept
  | .logical _ args => (keptEach args).flatten
  | .call name args => entryNames ("$" ++ name) (keptEach args)
  | .sequence items => keptItems 0 items
  | .object entries => keptUnder entries

def keptEach : List Expr → List (List String)
  | [] => []
  | e :: es => e.kept :: keptEach es

def keptItems (index : Nat) : List Expr → List String
  | [] => []
  | e :: items =>
    itemNames e (unreplaced (itemKey index e) (itemKeys (index + 1) items) e.kept) ++ keptItems (index + 1) items

def keptUnder : List (String × Expr) → List String
  | [] => []
  | (key, e) :: entries => unreplaced key (entries.map Prod.fst) e.kept ++ keptUnder entries

end

mutual

/-- Whether every call writes all its arguments, in a tree without objects and sequences. -/
def withinLimits : Expr → Bool
  | .member _ | .literal _ => true
  | .arithmetic _ left right => left.withinLimits && right.withinLimits
  | .comparison _ left none => left.withinLimits
  | .comparison _ left (some right) => left.withinLimits && right.withinLimits
  | .logical _ args => allWithinLimits args
  | .call name args =>
    "$" ++ name ∉ hiddenKeys && ((Method.ofKey? ("$" ++ name)).bind Method.limit?).all (args.length ≤ ·) &&
      allWithinLimits args
  | .sequence _ | .object _ => false

def allWithinLimits : List Expr → Bool
  | [] => true
  | e :: es => e.withinLimits && allWithinLimits es

end

theorem keptEach_eq_map (es : List Expr) : keptEach es = es.map kept := by
  induction es with
  | nil => rw [keptEach, List.map_nil]
  | cons e es ih => rw [keptEach, ih, List.map_cons]

end Expr

/-! ### Kept members show -/

section

open Sql (operands)
open Value (shown)

variable {key : String} {names names' : List (List String)}

theorem flatten_subset_flatten (h : List.Forall₂ (· ⊆ ·) names names') : names.flatten ⊆ names'.flatten := by
  induction h with
  | nil => exact List.Subset.refl _
  | cons hx _ ih =>
    rw [List.flatten_cons, List.flatten_cons]
    exact List.append_subset.2
      ⟨List.subset_append_of_subset_left _ hx, List.subset_append_of_subset_right _ ih⟩

theorem entryNames_mono (h : List.Forall₂ (· ⊆ ·) names names') : entryNames key names ⊆ entryNames key names' := by
  have hwritten : List.Forall₂ (· ⊆ ·) (writtenUnder key names) (writtenUnder key names') := by
    unfold writtenUnder
    split
    · exact List.forall₂_take _ h
    · exact h
  unfold entryNames
  split
  · exact List.Subset.refl _
  · exact List.append_subset.2
      ⟨List.subset_append_left _ _, List.subset_append_of_subset_right _ (flatten_subset_flatten hwritten)⟩

/-- Every method writes its first argument. -/
theorem writtenUnder_singleton {α : Type} (key : String) (x : α) : writtenUnder key [x] = [x] := by
  have hlimit : ∀ m n, Method.limit? m = some (n : Nat) → 0 < n := by
    intro m n h
    cases m <;> cases h <;> decide
  unfold writtenUnder
  split
  · next n hn =>
    obtain ⟨m, -, hm⟩ := Option.bind_eq_some_iff.1 hn
    exact List.take_of_length_le (hlimit m n hm)
  · rfl

theorem shown_entry (key : String) (arg : Value) :
    (Value.entry key arg).shown = entryNames key ((operands arg).map shown) := by
  rw [Value.entry, shown, Value.shownUnder_cons, Value.shownUnder, List.append_nil]

/-- An operator that takes all its operands shows what they show. -/
theorem shown_operator {key : String} (hk : isOperatorKey key = true) (hh : key ∉ hiddenKeys)
    (hl : (Method.ofKey? key).bind Method.limit? = none) (arg : Value) : (Value.entry key arg).shown = arg.shown := by
  rw [shown_entry, entryNames_operands hk hh hl]

theorem shown_arithmetic (op : ArithmeticOp) (arg : Value) : (Value.entry op.key arg).shown = arg.shown :=
  shown_operator op.isOperatorKey_key (by cases op <;> decide) (by cases op <;> decide) arg

theorem shown_comparison (op : ComparisonOp) (arg : Value) : (Value.entry op.key arg).shown = arg.shown :=
  shown_operator op.isOperatorKey_key (by cases op <;> decide) (by cases op <;> decide) arg

theorem shown_logical (op : LogicalOp) (arg : Value) : (Value.entry op.key arg).shown = arg.shown :=
  shown_operator op.isOperatorKey_key (by cases op <;> decide) (by cases op <;> decide) arg

theorem append_subset_shown {left right : Value} {l r : List String} (hl : l ⊆ left.shown) (hr : r ⊆ right.shown) :
    l ++ r ⊆ (Value.array [left, right]).shown := by
  rw [shown, Value.shownEach, Value.shownEach, Value.shownEach, List.flatten_cons, List.flatten_singleton]
  exact List.append_subset.2 ⟨List.subset_append_of_subset_left _ hl, List.subset_append_of_subset_right _ hr⟩

/-- Only a literal is rendered to a list, and it has no members. -/
theorem operands_or_kept {e : Expr} {v : Value} (h : e.render = .ok v) : operands v = [v] ∨ e.kept = [] := by
  have hcomparison : ∀ {op left rendered right}, Expr.renderComparison op left rendered right = .ok v →
      operands v = [v] := by
    intro op left rendered right h
    obtain ⟨path, -, rfl⟩ | ⟨-, l, -, rfl⟩ := Sql.renderComparison_eq_ok h <;> rfl
  cases e with
  | literal => exact .inr (by rw [Expr.kept])
  | member =>
    cases h
    exact .inl rfl
  | arithmetic =>
    rw [Expr.render] at h
    obtain ⟨l, -, h⟩ := bind_eq_ok.1 h
    obtain ⟨r, -, h⟩ := bind_eq_ok.1 h
    cases h
    exact .inl rfl
  | comparison op left right =>
    cases right with
    | none =>
      rw [Expr.render] at h
      exact .inl (hcomparison h)
    | some right =>
      rw [Expr.render] at h
      obtain ⟨r, -, h⟩ := bind_eq_ok.1 h
      exact .inl (hcomparison h)
  | logical =>
    rw [Expr.render] at h
    split at h
    · cases h
    · obtain ⟨values, -, h⟩ := bind_eq_ok.1 h
      cases h
      exact .inl rfl
  | call =>
    rw [Expr.render] at h
    obtain ⟨values, -, h⟩ := bind_eq_ok.1 h
    split at h
    · cases h
    · cases h
      exact .inl rfl
  | sequence =>
    rw [Expr.render] at h
    obtain ⟨entries, -, h⟩ := bind_eq_ok.1 h
    cases h
    exact .inl rfl
  | object =>
    rw [Expr.render] at h
    obtain ⟨entries, -, h⟩ := bind_eq_ok.1 h
    cases h
    exact .inl rfl

/-- The document of a tree shows the members that the tree keeps. -/
def Expr.Shown (e : Expr) : Prop := ∀ v, e.render = .ok v → e.kept ⊆ v.shown

theorem forall₂_shown {es : List Expr} {values : List Value} (hes : ∀ e ∈ es, e.Shown)
    (h : Expr.renderAll es = .ok values) : List.Forall₂ (· ⊆ ·) (Expr.keptEach es) (values.map shown) := by
  have hall := Sql.forall₂_renderAll h
  clear h
  rw [Expr.keptEach_eq_map]
  induction hall with
  | nil => exact .nil
  | cons hv _ ih =>
    obtain ⟨he, hes⟩ := List.forall_mem_cons.1 hes
    exact .cons (he _ hv) (ih hes)

theorem shown_renderComparison {op : ComparisonOp} {left : Expr} {right v : Value} {rightNames : List String}
    (hl : left.Shown) (hr : rightNames ⊆ right.shown)
    (h : Expr.renderComparison op left left.render right = .ok v) :
    Expr.comparisonNames left left.kept rightNames ⊆ v.shown := by
  obtain ⟨path, rfl, rfl⟩ | ⟨hcomposite, l, hleft, rfl⟩ := Sql.renderComparison_eq_ok h
  · rw [shown_entry]
    refine entryNames_mono (.cons ?_ .nil)
    rwa [shown_comparison]
  · have hnames : Expr.comparisonNames left left.kept rightNames = left.kept ++ rightNames := by
      cases left with
      | member => cases hcomposite
      | _ => rfl
    rw [hnames, shown_comparison]
    exact append_subset_shown (hl l hleft) hr

theorem shown_call {name : String} {args : List Expr} (ha : ∀ e ∈ args, e.Shown) : (Expr.call name args).Shown := by
  intro v h
  rw [Expr.render] at h
  obtain ⟨values, hvalues, h⟩ := bind_eq_ok.1 h
  have hall := forall₂_shown ha hvalues
  split at h
  · cases h
  · cases h
    rw [Expr.kept, shown_entry]
    rcases values with _ | ⟨value, _ | ⟨second, rest⟩⟩
    · exact entryNames_mono hall
    · cases Sql.forall₂_renderAll hvalues with
      | @cons e _ _ _ hv hnil =>
        cases hnil
        -- one argument that is a list is taken for the list of arguments
        rcases operands_or_kept hv with hsingle | hnone
        · have hoperands : operands (Expr.argumentValue [value]) = [value] := hsingle
          rw [hoperands]
          exact entryNames_mono hall
        · have hempty := entryNames_subset (isOperatorKey_dollar name) (Expr.keptEach [e])
          rw [Expr.keptEach, Expr.keptEach, hnone, List.flatten_singleton] at hempty
          rw [Expr.keptEach, Expr.keptEach, hnone]
          exact List.Subset.trans hempty (List.nil_subset _)
    · exact entryNames_mono hall

theorem entryNames_subset_shownUnder {entries : List (String × Value)} {value : Value} (h : (key, value) ∈ entries) :
    entryNames key ((operands value).map shown) ⊆ Value.shownUnder entries := by
  induction entries with
  | nil => cases h
  | cons entry rest ih =>
    rw [Value.shownUnder_cons]
    rcases List.mem_cons.1 h with rfl | h
    · exact List.subset_append_left _ _
    · exact List.subset_append_of_subset_right _ (ih h)

theorem unreplaced_subset_shown {e : Expr} {value : Value} (he : e.Shown) (hv : e.render = .ok value)
    (front back : List (String × Value)) :
    Expr.unreplaced key (back.map Prod.fst) e.kept ⊆
      (Value.object (Entries.ofList (front ++ (key, value) :: back))).shown := by
  unfold Expr.unreplaced
  split
  · exact List.nil_subset _
  · next hstays =>
    rw [not_or] at hstays
    rcases operands_or_kept hv with hsingle | hnone
    · have hshown : e.kept ⊆ entryNames key ((operands value).map shown) := by
        rw [hsingle, List.map_singleton, entryNames, if_neg hstays.1, writtenUnder_singleton, List.flatten_singleton]
        exact List.subset_append_of_subset_right _ (he value hv)
      rw [shown]
      exact List.Subset.trans hshown (entryNames_subset_shownUnder (Entries.mem_ofList hstays.2))
    · rw [hnone]
      exact List.nil_subset _

/-- A key is shown, whatever is under it. -/
theorem entryNames_nil_subset_shown {list : List (String × Value)} (h : key ∈ list.map Prod.fst) :
    entryNames key [] ⊆ (Value.object (Entries.ofList list)).shown := by
  obtain ⟨value, hvalue⟩ := Entries.exists_mem_ofList h
  rw [shown]
  have hkey : entryNames key [] ⊆ entryNames key ((operands value).map shown) := by
    unfold entryNames
    split
    · exact List.Subset.refl _
    · have hnone : writtenUnder key ([] : List (List String)) = [] := List.subset_nil.1 (writtenUnder_subset key [])
      rw [hnone, List.flatten_nil, List.append_nil]
      exact List.subset_append_left _ _
  exact List.Subset.trans hkey (entryNames_subset_shownUnder hvalue)

theorem map_fst_of_renderItems {items : List Expr} {index : Nat} {entries : List (String × Value)}
    (h : Expr.renderItems index items = .ok entries) : entries.map Prod.fst = Expr.itemKeys index items := by
  induction items generalizing index entries with
  | nil =>
    rw [Expr.renderItems] at h
    cases h
    rfl
  | cons e items ih =>
    rw [Expr.renderItems] at h
    obtain ⟨key, hkey, h⟩ := bind_eq_ok.1 h
    obtain ⟨value, -, h⟩ := bind_eq_ok.1 h
    obtain ⟨rest, hrest, h⟩ := bind_eq_ok.1 h
    cases h
    rw [List.map_cons, ih hrest, Expr.itemKeys, Expr.itemKey, hkey]
    rfl

theorem keptItems_subset_shown {items : List Expr} (hitems : ∀ e ∈ items, e.Shown) {index : Nat}
    {entries : List (String × Value)} (h : Expr.renderItems index items = .ok entries) (front : List (String × Value)) :
    Expr.keptItems index items ⊆ (Value.object (Entries.ofList (front ++ entries))).shown := by
  induction items generalizing index entries front with
  | nil =>
    rw [Expr.keptItems]
    exact List.nil_subset _
  | cons e items ih =>
    obtain ⟨he, hitems⟩ := List.forall_mem_cons.1 hitems
    rw [Expr.renderItems] at h
    obtain ⟨key, hkey, h⟩ := bind_eq_ok.1 h
    obtain ⟨value, hvalue, h⟩ := bind_eq_ok.1 h
    obtain ⟨rest, hrest, h⟩ := bind_eq_ok.1 h
    cases h
    have hmore := ih hitems hrest (front ++ [(key, value)])
    rw [List.append_assoc, List.singleton_append] at hmore
    rw [Expr.keptItems]
    refine List.append_subset.2 ⟨?_, hmore⟩
    have hitem : Expr.itemKey index e = key := by
      rw [Expr.itemKey, hkey]
      rfl
    rw [hitem, ← map_fst_of_renderItems hrest]
    cases e with
    | member path =>
      cases hkey
      exact entryNames_nil_subset_shown (by simp)
    | call => exact unreplaced_subset_shown he hvalue front rest
    | _ => cases hkey

theorem map_fst_of_renderMembers {members : List (String × Expr)} {entries : List (String × Value)}
    (h : Expr.renderMembers members = .ok entries) : entries.map Prod.fst = members.map Prod.fst := by
  induction members generalizing entries with
  | nil =>
    rw [Expr.renderMembers] at h
    cases h
    rfl
  | cons member members ih =>
    obtain ⟨value, -, rest, hrest, rfl⟩ := renderMembers_cons h
    rw [List.map_cons, List.map_cons, ih hrest]

theorem keptUnder_subset_shown {members : List (String × Expr)} (hmembers : ∀ member ∈ members, member.2.Shown)
    {entries : List (String × Value)} (h : Expr.renderMembers members = .ok entries) (front : List (String × Value)) :
    Expr.keptUnder members ⊆ (Value.object (Entries.ofList (front ++ entries))).shown := by
  induction members generalizing entries front with
  | nil =>
    rw [Expr.keptUnder]
    exact List.nil_subset _
  | cons member members ih =>
    obtain ⟨key, e⟩ := member
    obtain ⟨he, hmembers⟩ := List.forall_mem_cons.1 hmembers
    obtain ⟨value, hvalue, rest, hrest, rfl⟩ := renderMembers_cons h
    have hmore := ih hmembers hrest (front ++ [(key, value)])
    rw [List.append_assoc, List.singleton_append] at hmore
    rw [Expr.keptUnder, ← map_fst_of_renderMembers hrest]
    exact List.append_subset.2 ⟨unreplaced_subset_shown he hvalue front rest, hmore⟩

mutual

theorem kept_subset_shown : (e : Expr) → e.Shown
  | .member path => by
    intro v h
    cases h
    rw [Expr.kept, shown]
    exact List.Subset.refl _
  | .literal value => by
    intro v h
    rw [Expr.kept]
    exact List.nil_subset _
  | .arithmetic op left right => by
    intro v h
    rw [Expr.render] at h
    obtain ⟨l, hl, h⟩ := bind_eq_ok.1 h
    obtain ⟨r, hr, h⟩ := bind_eq_ok.1 h
    cases h
    rw [Expr.kept, shown_arithmetic]
    exact append_subset_shown (kept_subset_shown left l hl) (kept_subset_shown right r hr)
  | .comparison op left none => by
    intro v h
    rw [Expr.render] at h
    rw [Expr.kept]
    exact shown_renderComparison (kept_subset_shown left) (List.nil_subset _) h
  | .comparison op left (some right) => by
    intro v h
    rw [Expr.render] at h
    obtain ⟨r, hr, h⟩ := bind_eq_ok.1 h
    rw [Expr.kept]
    exact shown_renderComparison (kept_subset_shown left) (kept_subset_shown right r hr) h
  | .logical op args => by
    intro v h
    rw [Expr.render] at h
    split at h
    · cases h
    · obtain ⟨values, hvalues, h⟩ := bind_eq_ok.1 h
      cases h
      rw [Expr.kept, shown_logical, shown, Value.shownEach_eq_map]
      exact flatten_subset_flatten (forall₂_shown (kept_subset_shown_of_mem args) hvalues)
  | .call name args => shown_call (kept_subset_shown_of_mem args)
  | .sequence items => by
    intro v h
    rw [Expr.render] at h
    obtain ⟨entries, hentries, h⟩ := bind_eq_ok.1 h
    cases h
    rw [Expr.kept]
    exact keptItems_subset_shown (kept_subset_shown_of_mem items) hentries []
  | .object members => by
    intro v h
    rw [Expr.render] at h
    obtain ⟨entries, hentries, h⟩ := bind_eq_ok.1 h
    cases h
    rw [Expr.kept]
    exact keptUnder_subset_shown (kept_subset_shown_of_mem_entries members) hentries []

theorem kept_subset_shown_of_mem : (es : List Expr) → ∀ e ∈ es, e.Shown
  | [] => List.forall_mem_nil _
  | e :: es => List.forall_mem_cons.2 ⟨kept_subset_shown e, kept_subset_shown_of_mem es⟩

theorem kept_subset_shown_of_mem_entries : (entries : List (String × Expr)) → ∀ entry ∈ entries, entry.2.Shown
  | [] => List.forall_mem_nil _
  | (_, e) :: entries => List.forall_mem_cons.2 ⟨kept_subset_shown e, kept_subset_shown_of_mem_entries entries⟩

end

end

/-! ### Trees that keep all their members -/

section

open SqlQuery.Expr (kept members withinLimits)

variable {e : Expr}

/-- The comparison of a member that is no operator has it for a column. -/
theorem comparisonNames_eq {left : Expr} (hm : ∀ name ∈ left.members, isOperatorKey name = false)
    (hl : left.kept = left.members) (names : List String) :
    Expr.comparisonNames left left.kept names = left.members ++ names := by
  cases left with
  | member path =>
    have hpath : isOperatorKey path = false := hm path (by simp [members])
    have hhidden : path ∉ hiddenKeys := by
      intro hmem
      have hkeys : ∀ key ∈ hiddenKeys, isOperatorKey key = true := by decide
      rw [hkeys path hmem] at hpath
      cases hpath
    rw [members, Expr.comparisonNames, entryNames, if_neg hhidden, if_neg (by simp [hpath]), writtenUnder_singleton,
      List.flatten_singleton]
  | _ => rw [← hl]; rfl

mutual

theorem kept_eq_members : (e : Expr) → e.withinLimits = true → (∀ name ∈ e.members, isOperatorKey name = false) →
    e.kept = e.members
  | .member path, _, _ => by rw [kept, members]
  | .literal _, _, _ => by rw [kept, members]
  | .arithmetic _ left right, he, hm => by
    rw [withinLimits, Bool.and_eq_true] at he
    rw [members] at hm
    obtain ⟨hml, hmr⟩ := List.forall_mem_append.1 hm
    rw [kept, members, kept_eq_members left he.1 hml, kept_eq_members right he.2 hmr]
  | .comparison _ left none, he, hm => by
    rw [withinLimits] at he
    rw [members] at hm
    rw [kept, members, comparisonNames_eq hm (kept_eq_members left he hm), List.append_nil]
  | .comparison _ left (some right), he, hm => by
    rw [withinLimits, Bool.and_eq_true] at he
    rw [members] at hm
    obtain ⟨hml, hmr⟩ := List.forall_mem_append.1 hm
    rw [kept, members, kept_eq_members right he.2 hmr, comparisonNames_eq hml (kept_eq_members left he.1 hml)]
  | .logical _ args, he, hm => by
    rw [withinLimits] at he
    rw [members] at hm
    rw [kept, members, flatten_keptEach args he hm]
  | .call name args, he, hm => by
    rw [withinLimits, Bool.and_eq_true, Bool.and_eq_true, decide_eq_true_eq] at he
    obtain ⟨⟨hhidden, hlimit⟩, hargs⟩ := he
    rw [members] at hm
    have hlength : (Expr.keptEach args).length = args.length := by rw [Expr.keptEach_eq_map, List.length_map]
    rw [kept, members, entryNames_eq_flatten (isOperatorKey_dollar name) hhidden (by rwa [hlength]),
      flatten_keptEach args hargs hm]
  | .sequence _, he, _ | .object _, he, _ => by
    rw [withinLimits] at he
    cases he

theorem flatten_keptEach : (es : List Expr) → Expr.allWithinLimits es = true →
    (∀ name ∈ Expr.membersOf es, isOperatorKey name = false) → (Expr.keptEach es).flatten = Expr.membersOf es
  | [], _, _ => by rw [Expr.keptEach, Expr.membersOf, List.flatten_nil]
  | e :: es, he, hm => by
    rw [Expr.allWithinLimits, Bool.and_eq_true] at he
    rw [Expr.membersOf] at hm
    obtain ⟨hme, hmes⟩ := List.forall_mem_append.1 hm
    rw [Expr.keptEach, Expr.membersOf, List.flatten_cons, kept_eq_members e he.1 hme, flatten_keptEach es he.2 hmes]

end

theorem le_limit {m : Method} {count n : Nat} (ha : (Filter.arity m).admits count = true) (hl : m.limit? = some n) :
    count ≤ n := by
  cases m <;> cases hl <;> simp [Filter.arity, Filter.Arity.admits] at ha <;> omega

theorem allWithinLimits_of_forall {es : List Expr} (h : ∀ e ∈ es, e.withinLimits = true) :
    Expr.allWithinLimits es = true := by
  induction es with
  | nil => rw [Expr.allWithinLimits]
  | cons e es ih =>
    obtain ⟨he, hes⟩ := List.forall_mem_cons.1 h
    rw [Expr.allWithinLimits, he, ih hes]
    rfl

/-- The arity that the grammar asks for is within the limits. -/
theorem Filter.withinLimits_of_grammatical (he : Grammatical e) : e.withinLimits = true := by
  induction he with
  | member | literal => rw [withinLimits]
  | arithmetic _ _ _ ihl ihr | comparison _ _ _ ihl ihr =>
    rw [withinLimits, ihl, ihr]
    rfl
  | membership _ _ ihl =>
    rw [withinLimits, withinLimits, ihl]
    rfl
  | chain _ _ _ ih =>
    rw [withinLimits]
    exact allWithinLimits_of_forall ih
  | negation _ ih =>
    rw [withinLimits]
    exact allWithinLimits_of_forall (List.forall_mem_singleton.2 ih)
  | @call c args hc hadmits _ ih =>
    have hhidden : ∀ c ∈ vocabulary, "$" ++ c.name ∉ hiddenKeys := by decide
    obtain ⟨-, -, -, m, hm, -, harity⟩ := Sql.method_of_vocabulary hc
    rw [← harity] at hadmits
    rw [withinLimits, allWithinLimits_of_forall ih, hm, Option.bind_some, Bool.and_true, Bool.and_eq_true,
      decide_eq_true_eq]
    refine ⟨hhidden c hc, ?_⟩
    cases hlimit : m.limit? with
    | none => rfl
    | some n => simpa using le_limit hadmits hlimit

end

/-! ### Members in SQL -/

namespace Sql

/-- The text is in the SQL outside of literals, and set off on both sides. -/
def Mentions (d : Dialect) (s sql : String) : Prop :=
  ∃ before after, sql = before ++ s ++ after ∧ (scan d before).1 = .outside ∧
    before.toList.getLast?.any isOpener = true ∧ after.toList.head?.any isCloser = true

theorem mentions_group {d : Dialect} {s sql : String} (h : Stands d s sql) : Mentions d s ("(" ++ sql ++ ")") := by
  obtain ⟨before, after, rfl, hbefore, hlast, hhead⟩ := h
  refine ⟨"(" ++ before, after ++ ")", by simp [String.append_assoc], ?_, ?_, ?_⟩
  · rw [scan_append (.inl (by rw [scan_of_not_mem (by decide)]))]
    exact hbefore
  · rw [String.toList_append, List.getLast?_append]
    cases hl : before.toList.getLast? with
    | none => rfl
    | some c => simpa [hl] using hlast
  · rw [String.toList_append, List.head?_append]
    cases hh : after.toList.head? with
    | none => rfl
    | some c => simpa [hh] using hhead

/-- What a document shows is mentioned in its SQL. -/
theorem mentions_of_shown {f : Formatter} (hf : '\x27' ∉ f.style.nameFormat.toList) {document : Value} {sql : String}
    (hn : Unquoted document.names) (h : f.filter document = .ok sql) :
    ∀ name ∈ document.shown, Mentions f.dialect (f.style.name name) sql := by
  obtain ⟨c, hc, h⟩ := bind_eq_ok.1 h
  cases h
  intro name hname
  rw [Condition.text_group]
  exact mentions_group ((shows_filterIn hf document hn hc).stands name hname)

end Sql

open SqlQuery.Sql (Formatter Mentions)

/-- Each name is mentioned in the SQL. -/
def Mentioned (f : Formatter) (sql : String) (names : List String) : Prop :=
  ∀ name ∈ names, Mentions f.dialect (f.style.name name) sql

/-- The members that a tree keeps are mentioned, which are all of them in a filter without members that look like
operators, and in a closure without those, without objects and sequences, and without arguments that are not written. -/
theorem members_mentioned {f : Formatter} (hf : '\x27' ∉ f.style.nameFormat.toList) {e : Expr} {document : Value}
    {sql : String} (hdocument : e.render = .ok document) (hsql : f.filter document = .ok sql) :
    (∀ text, Filter.parse text = .ok e → Mentioned f sql e.kept ∧
      ((∀ name ∈ e.members, isOperatorKey name = false) → Mentioned f sql e.members)) ∧
    ∀ c : Closure, c.translateFilter = .ok e → (∀ entry ∈ c.collections, '\x27' ∉ entry.2.outputName.toList) →
      Unquoted e.objectKeys → Mentioned f sql e.kept ∧
        (e.withinLimits = true → (∀ name ∈ e.members, isOperatorKey name = false) → Mentioned f sql e.members) := by
  have hkept : Unquoted e.names → Mentioned f sql e.kept := by
    intro hnames name hname
    have hunquoted := unquoted_of_render e hnames document hdocument
    exact Sql.mentions_of_shown hf hunquoted hsql name (kept_subset_shown e document hdocument hname)
  constructor
  · intro text hparse
    have hgrammatical := Filter.grammatical_of_parse hparse
    have hall := hkept (Filter.unquoted_names hgrammatical)
    refine ⟨hall, fun hm => ?_⟩
    rwa [← kept_eq_members e (Filter.withinLimits_of_grammatical hgrammatical) hm]
  · intro c htranslate hcollections hkeys
    have hgrammatical := Closure.grammatical_of_translateFilter htranslate
    have hall := hkept (Closure.unquoted_names hgrammatical hcollections hkeys)
    refine ⟨hall, fun hwithin hm => ?_⟩
    rwa [← kept_eq_members e hwithin hm]

/-- A filter and a closure with the same tree. -/
theorem members_mentioned_comparison :
    ∃ e document, Filter.parse "trim(a) eq b" = .ok e ∧
      Closure.translateFilter ⟨"|x| (x.a.trim() == x.b)", []⟩ = .ok e ∧ e.render = .ok document ∧
      Formatter.filter {} document = .ok "(TRIM(a)=b)" ∧ Mentioned {} "(TRIM(a)=b)" e.kept ∧
      Mentioned {} "(TRIM(a)=b)" ["a", "b"] := by
  have hmember : ∀ path ∈ ["a", "b"], Closure.Shared (.member path) := by
    intro path hpath
    simp only [List.mem_cons, List.not_mem_nil, or_false] at hpath
    rcases hpath with rfl | rfl <;> exact .member (by decide) (by decide) (by decide) (by decide)
  have htrim : Closure.Shared (.call "trim" [.member "a"]) :=
    .call (c := ⟨"trim", "trim", .exactly 1⟩) (by decide) (by decide) rfl
      (List.forall_mem_singleton.2 (hmember _ (by decide)))
  have hshared : Closure.Shared (.comparison .eq _ (some (.member "b"))) :=
    .comparison (by decide) htrim (hmember _ (by decide))
  obtain ⟨e, document, hshared, hheight, htext, hsource, hcondition, hkeys, hmembers, hdocument, hsql⟩ :
      ∃ e document, Closure.Shared e ∧ 2 * e.height < Expr.maxHeight ∧
        Filter.printText .minimal e = "trim(a) eq b" ∧ Closure.printText .usual e = "|x| (x.a.trim() == x.b)" ∧
        Closure.predicate (Closure.unwrapSingle e) = e ∧ e.objectKeys = [] ∧ e.members = ["a", "b"] ∧
        e.render = .ok document ∧ Formatter.filter {} document = .ok "(TRIM(a)=b)" :=
    ⟨_, _, hshared, by decide, by decide +kernel, by decide +kernel, rfl, rfl, rfl, rfl,
      eq_ok_of_toOption (by decide +kernel)⟩
  have hparse : Filter.parse "trim(a) eq b" = .ok e := by
    rw [← htext]
    exact Filter.parse_printText .minimal hshared.printable (Nat.le_of_lt hheight)
  have htranslate : Closure.translateFilter ⟨"|x| (x.a.trim() == x.b)", []⟩ = .ok e := by
    rw [Closure.translateFilter, ← hsource, Closure.translate_printText .usual [] hshared hheight]
    exact congrArg Except.ok hcondition
  obtain ⟨hfilter, hclosure⟩ := members_mentioned (f := {}) (by decide) hdocument hsql
  refine ⟨e, document, hparse, htranslate, hdocument, hsql, ?_, ?_⟩
  · exact (hclosure _ htranslate (List.forall_mem_nil _) (by rw [hkeys]; exact List.forall_mem_nil _)).1
  · rw [← hmembers]
    exact (hfilter _ hparse).2 (by rw [hmembers]; decide)

/-- An argument that is not written is lost with its members. -/
theorem second_argument_not_mentioned :
    ∃ e document, Closure.translateFilter ⟨"|x| x.a.trim(x.b) == 1", []⟩ = .ok e ∧ e.render = .ok document ∧
      Formatter.filter {} document = .ok "(TRIM(a)=1)" ∧ "b" ∈ e.members ∧
      ¬ Mentions ({} : Formatter).dialect (({} : Formatter).style.name "b") "(TRIM(a)=1)" := by
  have hrun : (Closure.translateFilter ⟨"|x| x.a.trim(x.b) == 1", []⟩).toOption.map (fun e =>
      (e.members, e.render.toOption.map fun document => (Formatter.filter {} document).toOption)) =
        some (["a", "b"], some (some "(TRIM(a)=1)")) := by decide +kernel
  obtain ⟨e, he, hpair⟩ := Option.map_eq_some_iff.1 hrun
  obtain ⟨hmembers, hrender⟩ := Prod.mk.inj hpair
  obtain ⟨document, hdocument, hsql⟩ := Option.map_eq_some_iff.1 hrender
  refine ⟨e, document, eq_ok_of_toOption he, eq_ok_of_toOption hdocument, eq_ok_of_toOption hsql, ?_, ?_⟩
  · rw [hmembers]
    decide
  · rintro ⟨before, after, hsplit, -⟩
    have hname : ({} : Formatter).style.name "b" = "b" := by decide +kernel
    have hmem : 'b' ∈ "(TRIM(a)=1)".toList := by
      rw [hsplit, hname]
      simp
    revert hmem
    decide

end SqlQuery
