import Mathlib
import SqlQuery.Proofs.ClosureTrees
import SqlQuery.Proofs.ComputedLabels
import SqlQuery.Proofs.ShownNames

/-!
# Names without quotes

The names of a document come from its tree: paths, methods, the keys of objects and the names in literals. None has a
quote in it if the tree is read from text (`Filter.unquoted_names`). In the tree of a closure a quote can only come from
the name of a collection or from the key of an object, which can be any string (`Closure.unquoted_names`).
-/

namespace SqlQuery

namespace Expr

mutual

/-- The paths, methods and keys of a tree, and the names in its literals. -/
def names : Expr → List String
  | .member path => [path]
  | .literal value => value.names
  | .arithmetic _ left right => left.names ++ right.names
  | .comparison _ left none => left.names
  | .comparison _ left (some right) => left.names ++ right.names
  | .logical _ args => namesOf args
  | .call name args => name :: namesOf args
  | .sequence items => namesOf items
  | .object entries => namesUnder entries

def namesOf : List Expr → List String
  | [] => []
  | e :: es => e.names ++ namesOf es

def namesUnder : List (String × Expr) → List String
  | [] => []
  | (key, e) :: entries => key :: e.names ++ namesUnder entries

end

mutual

/-- The keys of the objects in a tree. -/
def objectKeys : Expr → List String
  | .member _ | .literal _ => []
  | .arithmetic _ left right => left.objectKeys ++ right.objectKeys
  | .comparison _ left none => left.objectKeys
  | .comparison _ left (some right) => left.objectKeys ++ right.objectKeys
  | .logical _ args => objectKeysOf args
  | .call _ args => objectKeysOf args
  | .sequence items => objectKeysOf items
  | .object entries => objectKeysUnder entries

def objectKeysOf : List Expr → List String
  | [] => []
  | e :: es => e.objectKeys ++ objectKeysOf es

def objectKeysUnder : List (String × Expr) → List String
  | [] => []
  | (key, e) :: entries => key :: e.objectKeys ++ objectKeysUnder entries

end

end Expr

theorem quote_not_mem_append {s t : String} (hs : '\x27' ∉ s.toList) (ht : '\x27' ∉ t.toList) :
    '\x27' ∉ (s ++ t).toList := by
  rw [String.toList_append, List.mem_append, not_or]
  exact ⟨hs, ht⟩

/-! ### Documents -/

theorem Value.names_entry (key : String) (arg : Value) : (entry key arg).names = key :: arg.names := by
  rw [entry, names, namesUnder, namesUnder, List.append_nil]

theorem unquoted_entry {key : String} {arg : Value} (hk : '\x27' ∉ key.toList) (ha : Unquoted arg.names) :
    Unquoted (Value.entry key arg).names := by
  rw [Value.names_entry]
  exact List.forall_mem_cons.2 ⟨hk, ha⟩

theorem unquoted_array {values : List Value} (h : ∀ v ∈ values, Unquoted v.names) :
    Unquoted (Value.array values).names := by
  rw [Value.names]
  induction values with
  | nil =>
    rw [Value.namesOf]
    exact List.forall_mem_nil _
  | cons v values ih =>
    obtain ⟨hv, hvalues⟩ := List.forall_mem_cons.1 h
    rw [Value.namesOf]
    exact List.forall_mem_append.2 ⟨hv, ih hvalues⟩

theorem unquoted_pair {left right : Value} (hl : Unquoted left.names) (hr : Unquoted right.names) :
    Unquoted (Value.array [left, right]).names :=
  unquoted_array (List.forall_mem_cons.2 ⟨hl, List.forall_mem_singleton.2 hr⟩)

/-- Neither the key nor the value of an entry has a quote in a name. -/
def UnquotedEntry (entry : String × Value) : Prop := '\x27' ∉ entry.1.toList ∧ Unquoted entry.2.names

theorem unquoted_object {entries : List (String × Value)} (h : ∀ entry ∈ entries, UnquotedEntry entry) :
    Unquoted (Value.object entries).names := by
  rw [Value.names]
  induction entries with
  | nil =>
    rw [Value.namesUnder]
    exact List.forall_mem_nil _
  | cons entry entries ih =>
    obtain ⟨⟨hkey, hvalue⟩, hentries⟩ := List.forall_mem_cons.1 h
    rw [Value.namesUnder]
    exact List.forall_mem_append.2 ⟨List.forall_mem_cons.2 ⟨hkey, hvalue⟩, ih hentries⟩

theorem unquoted_ofList {entries : List (String × Value)} (h : ∀ entry ∈ entries, UnquotedEntry entry) :
    Unquoted (Value.object (Entries.ofList entries)).names := by
  refine unquoted_object fun entry hentry => ?_
  rcases Entries.mem_of_mem_insertAll hentry with hentry | hentry
  · exact h entry hentry
  · cases hentry

theorem unquoted_renderComparison {op : ComparisonOp} {left : Expr} {rendered : Except RenderError Value}
    {right v : Value} (hm : Unquoted left.names) (hl : ∀ l, rendered = .ok l → Unquoted l.names)
    (hr : Unquoted right.names) (h : Expr.renderComparison op left rendered right = .ok v) : Unquoted v.names := by
  have hkey : '\x27' ∉ op.key.toList := by cases op <;> decide
  obtain ⟨path, rfl, rfl⟩ | ⟨-, l, hleft, rfl⟩ := Sql.renderComparison_eq_ok h
  · exact unquoted_entry (hm path (by simp [Expr.names])) (unquoted_entry hkey hr)
  · exact unquoted_entry hkey (unquoted_pair (hl l hleft) hr)

theorem unquoted_sequenceKey {index : Nat} {e : Expr} {key : String} (he : Unquoted e.names)
    (h : Expr.sequenceKey index e = .ok key) : '\x27' ∉ key.toList := by
  cases e with
  | member path =>
    cases h
    exact he key (by simp [Expr.names])
  | call name args =>
    cases h
    refine quote_not_mem_append (fun hmem => ?_) fun hmem => ?_
    · rw [Expr.shortName, String.toList_ofList, List.mem_reverse] at hmem
      exact he name (by simp [Expr.names]) (List.mem_reverse.1 (List.takeWhile_subset _ hmem))
    · exact absurd (isDigit_of_mem_natText hmem) (by decide)
  | _ => cases h

theorem renderMembers_cons {key : String} {e : Expr} {members : List (String × Expr)} {entries : List (String × Value)}
    (h : Expr.renderMembers ((key, e) :: members) = .ok entries) :
    ∃ value, e.render = .ok value ∧ ∃ rest, Expr.renderMembers members = .ok rest ∧ entries = (key, value) :: rest := by
  rw [Expr.renderMembers.eq_def] at h
  split at h
  · next heq => cases heq
  · cases h
  · next heq =>
    cases heq
    obtain ⟨value, hvalue, h⟩ := bind_eq_ok.1 h
    obtain ⟨rest, hrest, h⟩ := bind_eq_ok.1 h
    cases h
    exact ⟨value, hvalue, rest, hrest, rfl⟩

mutual

/-- A document has no quotes in its names if its tree has none. -/
theorem unquoted_of_render : (e : Expr) → Unquoted e.names → ∀ v, e.render = .ok v → Unquoted v.names
  | .member path, he, v, h => by
    cases h
    rwa [Expr.names] at he
  | .literal value, he, v, h => by
    cases h
    rwa [Expr.names] at he
  | .arithmetic op left right, he, v, h => by
    have hkey : '\x27' ∉ op.key.toList := by cases op <;> decide
    rw [Expr.names] at he
    obtain ⟨hel, her⟩ := List.forall_mem_append.1 he
    rw [Expr.render] at h
    obtain ⟨l, hl, h⟩ := bind_eq_ok.1 h
    obtain ⟨r, hr, h⟩ := bind_eq_ok.1 h
    cases h
    exact unquoted_entry hkey (unquoted_pair (unquoted_of_render left hel l hl) (unquoted_of_render right her r hr))
  | .comparison op left none, he, v, h => by
    rw [Expr.names] at he
    rw [Expr.render] at h
    refine unquoted_renderComparison he (unquoted_of_render left he) ?_ h
    rw [Value.names.eq_def]
    exact List.forall_mem_nil _
  | .comparison op left (some right), he, v, h => by
    rw [Expr.names] at he
    obtain ⟨hel, her⟩ := List.forall_mem_append.1 he
    rw [Expr.render] at h
    obtain ⟨r, hr, h⟩ := bind_eq_ok.1 h
    exact unquoted_renderComparison hel (unquoted_of_render left hel) (unquoted_of_render right her r hr) h
  | .logical op args, he, v, h => by
    have hkey : '\x27' ∉ op.key.toList := by cases op <;> decide
    rw [Expr.names] at he
    rw [Expr.render] at h
    split at h
    · cases h
    · obtain ⟨values, hvalues, h⟩ := bind_eq_ok.1 h
      cases h
      exact unquoted_entry hkey (unquoted_array (unquoted_of_renderAll args he values hvalues))
  | .call name args, he, v, h => by
    rw [Expr.names] at he
    obtain ⟨hname, he⟩ := List.forall_mem_cons.1 he
    rw [Expr.render] at h
    obtain ⟨values, hvalues, h⟩ := bind_eq_ok.1 h
    have hall := unquoted_of_renderAll args he values hvalues
    split at h
    · cases h
    · cases h
      refine unquoted_entry (quote_not_mem_append (by decide) hname) ?_
      unfold Expr.argumentValue
      split
      · exact hall _ (List.mem_singleton_self _)
      · exact unquoted_array hall
  | .sequence items, he, v, h => by
    rw [Expr.names] at he
    rw [Expr.render] at h
    obtain ⟨entries, hentries, h⟩ := bind_eq_ok.1 h
    cases h
    exact unquoted_ofList (unquoted_of_renderItems items he 0 entries hentries)
  | .object members, he, v, h => by
    rw [Expr.names] at he
    rw [Expr.render] at h
    obtain ⟨entries, hentries, h⟩ := bind_eq_ok.1 h
    cases h
    exact unquoted_ofList (unquoted_of_renderMembers members he entries hentries)

theorem unquoted_of_renderAll : (es : List Expr) → Unquoted (Expr.namesOf es) → ∀ values,
    Expr.renderAll es = .ok values → ∀ v ∈ values, Unquoted v.names
  | [], _, values, h => by
    rw [Expr.renderAll] at h
    cases h
    exact List.forall_mem_nil _
  | e :: es, he, values, h => by
    rw [Expr.namesOf] at he
    obtain ⟨he, hes⟩ := List.forall_mem_append.1 he
    rw [Expr.renderAll] at h
    obtain ⟨v, hv, h⟩ := bind_eq_ok.1 h
    obtain ⟨more, hmore, h⟩ := bind_eq_ok.1 h
    cases h
    exact List.forall_mem_cons.2 ⟨unquoted_of_render e he v hv, unquoted_of_renderAll es hes more hmore⟩

theorem unquoted_of_renderItems : (items : List Expr) → Unquoted (Expr.namesOf items) → ∀ index entries,
    Expr.renderItems index items = .ok entries → ∀ entry ∈ entries, UnquotedEntry entry
  | [], _, index, entries, h => by
    rw [Expr.renderItems] at h
    cases h
    exact List.forall_mem_nil _
  | e :: items, he, index, entries, h => by
    rw [Expr.namesOf] at he
    obtain ⟨he, hitems⟩ := List.forall_mem_append.1 he
    rw [Expr.renderItems] at h
    obtain ⟨key, hkey, h⟩ := bind_eq_ok.1 h
    obtain ⟨v, hv, h⟩ := bind_eq_ok.1 h
    obtain ⟨more, hmore, h⟩ := bind_eq_ok.1 h
    cases h
    refine List.forall_mem_cons.2
      ⟨⟨unquoted_sequenceKey he hkey, ?_⟩, unquoted_of_renderItems items hitems (index + 1) more hmore⟩
    cases e with
    | member =>
      cases hv
      rw [Value.names.eq_def]
      exact List.forall_mem_nil _
    | _ => exact unquoted_of_render _ he v hv

theorem unquoted_of_renderMembers : (members : List (String × Expr)) → Unquoted (Expr.namesUnder members) →
    ∀ entries, Expr.renderMembers members = .ok entries → ∀ entry ∈ entries, UnquotedEntry entry
  | [], _, entries, h => by
    rw [Expr.renderMembers] at h
    cases h
    exact List.forall_mem_nil _
  | (key, e) :: members, he, entries, h => by
    rw [Expr.namesUnder] at he
    obtain ⟨hkey, he⟩ := List.forall_mem_cons.1 he
    obtain ⟨he, hmembers⟩ := List.forall_mem_append.1 he
    obtain ⟨v, hv, more, hmore, rfl⟩ := renderMembers_cons h
    exact List.forall_mem_cons.2
      ⟨⟨hkey, unquoted_of_render e he v hv⟩, unquoted_of_renderMembers members hmembers more hmore⟩

end

/-! ### Trees -/

theorem unquoted_namesOf {es : List Expr} (h : ∀ e ∈ es, Unquoted e.names) : Unquoted (Expr.namesOf es) := by
  induction es with
  | nil =>
    rw [Expr.namesOf]
    exact List.forall_mem_nil _
  | cons e es ih =>
    obtain ⟨he, hes⟩ := List.forall_mem_cons.1 h
    rw [Expr.namesOf]
    exact List.forall_mem_append.2 ⟨he, ih hes⟩

theorem unquoted_of_isLiteral {value : Value} (h : Filter.isLiteral value = true) : Unquoted value.names := by
  cases value with
  | array | object | ref => cases h
  | _ =>
    rw [Value.names.eq_def]
    exact List.forall_mem_nil _

theorem Filter.quote_not_mem_path {path : String} (h : (segments path).all isName = true) : '\x27' ∉ path.toList := by
  have hword : isWordChar '\x27' = false := by decide
  intro hmem
  rcases mem_splitOn '.' hmem with hdot | ⟨piece, hpiece, hmem⟩
  · cases hdot
  · have hname := List.all_eq_true.1 h (String.ofList piece) (List.mem_map_of_mem hpiece)
    rw [isWordChar_of_isName hname (by simpa using hmem)] at hword
    cases hword

/-- The names of a filter's tree have no quotes. -/
theorem Filter.unquoted_names {e : Expr} (he : Grammatical e) : Unquoted e.names := by
  induction he with
  | member hn =>
    rw [Expr.names]
    exact List.forall_mem_singleton.2 (quote_not_mem_path hn)
  | literal hv =>
    rw [Expr.names]
    exact unquoted_of_isLiteral hv
  | arithmetic _ _ _ ihl ihr | comparison _ _ _ ihl ihr =>
    rw [Expr.names]
    exact List.forall_mem_append.2 ⟨ihl, ihr⟩
  | membership _ hv ihl =>
    rw [Expr.names, Expr.names]
    refine List.forall_mem_append.2 ⟨ihl, unquoted_array fun v hmem => ?_⟩
    exact unquoted_of_isLiteral (List.all_eq_true.1 hv v hmem)
  | chain _ _ _ ih =>
    rw [Expr.names]
    exact unquoted_namesOf ih
  | negation _ ih =>
    rw [Expr.names]
    exact unquoted_namesOf (List.forall_mem_singleton.2 ih)
  | @call c args hc _ _ ih =>
    have hnames : ∀ c ∈ vocabulary, '\x27' ∉ c.name.toList := by decide
    rw [Expr.names]
    exact List.forall_mem_cons.2 ⟨hnames c hc, unquoted_namesOf ih⟩

namespace Closure

theorem quote_not_mem_joinWith {words : List String} (h : ∀ word ∈ words, '\x27' ∉ word.toList) :
    '\x27' ∉ (Text.joinWith "." words).toList := by
  fun_induction Text.joinWith "." words with
  | case1 => decide
  | case2 word => exact h word (List.mem_singleton_self word)
  | case3 word next rest ih =>
    obtain ⟨hword, hrest⟩ := List.forall_mem_cons.1 h
    exact quote_not_mem_append (quote_not_mem_append hword (by decide)) (ih hrest)

theorem Constant.unquoted {value : Value} (h : Constant value) : Unquoted value.names := by
  induction h with
  | literal hv => exact unquoted_of_isLiteral hv
  | list _ ih => exact unquoted_array ih

theorem unquoted_of_mem {es : List Expr} {e : Expr} (h : Unquoted (Expr.objectKeysOf es)) (he : e ∈ es) :
    Unquoted e.objectKeys := by
  induction es with
  | nil => cases he
  | cons first es ih =>
    rw [Expr.objectKeysOf] at h
    obtain ⟨hfirst, hes⟩ := List.forall_mem_append.1 h
    rcases List.mem_cons.1 he with rfl | he
    · exact hfirst
    · exact ih hes he

theorem unquoted_namesUnder {entries : List (String × Expr)} (hk : Unquoted (Expr.objectKeysUnder entries))
    (h : ∀ entry ∈ entries, Unquoted entry.2.objectKeys → Unquoted entry.2.names) :
    Unquoted (Expr.namesUnder entries) := by
  induction entries with
  | nil =>
    rw [Expr.namesUnder]
    exact List.forall_mem_nil _
  | cons entry entries ih =>
    rw [Expr.objectKeysUnder] at hk
    obtain ⟨hkey, hk⟩ := List.forall_mem_cons.1 hk
    obtain ⟨hkeys, hk⟩ := List.forall_mem_append.1 hk
    obtain ⟨hentry, hentries⟩ := List.forall_mem_cons.1 h
    rw [Expr.namesUnder]
    exact List.forall_mem_cons.2 ⟨hkey, List.forall_mem_append.2 ⟨hentry hkeys, ih hk hentries⟩⟩

/-- The names of a closure's tree have no quotes, if those of collections and the keys of objects have none. -/
theorem unquoted_names {collections : Entries Collection} {e : Expr} (he : Grammatical collections e)
    (hc : ∀ c ∈ collections, '\x27' ∉ c.2.outputName.toList) (hk : Unquoted e.objectKeys) : Unquoted e.names := by
  induction he with
  | @member owner words ho hw =>
    have howner : ∀ word ∈ owner, '\x27' ∉ word.toList := by
      rcases ho with rfl | ⟨c, hmem, rfl⟩
      · exact List.forall_mem_nil _
      · exact List.forall_mem_singleton.2 (hc c hmem)
    rw [Expr.names]
    exact List.forall_mem_singleton.2 (quote_not_mem_joinWith (List.forall_mem_append.2 ⟨howner, hw⟩))
  | literal hv =>
    rw [Expr.names]
    exact hv.unquoted
  | arithmetic _ _ ihl ihr | comparison _ _ ihl ihr =>
    rw [Expr.objectKeys] at hk
    obtain ⟨hkl, hkr⟩ := List.forall_mem_append.1 hk
    rw [Expr.names]
    exact List.forall_mem_append.2 ⟨ihl hkl, ihr hkr⟩
  | logical _ ih =>
    rw [Expr.objectKeys] at hk
    rw [Expr.names]
    exact unquoted_namesOf fun e he => ih e he (unquoted_of_mem hk he)
  | @call m args _ ih =>
    have hname : '\x27' ∉ m.name.toList := by cases m <;> decide
    rw [Expr.objectKeys] at hk
    rw [Expr.names]
    exact List.forall_mem_cons.2 ⟨hname, unquoted_namesOf fun e he => ih e he (unquoted_of_mem hk he)⟩
  | object _ ih =>
    rw [Expr.objectKeys] at hk
    rw [Expr.names]
    exact unquoted_namesUnder hk ih
  | sequence _ ih =>
    rw [Expr.objectKeys] at hk
    rw [Expr.names]
    exact unquoted_namesOf fun e he => ih e he (unquoted_of_mem hk he)

end Closure

end SqlQuery
