import Mathlib
import SqlQuery.Proofs.BuildHistory
import SqlQuery.Query.Descriptor
import SqlQuery.Sql.Statement

/-!
# What a descriptor tells of a query

A descriptor tells almost everything that the SQL of a query is made of. `Query.untold` is the rest: what a column is, if
its entry looks like another's; numbers of rows that are too large; and most of the query of a join. Queries that are
built from steps, with the same descriptor and the same rest, have the same SQL (`sql_of_descriptor`); without the rest
they need not (`joined_filter_untold`).
-/

namespace SqlQuery

/-! ### What is not told -/

namespace Column

inductive Kind where
  | name | method | labelled | constant
  deriving DecidableEq

def kind : Column → Kind
  | .constant .. => .constant
  | .field f =>
    match f.label, f.term with
    | some _, _ => .labelled
    | none, .simple _ => .name
    | none, .computed .. => .method

/-- What an entry looks like: the key of a method stands for the method, and references and methods under another key
for fields with a label. -/
def Kind.ofEntry : Value → Kind
  | .object [(key, value)] =>
    if (Method.ofKey? key).isSome then .method
    else
      match value with
      | .ref _ => .labelled
      | .object [(key, _)] => if (Method.ofKey? key).isSome then .labelled else .constant
      | _ => .constant
  | _ => .name

/-- What a column is, if its entry looks like something else. -/
def kind? (c : Column) : Option Kind := if c.kind = Kind.ofEntry c.selectEntry then none else some c.kind

theorem kind_eq {c c' : Column} (h : c.selectEntry = c'.selectEntry) (hk : c.kind? = c'.kind?) : c.kind = c'.kind := by
  unfold kind? at hk
  rw [h] at hk
  split_ifs at hk with hc hc'
  · rw [hc, hc']
  · exact Option.some.inj hk

end Column

/-- A number of rows for which there is no integer. -/
def beyond? (n : UInt64) : Option UInt64 := if (n.toNat : Int) ≤ Int64.maxValue.toInt then none else some n

/-- What the query of a join is besides its filter and its columns. -/
structure JoinedRest where
  label : Option String
  columns : List (Option Column.Kind)
  /-- A filter that is null is written like a missing one. -/
  nullFilter : Bool
  prepared : Option Value
  order : Option (Entries Direction)
  group : Option (Entries Direction)
  expand : List (Lookup Query)
  computed : Document
  distinct : Bool
  skip : Option UInt64
  limit : Option UInt64

structure Untold where
  columns : List (Option Column.Kind)
  skip : Option UInt64
  limit : Option UInt64
  joined : List (Option JoinedRest)

namespace Query

def joinedRest (q : Query) : JoinedRest where
  label := q.collection.bind (·.label)
  columns := q.columns.map Column.kind?
  nullFilter := q.filter.any Value.isNull
  prepared := q.prepared
  order := q.order
  group := q.group
  expand := q.expand
  computed := q.computed
  distinct := q.distinct
  skip := q.skip
  limit := q.limit

/-- What the descriptor leaves out. -/
def untold (q : Query) : Untold where
  columns := q.columns.map Column.kind?
  skip := q.skip.bind beyond?
  limit := q.limit.bind beyond?
  joined := q.expand.map fun l => l.pipeline.map joinedRest

end Query

/-! ### The queries of joins -/

/-- The query of a join reads the collection that the join is named for. -/
def NamedFor (source : String) (pipeline : Option Query) : Prop :=
  ∀ p ∈ pipeline, p.collection.map (·.name) = some source

theorem namedFor_target {source : JoinSource} {c : Collection} {pipeline : Option Query}
    (h : source.target = .ok (c, pipeline)) : NamedFor c.name pipeline := by
  intro p hp
  cases source with
  | collection => cases h; cases hp
  | query q =>
    unfold JoinSource.target at h
    dsimp only at h
    split at h
    · next hc =>
      cases h
      cases hp
      rw [hc]
      rfl
    · cases h

structure NamedJoins (b : Builder) : Prop where
  expand : ∀ l ∈ b.query.expand, NamedFor l.source l.pipeline
  join : ∀ j ∈ b.join, NamedFor j.source j.pipeline

namespace NamedJoins

variable {b after : Builder}

theorem keep (h : NamedJoins b) (he : after.query.expand = b.query.expand) (hj : after.join = b.join) :
    NamedJoins after :=
  ⟨he ▸ h.expand, hj ▸ h.join⟩

theorem drop (h : NamedJoins b) (he : after.query.expand = []) (hj : after.join = b.join) : NamedJoins after :=
  ⟨he ▸ List.forall_mem_nil _, hj ▸ h.join⟩

theorem step {s : Step} (h : NamedJoins b) (hs : b.step s = .ok after) : NamedJoins after := by
  cases Builder.step_eq_ok.1 hs with
  | insert | insertMany | update | delete => exact h.drop rfl rfl
  | @relabelJoin _ join _ hj =>
    refine ⟨h.expand, fun j hj' => ?_⟩
    cases hj'
    exact h.join join hj
  | @openJoin source c pipeline ht =>
    refine ⟨h.expand, fun j hj => ?_⟩
    cases hj
    exact namedFor_target ht
  | @joinOn _ _ join _ _ hj =>
    refine ⟨fun l hl => ?_, nofun⟩
    rcases List.mem_append.1 hl with hl | hl
    · exact h.expand l hl
    · obtain rfl := List.mem_singleton.1 hl
      exact h.join join hj
  | _ => exact h.keep rfl rfl

end NamedJoins

theorem namedFor_of_build {steps : List Step} {q : Query} (h : Query.build steps = .ok q) :
    ∀ l ∈ q.expand, NamedFor l.source l.pipeline := by
  unfold Query.build at h
  cases hb : Builder.run {} steps with
  | error cause =>
    rw [hb] at h
    cases h
  | ok b =>
    rw [hb] at h
    cases h
    have hstart : NamedJoins {} := ⟨List.forall_mem_nil _, nofun⟩
    exact (Builder.run_keeps (fun h hs => NamedJoins.step h hs) hb hstart).expand

/-! ### Parts of documents -/

/-- The document with the parts that there are. -/
def present (parts : List (String × Option Value)) : Document := parts.flatMap fun p => Query.part p.1 p.2

theorem mem_keys_of_mem_present {parts : List (String × Option Value)} {key : String} {value : Value}
    (h : (key, value) ∈ present parts) : key ∈ parts.map Prod.fst := by
  obtain ⟨⟨k, v⟩, hp, hmem⟩ := List.mem_flatMap.1 h
  cases v with
  | none => cases hmem
  | some v =>
    cases List.mem_singleton.1 hmem
    exact List.mem_map_of_mem hp

/-- Parts under different keys can be told from their document. -/
theorem parts_of_present {parts parts' : List (String × Option Value)} (hk : parts.map Prod.fst = parts'.map Prod.fst)
    (hn : (parts.map Prod.fst).Nodup) (h : present parts = present parts') : parts = parts' := by
  induction parts generalizing parts' with
  | nil => exact (List.map_eq_nil_iff.1 hk.symm).symm
  | cons p parts ih =>
    obtain ⟨key, v⟩ := p
    obtain ⟨⟨key', v'⟩, parts', rfl⟩ : ∃ p' rest, parts' = p' :: rest := by
      cases parts' with
      | nil => cases hk
      | cons p' rest => exact ⟨p', rest, rfl⟩
    obtain ⟨rfl, hkeys⟩ : key = key' ∧ parts.map Prod.fst = parts'.map Prod.fst := by simpa using hk
    obtain ⟨hkey, hnodup⟩ := List.nodup_cons.1 hn
    -- a part that only one of the documents has would be found among the later ones of the other
    have habsent : ∀ (ps : List (String × Option Value)), ps.map Prod.fst = parts.map Prod.fst →
        ∀ {value : Value} {rest : Document}, present ps ≠ (key, value) :: rest := by
      intro ps hps value rest heq
      have hmem : (key, value) ∈ present ps := by rw [heq]; exact List.mem_cons_self
      exact hkey (hps ▸ mem_keys_of_mem_present hmem)
    cases v with
    | none =>
      cases v' with
      | none => rw [ih hkeys hnodup h]
      | some v' => exact absurd h (habsent parts rfl)
    | some v =>
      cases v' with
      | none => exact absurd h.symm (habsent parts' hkeys.symm)
      | some v' =>
        obtain ⟨hv, hrest⟩ := List.cons.inj h
        cases hv
        rw [ih hkeys hnodup hrest]

/-! ### What is told -/

/-- The value of a statement under a key. -/
def statementPart (name? : Option String) (s : Option Statement) (key : String) : Option Value :=
  (s.map (Query.statementEntry name?)).bind fun e => if e.1 = key then some e.2 else none

namespace Query

def parts (q : Query) : List (String × Option Value) :=
  let statement := statementPart (q.collection.map (·.name)) q.statement
  [("collection", q.collection.map collectionValue), ("select", statement "select"), ("insert", statement "insert"),
    ("update", statement "update"), ("delete", statement "delete"), ("match", q.filter), ("prepared", q.prepared),
    ("order", q.order.map Direction.markers), ("group", q.group.map Direction.markers),
    ("expand", if q.expand.isEmpty then none else some (.array (q.expand.map Lookup.value))),
    ("addFields", if q.computed.isEmpty then none else some (.object q.computed)),
    ("distinct", if q.distinct then some (.bool true) else none),
    ("fixed", if q.fixed then some (.bool true) else none), ("count", q.count.map Value.string),
    ("skip", q.skip.map Value.ofCount), ("limit", q.limit.map Value.ofCount)]

theorem descriptor_eq_present (q : Query) : q.descriptor = present q.parts := by
  have hstatement : ∀ name? (s : Option Statement), (s.map (statementEntry name?)).toList =
      part "select" (statementPart name? s "select") ++ part "insert" (statementPart name? s "insert") ++
        part "update" (statementPart name? s "update") ++ part "delete" (statementPart name? s "delete") := by
    rintro name? (_ | (_ | _ | _ | _)) <;> rfl
  rw [descriptor, hstatement]
  simp [present, parts, List.append_assoc]

theorem parts_of_descriptor {q q' : Query} (h : q.descriptor = q'.descriptor) : q.parts = q'.parts := by
  have hkeys : q.parts.map Prod.fst = ["collection", "select", "insert", "update", "delete", "match", "prepared",
      "order", "group", "expand", "addFields", "distinct", "fixed", "count", "skip", "limit"] := rfl
  refine parts_of_present rfl (hkeys ▸ by decide) ?_
  rw [← descriptor_eq_present, ← descriptor_eq_present, h]

end Query

theorem collectionValue_injective : Function.Injective Query.collectionValue := by
  rintro ⟨name, label⟩ ⟨name', label'⟩ h
  cases label <;> cases label' <;> cases h <;> rfl

theorem markers_injective : Function.Injective Direction.markers := by
  have hmarker : ∀ d d' : Direction, d.marker = d'.marker → d = d' := by
    intro d d'
    cases d <;> cases d' <;> decide
  intro order order' h
  refine (List.map_injective_iff.2 ?_) (Value.object.inj h)
  rintro ⟨key, d⟩ ⟨key', d'⟩ heq
  obtain ⟨hkey, hd⟩ := Prod.mk.inj heq
  exact Prod.ext hkey (hmarker d d' (Value.int.inj hd))

theorem rows_value_injective : Function.Injective Rows.value := by
  have hobjects : Function.Injective (List.map Value.object) := List.map_injective_iff.2 fun _ _ => Value.object.inj
  rintro (row | ⟨first, more⟩) (row' | ⟨first', more'⟩) h
  · rw [Value.object.inj h]
  · cases h
  · cases h
  · obtain ⟨hfirst, hmore⟩ := List.cons.inj (Value.array.inj h)
    rw [Value.object.inj hfirst, hobjects hmore]

/-- A number of rows is told, unless it is too large. -/
theorem eq_of_ofCount {n m : UInt64} (h : Value.ofCount n = Value.ofCount m) (hb : beyond? n = beyond? m) : n = m := by
  have hfit : ∀ n : UInt64, (n.toNat : Int) ≤ Int64.maxValue.toInt →
      Decimal.fitInt64? n.toNat = some (Int64.ofInt n.toNat) ∧ (Int64.ofInt n.toNat).toInt = n.toNat := by
    intro n hn
    have hmax : Int64.maxValue.toInt = 2 ^ 63 - 1 := by decide
    have hmin : Int64.minValue.toInt = -2 ^ 63 := by decide
    refine ⟨if_pos ⟨by omega, hn⟩, Int64.toInt_ofInt_of_le (by omega) (by omega)⟩
  unfold beyond? at hb
  split_ifs at hb with hn hm
  · obtain ⟨hfitn, hintn⟩ := hfit n hn
    obtain ⟨hfitm, hintm⟩ := hfit m hm
    rw [Value.ofCount, Value.ofCount, hfitn, hfitm] at h
    have hint : Int64.ofInt n.toNat = Int64.ofInt m.toNat := Value.int.inj h
    have heq : (n.toNat : Int) = m.toNat := by rw [← hintn, ← hintm, hint]
    exact UInt64.toNat_inj.1 (by exact_mod_cast heq)
  · exact Option.some.inj hb

theorem eq_of_counts {n m : Option UInt64} (h : n.map Value.ofCount = m.map Value.ofCount)
    (hb : n.bind beyond? = m.bind beyond?) : n = m := by
  cases n with
  | none => cases m <;> first | rfl | cases h
  | some n =>
    cases m with
    | none => cases h
    | some m => rw [eq_of_ofCount (Option.some.inj h) hb]

/-- Statements that are written alike. -/
inductive SameStatement : Option Statement → Option Statement → Prop where
  | none : SameStatement none none
  | select {columns columns' : List Column} (h : Column.list columns = Column.list columns') :
    SameStatement (some (.select columns)) (some (.select columns'))
  | insert (rows : Rows) : SameStatement (some (.insert rows)) (some (.insert rows))
  | update {values values' : Option Document} (h : values.getD [] = values'.getD []) :
    SameStatement (some (.update values)) (some (.update values'))
  | delete : SameStatement (some .delete) (some .delete)

/-- A value stands under the name of the collection, if there is one. -/
def under (name? : Option String) (value : Value) : Value := name?.elim value fun name => .entry name value

theorem under_injective (name? : Option String) : Function.Injective (under name?) := by
  intro v v' h
  cases name? with
  | none => exact h
  | some name =>
    cases h
    rfl

theorem statementPart_select (name? : Option String) (columns : List Column) :
    statementPart name? (some (.select columns)) "select" = some (under name? (Column.list columns)) := by
  cases name? <;> rfl

theorem statementPart_insert (name? : Option String) (rows : Rows) :
    statementPart name? (some (.insert rows)) "insert" = some (under name? rows.value) := by
  cases name? <;> rfl

theorem statementPart_update (name? : Option String) (values : Option Document) :
    statementPart name? (some (.update values)) "update" = some (under name? (.object (values.getD []))) := by
  cases name? <;> rfl

theorem sameStatement_of_parts {name? : Option String} {s s' : Option Statement}
    (hselect : statementPart name? s "select" = statementPart name? s' "select")
    (hinsert : statementPart name? s "insert" = statementPart name? s' "insert")
    (hupdate : statementPart name? s "update" = statementPart name? s' "update")
    (hdelete : statementPart name? s "delete" = statementPart name? s' "delete") : SameStatement s s' := by
  rcases s with _ | (columns | rows | values | _)
  · rcases s' with _ | (_ | _ | _ | _)
    · exact .none
    · cases hselect
    · cases hinsert
    · cases hupdate
    · cases hdelete
  · rcases s' with _ | (columns' | _ | _ | _)
    case some.select =>
      rw [statementPart_select, statementPart_select] at hselect
      exact .select (under_injective name? (Option.some.inj hselect))
    all_goals cases hselect
  · rcases s' with _ | (_ | rows' | _ | _)
    case some.insert =>
      rw [statementPart_insert, statementPart_insert] at hinsert
      rw [rows_value_injective (under_injective name? (Option.some.inj hinsert))]
      exact .insert rows'
    all_goals cases hinsert
  · rcases s' with _ | (_ | _ | values' | _)
    case some.update =>
      rw [statementPart_update, statementPart_update] at hupdate
      exact .update (Value.object.inj (under_injective name? (Option.some.inj hupdate)))
    all_goals cases hupdate
  · rcases s' with _ | (_ | _ | _ | _)
    case some.delete => exact .delete
    all_goals cases hdelete

theorem SameStatement.columns {q q' : Query} (h : SameStatement q.statement q'.statement) :
    Column.list q.columns = Column.list q'.columns := by
  unfold Query.columns
  generalize q.statement = s, q'.statement = s' at h
  cases h with
  | select h => exact h
  | _ => rfl

/-! ### Joins -/

/-- What is told of the query of a join. -/
def Query.stages (q : Query) : Value :=
  .object [("$match", q.filter.getD .null), ("$project", Column.list q.columns)]

namespace Lookup

def parts (l : Lookup Query) : List (String × Option Value) :=
  [("from", some (.string l.source)), ("localField", some (.string l.localField)),
    ("foreignField", some (.string l.foreignField)), ("as", l.label.map Value.string),
    ("pipeline", l.pipeline.map Query.stages)]

theorem value_eq_present (l : Lookup Query) : l.value = .object (present l.parts) := by
  rcases l with ⟨source, _ | label, _ | q, localField, foreignField⟩ <;> rfl

theorem parts_of_value {l l' : Lookup Query} (h : l.value = l'.value) : l.parts = l'.parts := by
  have hkeys : l.parts.map Prod.fst = ["from", "localField", "foreignField", "as", "pipeline"] := rfl
  refine parts_of_present rfl (hkeys ▸ by decide) (Value.object.inj ?_)
  rw [← value_eq_present, ← value_eq_present, h]

end Lookup

/-! ### Columns -/

namespace Sql

variable {f : Formatter} {q q' : Query}

theorem columnIn_labelled (computed : Document) (term : Term) (label : String) :
    f.columnIn computed (.field ⟨term, some label⟩) =
      (f.expressionIn (f.scopeOf computed) term.value).map (· ++ f.style.aliasClause label) := by
  cases term <;> rfl

/-- A column is written by its entry and what it is. -/
theorem columnIn_eq (computed : Document) {c c' : Column} (h : c.selectEntry = c'.selectEntry)
    (hk : c.kind = c'.kind) : f.columnIn computed c = f.columnIn computed c' := by
  rcases c with ⟨term, _ | label⟩ | ⟨label, value⟩
  · rcases c' with ⟨term', _ | label'⟩ | ⟨label', value'⟩
    · cases term with
      | simple name =>
        cases term' with
        | simple name' =>
          cases h
          rfl
        | computed => cases hk
      | computed m args =>
        cases term' with
        | simple => cases hk
        | computed m' args' => exact congrArg (f.expressionIn (f.scopeOf computed)) h
    · cases term <;> cases hk
    · cases term <;> cases hk
  · rcases c' with ⟨term', _ | label'⟩ | ⟨label', value'⟩
    · cases term' <;> cases hk
    · have hentry : ∀ term : Term, ∀ label, Column.selectEntry (.field ⟨term, some label⟩) = .entry label term.value := by
        intro term label
        cases term <;> rfl
      rw [hentry, hentry] at h
      obtain ⟨hlabel, hvalue⟩ := Prod.mk.inj (List.cons.inj (Value.object.inj h)).1
      rw [columnIn_labelled, columnIn_labelled, hlabel, hvalue]
    · cases hk
  · rcases c' with ⟨term', _ | label'⟩ | ⟨label', value'⟩
    · cases term' <;> cases hk
    · cases hk
    · cases h
      rfl

theorem columnList_eq (computed : Document) {columns columns' : List Column}
    (h : Column.list columns = Column.list columns') (hk : columns.map Column.kind? = columns'.map Column.kind?) :
    f.columnList computed columns = f.columnList computed columns' ∧ columns.isEmpty = columns'.isEmpty := by
  have hentries : columns.map Column.selectEntry = columns'.map Column.selectEntry := Value.array.inj h
  have htexts : columns.mapM (f.columnIn computed) = columns'.mapM (f.columnIn computed) := by
    clear h
    induction columns generalizing columns' with
    | nil => rw [List.map_eq_nil_iff.1 hk.symm]
    | cons c columns ih =>
      cases columns' with
      | nil => cases hk
      | cons c' columns' =>
        obtain ⟨hkind, hk⟩ := List.cons.inj hk
        obtain ⟨hentry, hentries⟩ := List.cons.inj hentries
        rw [List.mapM_cons, List.mapM_cons, columnIn_eq computed hentry (Column.kind_eq hentry hkind),
          ih hk hentries]
  have hempty : columns.isEmpty = columns'.isEmpty := by
    cases columns <;> cases columns' <;> first | rfl | cases hk
  unfold Formatter.columnList
  rw [htexts, hempty]
  exact ⟨rfl, rfl⟩

/-! ### Selects -/

/-- The queries have the same clauses. -/
structure SameClauses (q q' : Query) : Prop where
  filter : q.filter = q'.filter
  prepared : q.prepared = q'.prepared
  order : q.order = q'.order
  group : q.group = q'.group
  computed : q.computed = q'.computed
  skip : q.skip = q'.skip
  limit : q.limit = q'.limit

theorem SameClauses.whereClause (h : SameClauses q q') : f.whereClause q = f.whereClause q' := by
  unfold Formatter.whereClause Formatter.whereCondition
  rw [h.filter, h.prepared, h.computed]

theorem SameClauses.clauses (h : SameClauses q q') : f.clauses q = f.clauses q' := by
  unfold Formatter.clauses
  rw [h.whereClause, h.group, h.order, h.computed, h.skip, h.limit]

/-- The queries have the same select. -/
structure SameSelect (f : Formatter) (q q' : Query) : Prop extends SameClauses q q' where
  collection : q.collection = q'.collection
  distinct : q.distinct = q'.distinct
  columns : ∀ computed, f.columnList computed q.columns = f.columnList computed q'.columns
  joins : ∀ main, f.joins main q.expand = f.joins main q'.expand

theorem select_eq {c : Collection} (hc : q.collection = some c) :
    f.select q = do
      let columns ← f.columnList q.computed q.columns
      let joins ← f.joins c.outputName q.expand
      let clauses ← f.clauses q
      return "SELECT " ++ (if q.distinct then "DISTINCT " else "") ++ columns ++ " FROM " ++
        f.source c.name c.label ++ joins ++ clauses := by
  cases q
  cases hc
  rw [Formatter.select]

theorem SameSelect.select (h : SameSelect f q q') : f.select q = f.select q' := by
  cases hc : q.collection with
  | none =>
    have hnone : ∀ q : Query, q.collection = none → f.select q = .error .missingCollection := by
      intro q hq
      cases q
      cases hq
      rw [Formatter.select]
    rw [hnone q hc, hnone q' (h.collection ▸ hc)]
  | some c =>
    rw [select_eq hc, select_eq (h.collection ▸ hc), h.computed, h.distinct, h.toSameClauses.clauses, h.columns, h.joins]

/-- A filter that is not null is told. -/
theorem filter_eq {x y : Option Value} (h : x.getD .null = y.getD .null) (hn : x.any Value.isNull = y.any Value.isNull) :
    x = y := by
  cases x with
  | none =>
    cases y with
    | none => rfl
    | some w =>
      obtain rfl : Value.null = w := h
      cases hn
  | some v =>
    cases y with
    | none =>
      obtain rfl : v = .null := h
      cases hn
    | some w => exact congrArg some h

theorem collection_eq {c c' : Option Collection} (h : c.map (·.name) = c'.map (·.name))
    (hl : c.bind (·.label) = c'.bind (·.label)) : c = c' := by
  rcases c with _ | ⟨name, label⟩ <;> rcases c' with _ | ⟨name', label'⟩
  · rfl
  · cases h
  · cases h
  · cases h
    cases hl
    rfl

/-- The query of a join is told by its stages and the rest. -/
theorem sameSelect_of_stages (hn : q.collection.map (·.name) = q'.collection.map (·.name))
    (hs : q.stages = q'.stages) (hr : q.joinedRest = q'.joinedRest) : SameSelect f q q' := by
  obtain ⟨hlabel, hkinds, hnull, hprepared, horder, hgroup, hexpand, hcomputed, hdistinct, hskip, hlimit⟩ :=
    JoinedRest.mk.inj hr
  obtain ⟨hmatch, hproject⟩ := List.cons.inj (Value.object.inj hs)
  have hfilter : q.filter = q'.filter := filter_eq (Prod.mk.inj hmatch).2 hnull
  have hcolumns : Column.list q.columns = Column.list q'.columns := (Prod.mk.inj (List.cons.inj hproject).1).2
  exact {
    filter := hfilter
    prepared := hprepared
    order := horder
    group := hgroup
    computed := hcomputed
    skip := hskip
    limit := hlimit
    collection := collection_eq hn hlabel
    distinct := hdistinct
    columns := fun computed => (columnList_eq computed hcolumns hkinds).1
    joins := fun main => by rw [hexpand] }

/-- Joins are told by their documents and the rest of their queries. -/
theorem joins_eq (main : String) {ls ls' : List (Lookup Query)} (hv : ls.map Lookup.value = ls'.map Lookup.value)
    (hr : (ls.map fun l => l.pipeline.map Query.joinedRest) = ls'.map fun l => l.pipeline.map Query.joinedRest)
    (hn : ∀ l ∈ ls, NamedFor l.source l.pipeline) (hn' : ∀ l ∈ ls', NamedFor l.source l.pipeline) :
    f.joins main ls = f.joins main ls' := by
  induction ls generalizing ls' with
  | nil => rw [List.map_eq_nil_iff.1 hr.symm]
  | cons l ls ih =>
    cases ls' with
    | nil => cases hr
    | cons l' ls' =>
      obtain ⟨hvalue, hv⟩ := List.cons.inj hv
      obtain ⟨hrest, hr⟩ := List.cons.inj hr
      obtain ⟨hname, hn⟩ := List.forall_mem_cons.1 hn
      obtain ⟨hname', hn'⟩ := List.forall_mem_cons.1 hn'
      have hmore := ih hv hr hn hn'
      have hparts := Lookup.parts_of_value hvalue
      obtain ⟨source, label, pipeline, localField, foreignField⟩ := l
      obtain ⟨source', label', pipeline', localField', foreignField'⟩ := l'
      simp only [Lookup.parts, List.cons.injEq, Prod.mk.injEq, Option.some.injEq, Value.string.injEq, true_and,
        and_true] at hparts
      obtain ⟨rfl, rfl, rfl, hlabel, hstages⟩ := hparts
      obtain rfl : label = label' := Option.map_injective (fun _ _ => Value.string.inj) hlabel
      cases pipeline with
      | none =>
        cases pipeline' with
        | none => rw [Formatter.joins, Formatter.joins, hmore]
        | some q' => cases hrest
      | some q =>
        cases pipeline' with
        | none => cases hrest
        | some q' =>
          have hcollection : q.collection.map (·.name) = q'.collection.map (·.name) :=
            (hname q rfl).trans (hname' q' rfl).symm
          have hselect : f.select q = f.select q' :=
            (sameSelect_of_stages hcollection (Option.some.inj hstages) (Option.some.inj hrest)).select
          rw [Formatter.joins, Formatter.joins, hselect, hmore]

/-! ### Statements -/

theorem SameSelect.rows (h : SameSelect f q q') (hfixed : q.fixed = q'.fixed)
    (hempty : q.columns.isEmpty = q'.columns.isEmpty) : f.rows q = f.rows q' := by
  have hconstants : f.fixedSelect q = f.fixedSelect q' := by
    unfold Formatter.fixedSelect
    rw [h.collection, hempty, h.columns, h.toSameClauses.clauses]
    simp only [h.joins]
  unfold Formatter.rows
  rw [hfixed, hconstants, h.select]

theorem SameSelect.count (h : SameSelect f q q') (hfixed : q.fixed = q'.fixed) (hcount : q.count = q'.count)
    (hempty : q.columns.isEmpty = q'.columns.isEmpty) : f.count q = f.count q' := by
  unfold Formatter.count
  rw [h.rows hfixed hempty, hcount]

theorem SameSelect.format (h : SameSelect f q q') (hs : SameStatement q.statement q'.statement)
    (hfixed : q.fixed = q'.fixed) (hcount : q.count = q'.count) (hempty : q.columns.isEmpty = q'.columns.isEmpty) :
    f.format q = f.format q' := by
  have hwhere : f.whereClause q = f.whereClause q' := h.toSameClauses.whereClause
  cases hc : q.collection with
  | none =>
    unfold Formatter.format
    rw [hc, ← h.collection, hc]
  | some c =>
    have hc' : q'.collection = some c := h.collection ▸ hc
    generalize hq : q.statement = s, hq' : q'.statement = s' at hs
    unfold Formatter.format
    rw [hc, hc', hq, hq']
    cases hs with
    | none => rfl
    | select =>
      dsimp only
      rw [hcount, h.count hfixed hcount hempty, h.rows hfixed hempty]
    | insert rows =>
      dsimp only
      unfold Formatter.insert
      rw [hc, hc', hq, hq']
    | update hvalues =>
      dsimp only
      unfold Formatter.update Formatter.updateValues
      rw [hc, hc', hq, hq']
      dsimp only
      rw [hvalues, hwhere]
    | delete =>
      dsimp only
      unfold Formatter.delete
      rw [hc, hc', hwhere]

end Sql

theorem eq_nil_or_eq {α : Type} (value : List α → Value) {xs ys : List α}
    (h : (if xs.isEmpty then none else some (value xs)) = if ys.isEmpty then none else some (value ys)) :
    xs = [] ∧ ys = [] ∨ value xs = value ys := by
  cases xs with
  | nil => cases ys <;> first | exact .inl ⟨rfl, rfl⟩ | cases h
  | cons x xs =>
    cases ys with
    | nil => cases h
    | cons y ys => exact .inr (Option.some.inj h)

theorem eq_of_flag {b b' : Bool} {value : Value}
    (h : (if b then some value else none) = if b' then some value else none) : b = b' := by
  cases b <;> cases b' <;> first | rfl | cases h

open Sql (Formatter SameSelect)

/-- Queries that are built from steps have the same SQL if they have the same descriptor, and the same of what it leaves
out. -/
theorem sql_of_descriptor (f : Formatter) {steps steps' : List Step} {q q' : Query} (hq : Query.build steps = .ok q)
    (hq' : Query.build steps' = .ok q') (hd : q.descriptor = q'.descriptor) (hu : q.untold = q'.untold) :
    f.format q = f.format q' := by
  have hparts := Query.parts_of_descriptor hd
  simp only [Query.parts, List.cons.injEq, Prod.mk.injEq, true_and, and_true] at hparts
  obtain ⟨hcollection, hselect, hinsert, hupdate, hdelete, hfilter, hprepared, horder, hgroup, hexpand, hcomputed,
    hdistinct, hfixed, hcount, hskip, hlimit⟩ := hparts
  obtain ⟨hkinds, hlarge, hlarge', hjoined⟩ := Untold.mk.inj hu
  have hcollection : q.collection = q'.collection := Option.map_injective collectionValue_injective hcollection
  have hstatement : SameStatement q.statement q'.statement := by
    rw [← hcollection] at hselect hinsert hupdate hdelete
    exact sameStatement_of_parts hselect hinsert hupdate hdelete
  have hcolumns := hstatement.columns
  have hvalues : q.expand.map Lookup.value = q'.expand.map Lookup.value := by
    rcases eq_nil_or_eq (fun ls => .array (ls.map Lookup.value)) hexpand with ⟨h, h'⟩ | h
    · rw [h, h']
    · exact Value.array.inj h
  have hcomputed : q.computed = q'.computed := by
    rcases eq_nil_or_eq Value.object hcomputed with ⟨h, h'⟩ | h
    · rw [h, h']
    · exact Value.object.inj h
  have hsame : SameSelect f q q' := {
    filter := hfilter
    prepared := hprepared
    order := Option.map_injective markers_injective horder
    group := Option.map_injective markers_injective hgroup
    computed := hcomputed
    skip := eq_of_counts hskip hlarge
    limit := eq_of_counts hlimit hlarge'
    collection := hcollection
    distinct := eq_of_flag hdistinct
    columns := fun computed => (Sql.columnList_eq computed hcolumns hkinds).1
    joins := fun main => Sql.joins_eq main hvalues hjoined (namedFor_of_build hq) (namedFor_of_build hq') }
  have hcount : q.count = q'.count := Option.map_injective (fun _ _ => Value.string.inj) hcount
  exact hsame.format hstatement (eq_of_flag hfixed) hcount (Sql.columnList_eq (f := f) [] hcolumns hkinds).2

/-- A join of the rows that a query selects, with and without a statement of its own. -/
theorem sql_of_descriptor_joined :
    ∃ q q', Query.build [.fromCollection ⟨"T", none⟩, .selectAll,
        .openJoin (.query { collection := some ⟨"U", none⟩, filter := some (.entry "a" (.int 1)) }),
        .joinOn (.name "x") (.name "y")] = .ok q ∧
      Query.build [.selectAll, .fromCollection ⟨"T", none⟩,
        .openJoin (.query
          { collection := some ⟨"U", none⟩, statement := some (.select []), filter := some (.entry "a" (.int 1)) }),
        .joinOn (.name "x") (.name "y")] = .ok q' ∧
      q.descriptor = q'.descriptor ∧ q.untold = q'.untold ∧ Formatter.format {} q = Formatter.format {} q' := by
  have hbuild : ∀ {steps steps' : List Step} {q q' : Query}, Query.build steps = .ok q → Query.build steps' = .ok q' →
      q.descriptor = q'.descriptor → q.untold = q'.untold →
      ∃ q q', Query.build steps = .ok q ∧ Query.build steps' = .ok q' ∧ q.descriptor = q'.descriptor ∧
        q.untold = q'.untold ∧ Formatter.format {} q = Formatter.format {} q' :=
    fun hq hq' hd hu => ⟨_, _, hq, hq', hd, hu, sql_of_descriptor {} hq hq' hd hu⟩
  exact hbuild rfl rfl rfl rfl

/-- The filter that the query of a join keeps is in the SQL, but not in the descriptor. -/
theorem joined_filter_untold :
    ∃ u u' q q', Query.build [.fromCollection ⟨"U", none⟩] = .ok u ∧
      Query.build [.fromCollection ⟨"U", none⟩, .whereField (.name "Active"), .compare (.equal (.bool true)),
        .prepare .and] = .ok u' ∧
      Query.build [.fromCollection ⟨"T", none⟩, .selectAll, .openJoin (.query u), .joinOn (.name "x") (.name "y")] =
        .ok q ∧
      Query.build [.fromCollection ⟨"T", none⟩, .selectAll, .openJoin (.query u'), .joinOn (.name "x") (.name "y")] =
        .ok q' ∧
      q.descriptor = q'.descriptor ∧
      Formatter.format {} q = .ok "SELECT * FROM T INNER JOIN (SELECT * FROM U) AS U ON T.x=U.y" ∧
      Formatter.format {} q' =
        .ok "SELECT * FROM T INNER JOIN (SELECT * FROM U WHERE (Active=true)) AS U ON T.x=U.y" :=
  ⟨_, _, _, _, rfl, rfl, rfl, rfl, rfl, eq_ok_of_toOption (by decide +kernel), eq_ok_of_toOption (by decide +kernel)⟩

end SqlQuery
