import SqlQuery.Query.Step

/-!
# What steps do

A step of a build fails, or makes another builder of the one that it is taken on. `Builder.Takes` says for each step what
it needs and what it makes. It holds of the steps that succeed and of no others (`Builder.step_eq_ok`), so that what a
step keeps is proved by going through its cases.
-/

namespace SqlQuery

namespace Builder

/-- A step that succeeds on a builder, and the builder after it. -/
inductive Takes (b : Builder) : Step → Builder → Prop where
  | fromCollection (c : Collection) : Takes b (.fromCollection c) (b.fromCollection c)
  | select {p : Projection} {columns : List Column} (hp : p.columns = .ok columns) :
    Takes b (.select p) { b with query := { b.query with statement := some (.select columns) } }
  | selectAll : Takes b .selectAll b.selectAll
  | insert (row : Document) : Takes b (.insert (.object row)) (b.start (.insert (.one row)))
  | insertMany (first : Document) (more : List Document) :
    Takes b (.insertMany (first :: more)) (b.start (.insert (.batch first more)))
  | into (c : Collection) {rows : Rows} (hs : b.query.statement = some (.insert rows)) :
    Takes b (.into c) { b with query := { b.query with collection := some c } }
  | update (c : Collection) : Takes b (.update c) (b.update c)
  | setValues (values : Document) {old : Option Document} (hs : b.query.statement = some (.update old)) :
    Takes b (.setValues (.object values))
      { b with query := { b.query with statement := some (.update (some values)) } }
  | delete (c : Collection) : Takes b (.delete c) (b.delete c)
  | relabelJoin {label : String} {join : OpenJoin} (hn : label.isEmpty = false) (hj : b.join = some join) :
    Takes b (.relabel label) { b with join := some { join with label := some label } }
  | relabelLeft {label : String} {left : Operand} (hn : label.isEmpty = false) (hj : b.join = none)
      (hl : b.left = some left) :
    Takes b (.relabel label) { b with left := some (left.relabel label) }
  | relabelCollection {label : String} {c : Collection} (hn : label.isEmpty = false) (hj : b.join = none)
      (hl : b.left = none) (hc : b.query.collection = some c) :
    Takes b (.relabel label) { b with query := { b.query with collection := some { c with label := some label } } }
  | distinct (flag : Bool) : Takes b (.distinct flag) (b.distinct flag)
  | fixed (flag : Bool) : Takes b (.fixed flag) (b.fixed flag)
  | countAs (label : String) : Takes b (.countAs label) (b.countAs label)
  | skip (n : UInt64) : Takes b (.skip n) (b.skip n)
  | take (n : UInt64) : Takes b (.take n) (b.take n)
  | paginate (page size : UInt64) : Takes b (.paginate page size) (b.paginate page size)
  | whereField {s : Source} {f : Field} (hf : s.field? = .ok f) :
    Takes b (.whereField s)
      { b with query := { b.query with filter := none }, connective := none, left := some (.ofField f) }
  | continueWith (op : LogicalOp) {s : Source} {f : Field} (hf : s.field? = .ok f) :
    Takes b (.continueWith op s) { b with connective := some op, left := some (.ofField f) }
  | whereClosure {c : Closure} {e : Expr} {value : Value} (hc : c.translateFilter = .ok e) (he : e.render = .ok value) :
    Takes b (.whereClosure c)
      { b with query := { b.query with filter := some value }, connective := none, left := none }
  | whereExpr {e : Expr} {value : Value} (he : e.render = .ok value) :
    Takes b (.whereExpr e) { b with query := { b.query with filter := some value }, connective := none, left := none }
  | filter {text : String} {e : Expr} {value : Value} (hp : Filter.parse text = .ok e) (he : e.render = .ok value) :
    Takes b (.filter text) (b.addCondition .and value)
  | setFilter (value : Value) : Takes b (.setFilter value) (b.setFilter value)
  | prepare (op : LogicalOp) {filter : Value} (hf : b.query.filter = some filter) :
    Takes b (.prepare op)
      { b with query := { b.query with filter := none, prepared := some (mergeFilter b.query.prepared op filter) } }
  | prepareNothing (op : LogicalOp) (hf : b.query.filter = none) : Takes b (.prepare op) b
  | transform (t : Transform) {left : Operand} (hl : b.left = some left) :
    Takes b (.transform t) { b with left := some (left.apply t) }
  | compare {c : Comparison} {condition : Value} {left : Operand} (hc : c.condition = .ok condition)
      (hl : b.left = some left) :
    Takes b (.compare c) (b.complete left condition)
  | between (low high : Value) {left : Operand} (hl : b.left = some left) :
    Takes b (.between low high)
      ({ b.complete left (.entry ComparisonOp.gte.key low) with connective := some .and }.complete left
        (.entry ComparisonOp.lte.key high))
  | openJoin {s : JoinSource} {c : Collection} {pipeline : Option Query} (ht : s.target = .ok (c, pipeline))
      (hn : c.name.isEmpty = false) :
    Takes b (.openJoin s) { b with join := some ⟨c.name, c.label, pipeline⟩ }
  | joinOn {localKey foreignKey : JoinKey} {join : OpenJoin} {localField foreignField : String}
      (hj : b.join = some join) (hl : localKey.fieldName = .ok localField) (hf : foreignKey.fieldName = .ok foreignField) :
    Takes b (.joinOn localKey foreignKey)
      { b with join := none, query := { b.query with expand :=
          b.query.expand ++ [⟨join.source, join.label, join.pipeline, localField, foreignField⟩] } }
  | orderBy {d : Direction} {p : Projection} {keys : List (String × Direction)} {computed : Document}
      (hk : b.sortKeys p d = .ok (keys, computed)) :
    Takes b (.orderBy d p) { b with query := { b.query with order := some (Entries.ofList keys), computed } }
  | thenBy {d : Direction} {p : Projection} {order : Entries Direction} {keys : List (String × Direction)}
      {computed : Document} (ho : b.query.order = some order) (hk : b.sortKeys p d = .ok (keys, computed)) :
    Takes b (.thenBy d p) { b with query := { b.query with order := some (Entries.insertAll keys order), computed } }
  | groupBy {p : Projection} {keys : List (String × Direction)} {computed : Document}
      (hk : b.sortKeys p .ascending = .ok (keys, computed)) :
    Takes b (.groupBy p) { b with query := { b.query with group := some (Entries.ofList keys), computed } }

variable {b after : Builder} {s : Step}

theorem leftFor_eq_ok {name : String} {left : Operand} : b.leftFor name = .ok left ↔ b.left = some left := by
  unfold leftFor
  cases b.left <;> simp

theorem Takes.step (h : b.Takes s after) : b.step s = .ok after := by
  cases h with
  | select hp => exact bind_eq_ok.2 ⟨_, hp, rfl⟩
  | into c hs =>
    refine mapError_eq_ok.2 ?_
    unfold Builder.into
    rw [hs]
  | setValues values hs =>
    refine mapError_eq_ok.2 ?_
    unfold Builder.setValues
    rw [hs]
  | relabelJoin hn hj =>
    refine mapError_eq_ok.2 ?_
    unfold Builder.relabel
    rw [hn, hj]
    rfl
  | relabelLeft hn hj hl =>
    refine mapError_eq_ok.2 ?_
    unfold Builder.relabel
    rw [hn, hj, hl]
    rfl
  | relabelCollection hn hj hl hc =>
    refine mapError_eq_ok.2 ?_
    unfold Builder.relabel
    rw [hn, hj, hl, hc]
    rfl
  | whereField hf | continueWith _ hf => exact bind_eq_ok.2 ⟨_, hf, rfl⟩
  | whereClosure hc he =>
    exact bind_eq_ok.2 ⟨_, mapError_eq_ok.2 hc, bind_eq_ok.2 ⟨_, mapError_eq_ok.2 he, rfl⟩⟩
  | whereExpr he => exact bind_eq_ok.2 ⟨_, mapError_eq_ok.2 he, rfl⟩
  | filter hp he => exact bind_eq_ok.2 ⟨_, mapError_eq_ok.2 hp, bind_eq_ok.2 ⟨_, mapError_eq_ok.2 he, rfl⟩⟩
  | prepare op hf | prepareNothing op hf =>
    refine congrArg Except.ok ?_
    unfold Builder.prepare
    rw [hf]
  | transform t hl => exact mapError_eq_ok.2 (bind_eq_ok.2 ⟨_, leftFor_eq_ok.2 hl, rfl⟩)
  | compare hc hl => exact mapError_eq_ok.2 (bind_eq_ok.2 ⟨_, hc, bind_eq_ok.2 ⟨_, leftFor_eq_ok.2 hl, rfl⟩⟩)
  | between low high hl => exact mapError_eq_ok.2 (bind_eq_ok.2 ⟨_, leftFor_eq_ok.2 hl, rfl⟩)
  | openJoin ht hn =>
    refine mapError_eq_ok.2 (bind_eq_ok.2 ⟨_, ht, ?_⟩)
    dsimp only
    rw [hn]
    rfl
  | joinOn hj hl hf =>
    refine Eq.trans (b := b.joinOn _ _) rfl ?_
    unfold Builder.joinOn
    rw [hj]
    exact bind_eq_ok.2 ⟨_, hl, bind_eq_ok.2 ⟨_, hf, rfl⟩⟩
  | orderBy hk | groupBy hk => exact bind_eq_ok.2 ⟨_, hk, rfl⟩
  | thenBy ho hk =>
    refine Eq.trans (b := b.thenBy _ _) rfl ?_
    unfold Builder.thenBy
    rw [ho]
    exact bind_eq_ok.2 ⟨_, hk, rfl⟩
  | _ => rfl

theorem takes_of_step (hs : b.step s = .ok after) : b.Takes s after := by
  cases s with
  | fromCollection | selectAll | update | delete | distinct | fixed | countAs | skip | take | paginate | setFilter =>
    cases hs
    constructor
  | select p =>
    obtain ⟨columns, hp, hs⟩ := bind_eq_ok.1 hs
    cases hs
    exact .select hp
  | insert row =>
    replace hs := mapError_eq_ok.1 hs
    cases row <;> cases hs
    exact .insert _
  | insertMany rows =>
    replace hs := mapError_eq_ok.1 hs
    cases rows <;> cases hs
    exact .insertMany _ _
  | into c =>
    replace hs := mapError_eq_ok.1 hs
    unfold Builder.into at hs
    split at hs
    · next hrows =>
      cases hs
      exact .into c hrows
    · cases hs
  | setValues values =>
    replace hs := mapError_eq_ok.1 hs
    unfold Builder.setValues at hs
    split at hs
    · next hupdate =>
      cases hs
      exact .setValues _ hupdate
    · cases hs
    · cases hs
  | relabel label =>
    replace hs := mapError_eq_ok.1 hs
    unfold Builder.relabel at hs
    split at hs
    · cases hs
    · next hn =>
      have hlabel : label.isEmpty = false := Bool.eq_false_iff.2 hn
      split at hs
      · next hj =>
        cases hs
        exact .relabelJoin hlabel hj
      · next hj hl =>
        cases hs
        exact .relabelLeft hlabel hj hl
      · next hj hl hc =>
        cases hs
        exact .relabelCollection hlabel hj hl hc
      · cases hs
  | whereField source =>
    obtain ⟨f, hf, hs⟩ := bind_eq_ok.1 hs
    cases hs
    exact .whereField hf
  | continueWith op source =>
    obtain ⟨f, hf, hs⟩ := bind_eq_ok.1 hs
    cases hs
    exact .continueWith op hf
  | whereClosure c =>
    obtain ⟨e, hc, hs⟩ := bind_eq_ok.1 hs
    obtain ⟨value, he, hs⟩ := bind_eq_ok.1 hs
    cases hs
    exact .whereClosure (mapError_eq_ok.1 hc) (mapError_eq_ok.1 he)
  | whereExpr e =>
    obtain ⟨value, he, hs⟩ := bind_eq_ok.1 hs
    cases hs
    exact .whereExpr (mapError_eq_ok.1 he)
  | filter text =>
    obtain ⟨e, hp, hs⟩ := bind_eq_ok.1 hs
    obtain ⟨value, he, hs⟩ := bind_eq_ok.1 hs
    cases hs
    exact .filter (mapError_eq_ok.1 hp) (mapError_eq_ok.1 he)
  | prepare op =>
    cases hs
    unfold Builder.prepare
    split
    · next hf => exact .prepare op hf
    · next hf => exact .prepareNothing op hf
  | transform t =>
    obtain ⟨left, hl, hs⟩ := bind_eq_ok.1 (mapError_eq_ok.1 hs)
    cases hs
    exact .transform t (leftFor_eq_ok.1 hl)
  | compare c =>
    obtain ⟨condition, hc, hs⟩ := bind_eq_ok.1 (mapError_eq_ok.1 hs)
    obtain ⟨left, hl, hs⟩ := bind_eq_ok.1 hs
    cases hs
    exact .compare hc (leftFor_eq_ok.1 hl)
  | between low high =>
    obtain ⟨left, hl, hs⟩ := bind_eq_ok.1 (mapError_eq_ok.1 hs)
    cases hs
    exact .between low high (leftFor_eq_ok.1 hl)
  | openJoin source =>
    obtain ⟨⟨c, pipeline⟩, ht, hs⟩ := bind_eq_ok.1 (mapError_eq_ok.1 hs)
    dsimp only at hs
    split at hs
    · cases hs
    · next hn =>
      cases hs
      exact .openJoin ht (Bool.eq_false_iff.2 hn)
  | joinOn localKey foreignKey =>
    replace hs : b.joinOn localKey foreignKey = .ok after := hs
    unfold Builder.joinOn at hs
    split at hs
    · cases hs
    · next hj =>
      obtain ⟨localField, hl, hs⟩ := bind_eq_ok.1 hs
      obtain ⟨foreignField, hf, hs⟩ := bind_eq_ok.1 hs
      cases hs
      exact .joinOn hj hl hf
  | orderBy d p =>
    obtain ⟨⟨keys, computed⟩, hk, hs⟩ := bind_eq_ok.1 hs
    cases hs
    exact .orderBy hk
  | thenBy d p =>
    replace hs : b.thenBy d p = .ok after := hs
    unfold Builder.thenBy at hs
    split at hs
    · cases hs
    · next ho =>
      obtain ⟨⟨keys, computed⟩, hk, hs⟩ := bind_eq_ok.1 hs
      cases hs
      exact .thenBy ho hk
  | groupBy p =>
    obtain ⟨⟨keys, computed⟩, hk, hs⟩ := bind_eq_ok.1 hs
    cases hs
    exact .groupBy hk

/-- The steps that succeed are just those that are taken. -/
theorem step_eq_ok : b.step s = .ok after ↔ b.Takes s after := ⟨takes_of_step, Takes.step⟩

/-- What each of some steps keeps is kept by a run of them. -/
theorem run_keeps_of_forall {P : Builder → Prop} {Q : Step → Prop}
    (hstep : ∀ {b after s}, Q s → P b → b.step s = .ok after → P after) {steps : List Step}
    (hrun : b.run steps = .ok after) (hq : ∀ s ∈ steps, Q s) (h : P b) : P after := by
  induction steps generalizing b with
  | nil =>
    cases hrun
    exact h
  | cons s steps ih =>
    obtain ⟨next, hs, hrun⟩ := bind_eq_ok.1 hrun
    obtain ⟨hfirst, hrest⟩ := List.forall_mem_cons.1 hq
    exact ih hrun hrest (hstep hfirst h hs)

/-- What every step keeps is kept by a run. -/
theorem run_keeps {P : Builder → Prop} (hstep : ∀ {b after s}, P b → b.step s = .ok after → P after)
    {steps : List Step} (hrun : b.run steps = .ok after) (h : P b) : P after :=
  run_keeps_of_forall (Q := fun _ => True) (fun _ => hstep) hrun (fun _ _ => trivial) h

theorem run_append {first : List Step} {between : Builder} (h : b.run first = .ok between) (second : List Step) :
    b.run (first ++ second) = between.run second := by
  induction first generalizing b with
  | nil =>
    cases h
    rfl
  | cons s first ih =>
    obtain ⟨next, hs, h⟩ := bind_eq_ok.1 h
    rw [List.cons_append, run, hs]
    exact ih h

/-- Transforms go to the left side, one after the other. -/
theorem run_transforms {left : Operand} (hl : b.left = some left) (transforms : List Transform) :
    b.run (transforms.map .transform) = .ok { b with left := some (transforms.foldl Operand.apply left) } := by
  induction transforms generalizing b left with
  | nil =>
    obtain ⟨query, _, connective, join⟩ := b
    cases hl
    rfl
  | cons t transforms ih => exact bind_eq_ok.2 ⟨_, (Takes.transform t hl).step, ih rfl⟩

end Builder

end SqlQuery
