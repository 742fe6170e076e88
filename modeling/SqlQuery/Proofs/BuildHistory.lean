import SqlQuery.Proofs.StepEffects

/-!
# What a build has stated so far

A build is judged by the calls that were made: an `Event` is a step that succeeded, with the builder that it was
taken on, and a history is the list of them, the latest first. From the history alone, `History.pending` tells
the operand that is left to be compared and the operator that it came with, and `History.base` and
`History.fragments` tell what the filter is made of. `Tracks` says that a builder holds just this. No step
breaks it (`Tracks.step`), and so it holds after every run (`tracks_replay`).
-/

namespace SqlQuery

/-- A step that was taken, and the builder it was taken on. -/
structure Event where
  before : Builder
  step : Step

/-- The steps that were taken, the latest first. -/
abbrev History := List Event

/-- The builder after some steps, with the history of those that succeeded. One that fails changes nothing. -/
def Builder.replay (b : Builder) (past : History) : List Step → Builder × History
  | [] => (b, past)
  | s :: steps =>
    match b.step s with
    | .ok after => after.replay (⟨b, s⟩ :: past) steps
    | .error _ => b.replay past steps

namespace Step

/-- The filter that a step puts in the place of the one there was, which may be none. -/
def replacement? : Step → Option (Option Value)
  | .whereField _ | .prepare _ => some none
  | .whereExpr e => some e.render.toOption
  | .whereClosure c => some (c.translateFilter.toOption.bind fun e => e.render.toOption)
  | .setFilter value => some (some value)
  | _ => none

/-- The steps that complete a comparison. -/
def isComparator : Step → Bool
  | .compare _ | .between .. => true
  | _ => false

end Step

/-- The operand of a source. -/
def Source.operand? (s : Source) : Option Operand := s.field?.toOption.map Operand.ofField

/-- An operand to be compared, with the operator of the call that introduced it. -/
structure Introduced where
  op : LogicalOp
  operand : Operand

/-- The conditions that a step completes, each with the operator that joins it: a filter's text is joined by `and`,
a comparison by the operator that its operand came with. -/
def Event.completes (e : Event) (pending : Option Introduced) : List (LogicalOp × Value) :=
  match e.step, pending with
  | .filter text, _ =>
    ((Filter.parse text).toOption.bind fun e => e.render.toOption).toList.map fun value => (.and, value)
  | .compare c, some i =>
    c.condition.toOption.toList.map fun condition => (i.op, (i.operand.condition condition e.before.query.computed).1)
  | .between low high, some i =>
    let lower := i.operand.condition (.entry ComparisonOp.gte.key low) e.before.query.computed
    let upper := i.operand.condition (.entry ComparisonOp.lte.key high) lower.2
    [(i.op, lower.1), (.and, upper.1)]
  | _, _ => []

namespace History

/-- The operand that is left to be compared: that of the latest call that introduced one, with the transforms and
labels it got since. A comparison takes it, and a filter set as an expression drops it. -/
def pending : History → Option Introduced
  | [] => none
  | e :: past =>
    match e.step with
    | .whereField source => source.operand?.map (Introduced.mk .and)
    | .continueWith op source => source.operand?.map (Introduced.mk op)
    | .transform t => (pending past).map fun i => ⟨i.op, i.operand.apply t⟩
    | .relabel label =>
      -- a label goes to the open join, if there is one
      (pending past).map fun i => ⟨i.op, if e.before.join.isSome then i.operand else i.operand.relabel label⟩
    | .whereExpr _ | .whereClosure _ | .compare _ | .between .. => none
    | _ => pending past

/-- The filter that was last put in place. -/
def base : History → Option Value
  | [] => none
  | e :: past => e.step.replacement?.getD (base past)

/-- The conditions that were completed since a filter was last put in place, in order. -/
def fragments : History → List (LogicalOp × Value)
  | [] => []
  | e :: past => if e.step.replacement?.isSome then [] else fragments past ++ e.completes (pending past)

/-- The filter of the calls so far: the one last put in place, with every condition since joined to it. -/
def filter (past : History) : Option Value :=
  past.fragments.foldl (fun filter x => some (mergeFilter filter x.1 x.2)) past.base

end History

/-- A builder that holds what its history tells and nothing else. -/
structure Tracks (past : History) (b : Builder) : Prop where
  left : b.left = past.pending.map Introduced.operand
  /-- Without an operator, the next condition is joined by `and`. -/
  connective : b.connective.getD .and = (past.pending.map Introduced.op).getD .and
  idle : b.left = none → b.connective = none
  filter : b.query.filter = past.filter

/-! ### Steps -/

/-- The steps that have to do with the filter or with the operand to be compared. -/
def Step.concernsFilter : Step → Bool
  | .whereField _ | .continueWith .. | .whereClosure _ | .whereExpr _ | .filter _ | .setFilter _ | .prepare _
  | .transform _ | .relabel _ | .compare _ | .between .. => true
  | _ => false

/-- All other steps leave the operand, its operator and the filter alone. -/
theorem Builder.step_frame {b after : Builder} {s : Step} (hs : b.step s = .ok after)
    (hc : s.concernsFilter = false) :
    after.left = b.left ∧ after.connective = b.connective ∧ after.query.filter = b.query.filter := by
  cases step_eq_ok.1 hs with
  | whereField | continueWith | whereClosure | whereExpr | filter | setFilter | prepare | prepareNothing | transform
  | relabelJoin | relabelLeft | relabelCollection | compare | between => cases hc
  | _ => exact ⟨rfl, rfl, rfl⟩

namespace History

variable {e : Event} {past : History}

theorem filter_of_replacement {value : Option Value} (h : e.step.replacement? = some value) :
    filter (e :: past) = value := by
  simp [filter, fragments, base, h]

theorem filter_of_completes (h : e.step.replacement? = none) :
    filter (e :: past) =
      (e.completes past.pending).foldl (fun filter x => some (mergeFilter filter x.1 x.2)) past.filter := by
  simp [filter, fragments, base, h, List.foldl_append]

theorem filter_of_silent (hr : e.step.replacement? = none) (hc : e.completes past.pending = []) :
    filter (e :: past) = filter past := by
  rw [filter_of_completes hr, hc, List.foldl_nil]

/-- What the history tells does not change by a step that has nothing to do with it. -/
theorem frame (h : e.step.concernsFilter = false) :
    pending (e :: past) = pending past ∧ filter (e :: past) = filter past := by
  obtain ⟨b, s⟩ := e
  have hs : pending (⟨b, s⟩ :: past) = pending past ∧ s.replacement? = none ∧
      Event.completes ⟨b, s⟩ past.pending = [] := by
    cases s with
    | whereField | continueWith | whereClosure | whereExpr | filter | setFilter | prepare | transform | relabel
    | compare | between => cases h
    | _ => exact ⟨rfl, rfl, rfl⟩
  obtain ⟨hp, hr, hc⟩ := hs
  exact ⟨hp, filter_of_silent hr hc⟩

end History

namespace Tracks

variable {past : History} {b after : Builder}

theorem keep {s : Step} (h : Tracks past b) (hc : s.concernsFilter = false) (hs : b.step s = .ok after) :
    Tracks (⟨b, s⟩ :: past) after := by
  obtain ⟨hl, ho, hf⟩ := Builder.step_frame hs hc
  obtain ⟨hp, hfilter⟩ : History.pending (⟨b, s⟩ :: past) = past.pending ∧
      History.filter (⟨b, s⟩ :: past) = past.filter := History.frame hc
  refine ⟨?_, ?_, ?_, ?_⟩
  · rw [hl, hp, h.left]
  · rw [ho, hp, h.connective]
  · rw [hl, ho]
    exact h.idle
  · rw [hf, h.filter, hfilter]

theorem introduce {s : Step} {i : Introduced} (hp : History.pending (⟨b, s⟩ :: past) = some i)
    (hl : after.left = some i.operand) (ho : after.connective.getD .and = i.op)
    (hf : after.query.filter = History.filter (⟨b, s⟩ :: past)) : Tracks (⟨b, s⟩ :: past) after := by
  refine ⟨by rw [hp, hl]; rfl, by rw [hp, ho]; rfl, fun hn => ?_, hf⟩
  rw [hl] at hn
  cases hn

theorem clear {s : Step} (hp : History.pending (⟨b, s⟩ :: past) = none) (hl : after.left = none)
    (ho : after.connective = none) (hf : after.query.filter = History.filter (⟨b, s⟩ :: past)) :
    Tracks (⟨b, s⟩ :: past) after :=
  ⟨by rw [hp, hl]; rfl, by rw [hp, ho]; rfl, fun _ => ho, hf⟩

/-- A builder with an operand has it from its history, with its operator. -/
theorem exists_pending {left : Operand} (h : Tracks past b) (hl : b.left = some left) :
    ∃ op, past.pending = some ⟨op, left⟩ ∧ b.connective.getD .and = op := by
  have hmap := h.left
  have hop := h.connective
  rw [hl] at hmap
  cases hp : past.pending with
  | none => rw [hp] at hmap; cases hmap
  | some i =>
    rw [hp] at hmap hop
    cases hmap
    exact ⟨i.op, rfl, hop⟩

end Tracks

theorem toOption_of_ok {ε α : Type} {x : Except ε α} {a : α} (h : x = .ok a) : x.toOption = some a := by
  rw [h]
  rfl

theorem Source.operand?_of_ok {s : Source} {f : Field} (h : s.field? = .ok f) : s.operand? = some (.ofField f) := by
  rw [Source.operand?, toOption_of_ok h]
  rfl

namespace Tracks

variable {past : History} {b after : Builder}

theorem step {s : Step} (h : Tracks past b) (hs : b.step s = .ok after) : Tracks (⟨b, s⟩ :: past) after := by
  cases Builder.step_eq_ok.1 hs with
  | @whereField _ f hf =>
    refine introduce (i := ⟨.and, .ofField f⟩) ?_ rfl rfl ?_
    · simp [History.pending, Source.operand?_of_ok hf]
    · exact (History.filter_of_replacement rfl).symm
  | @continueWith op _ f hf =>
    refine introduce (i := ⟨op, .ofField f⟩) ?_ rfl rfl ?_
    · simp [History.pending, Source.operand?_of_ok hf]
    · exact h.filter.trans (History.filter_of_silent rfl rfl).symm
  | @transform t left hl =>
    obtain ⟨op, hp, hop⟩ := h.exists_pending hl
    refine introduce (i := ⟨op, left.apply t⟩) ?_ rfl hop ?_
    · simp [History.pending, hp]
    · exact h.filter.trans (History.filter_of_silent rfl rfl).symm
  | @relabelJoin label join hn hj =>
    have hp : History.pending (⟨b, .relabel label⟩ :: past) = past.pending := by
      simp [History.pending, hj]
    refine ⟨h.left.trans (by rw [hp]), h.connective.trans (by rw [hp]), h.idle, ?_⟩
    exact h.filter.trans (History.filter_of_silent rfl rfl).symm
  | @relabelLeft label left hn hj hl =>
    obtain ⟨op, hp, hop⟩ := h.exists_pending hl
    refine introduce (i := ⟨op, left.relabel label⟩) ?_ rfl hop ?_
    · simp [History.pending, hp, hj]
    · exact h.filter.trans (History.filter_of_silent rfl rfl).symm
  | relabelCollection hn hj hl =>
    have hp : past.pending = none := Option.map_eq_none_iff.1 (h.left.symm.trans hl)
    refine clear ?_ hl (h.idle hl) (h.filter.trans (History.filter_of_silent rfl rfl).symm)
    simp [History.pending, hp]
  | whereExpr he =>
    refine clear rfl rfl rfl (History.filter_of_replacement ?_).symm
    rw [Step.replacement?, toOption_of_ok he]
  | whereClosure hc he =>
    refine clear rfl rfl rfl (History.filter_of_replacement ?_).symm
    rw [Step.replacement?, toOption_of_ok hc, Option.bind_some, toOption_of_ok he]
  | setFilter => exact ⟨h.left, h.connective, h.idle, (History.filter_of_replacement rfl).symm⟩
  | prepare => exact ⟨h.left, h.connective, h.idle, (History.filter_of_replacement rfl).symm⟩
  | prepareNothing _ hf =>
    exact ⟨h.left, h.connective, h.idle, hf.trans (History.filter_of_replacement rfl).symm⟩
  | @filter text e value hp he =>
    refine ⟨h.left, h.connective, h.idle, ?_⟩
    have hcompletes : Event.completes ⟨b, .filter text⟩ past.pending = [(.and, value)] := by
      simp [Event.completes, toOption_of_ok hp, toOption_of_ok he]
    rw [History.filter_of_completes rfl, hcompletes, ← h.filter]
    rfl
  | @compare c condition left hc hl =>
    obtain ⟨op, hp, hop⟩ := h.exists_pending hl
    refine clear rfl rfl rfl ?_
    have hcompletes : Event.completes ⟨b, .compare c⟩ past.pending =
        [(op, (left.condition condition b.query.computed).1)] := by
      simp [Event.completes, hp, toOption_of_ok hc]
    rw [History.filter_of_completes rfl, hcompletes, ← h.filter, ← hop]
    rfl
  | @between low high left hl =>
    obtain ⟨op, hp, hop⟩ := h.exists_pending hl
    refine clear rfl rfl rfl ?_
    have hcompletes : Event.completes ⟨b, .between low high⟩ past.pending =
        (let lower := left.condition (.entry ComparisonOp.gte.key low) b.query.computed
         [(op, lower.1), (.and, (left.condition (.entry ComparisonOp.lte.key high) lower.2).1)]) := by
      simp [Event.completes, hp]
    rw [History.filter_of_completes rfl, hcompletes, ← h.filter, ← hop]
    rfl
  | _ => exact h.keep rfl hs

end Tracks

/-! ### Runs -/

theorem tracks_start : Tracks [] {} := ⟨rfl, rfl, fun _ => rfl, rfl⟩

theorem tracks_replay {past : History} {b : Builder} (steps : List Step) (h : Tracks past b) :
    Tracks (b.replay past steps).2 (b.replay past steps).1 := by
  induction steps generalizing b past with
  | nil => exact h
  | cons s steps ih =>
    rw [Builder.replay]
    split
    · next after hs => exact ih (h.step hs)
    · exact ih h

/-- A completed comparison leaves nothing pending. -/
theorem Builder.step_comparator {b after : Builder} {s : Step} (hc : s.isComparator = true)
    (hs : b.step s = .ok after) : after.left = none ∧ after.connective = none := by
  cases step_eq_ok.1 hs with
  | compare | between => exact ⟨rfl, rfl⟩
  | _ => cases hc

/-- After every run of steps, an operator is pending only with an operand, which is that of the latest call that
introduced one; a comparison that completes takes both; and the filter is the one last put in place, with the
conditions completed since joined to it in order, each by the operator that its own operand came with. -/
theorem pending_never_leaks {steps : List Step} {b : Builder} {past : History}
    (h : Builder.replay {} [] steps = (b, past)) :
    (b.connective.isSome = true → b.left.isSome = true) ∧
    b.left = past.pending.map Introduced.operand ∧
    (∀ s after, s.isComparator = true → b.step s = .ok after → after.left = none ∧ after.connective = none) ∧
    b.query.filter = past.fragments.foldl (fun filter x => some (mergeFilter filter x.1 x.2)) past.base := by
  have htracks : Tracks past b := by
    have := tracks_replay steps tracks_start
    rwa [h] at this
  refine ⟨fun hc => ?_, htracks.left, fun s after => Builder.step_comparator, htracks.filter⟩
  rw [Option.isSome_iff_ne_none] at hc ⊢
  exact fun hl => hc (htracks.idle hl)

/-- A comparison without an operand fails, an operand is given up for another, and a filter is set between the
operand and its comparison. -/
theorem pending_never_leaks_abandoned :
    (Builder.replay {} [] [.compare (.equal .null), .whereField (.name "a"), .compare (.equal (.int 1)),
      .continueWith .and (.name "b"), .continueWith .or (.name "c"), .transform ⟨.trim, []⟩,
      .setFilter (.entry "d" (.int 2)), .between (.int 3) (.int 4)]).1.query.filter =
    some (.entry "$and" (.array
      [.entry "$or" (.array [.entry "d" (.int 2), .entry "c" (.entry "$trim" (.entry "$gte" (.int 3)))]),
       .entry "c" (.entry "$trim" (.entry "$lte" (.int 4)))])) := by
  refine (pending_never_leaks (Prod.eta _).symm).2.2.2.trans ?_
  rfl

end SqlQuery
