import Mathlib
import SqlQuery.Proofs.ClosedRanges
import SqlQuery.Proofs.DocumentReading

/-!
# Fields as entries

A field that is made of a name by transforms and labels is one entry of a document, and the entry is read as the field
(`fragment_decodes`). An argument that stands alone has no list around it, so a list that stands alone could not be told
from several arguments. No transform makes one: its first argument is what a field stands for, which is a reference or
a method's document (`Term.Built`).

A `Field` has room for one label. In a `NestedField` a label may stand over any field, and that none is put over another
is a fact about the changes: they keep to the nested forms of fields (`nested_changed`).
-/

namespace SqlQuery

theorem Method.isOperatorKey_key (m : Method) : isOperatorKey m.key = true := isOperatorKey_dollar m.name

/-! ### Terms -/

namespace Term

/-- What a term stands for is a reference or the document of a method. -/
theorem value_cases (t : Term) :
    (∃ path, t.value = .ref path) ∨ ∃ (m : Method) (args : Value), t.value = .entry m.key args := by
  cases t with
  | simple name => exact .inl ⟨name, rfl⟩
  | computed m args => exact .inr ⟨m, _, rfl⟩

theorem value_ne_array (t : Term) (items : List Value) : t.value ≠ .array items := by
  rcases t.value_cases with ⟨path, h⟩ | ⟨m, args, h⟩ <;> rw [h] <;> exact Value.noConfusion

/-- A name, or a method whose first argument is what a term stands for. -/
inductive Built : Term → Prop where
  | simple (name : String) : Built (.simple name)
  | computed (m : Method) {t : Term} (ht : Built t) (extra : List Value) : Built (.computed m (t.value :: extra))

/-- The arguments are found again, whether they are a list or the first of them stands alone. -/
theorem ofOperator_argumentValue (m : Method) {first : Value} (h : ∀ items, first ≠ .array items) (extra : List Value) :
    ofOperator m.key (Expr.argumentValue (first :: extra)) = .ok (.computed m (first :: extra)) := by
  rw [ofOperator, Predicate.ofKey?_key]
  cases extra with
  | cons second extra => rfl
  | nil =>
    cases first with
    | array items => exact absurd rfl (h items)
    | _ => rfl

end Term

/-! ### Entries -/

namespace Column

theorem ofEntry_operator {key : String} (h : isOperatorKey key = true) (args : Value) :
    ofEntry key args = (Term.ofOperator key args).map fun term => .field { term } := by
  unfold ofEntry
  exact if_pos h

theorem ofEntry_labelled {label op : String} (hl : isOperatorKey label = false) (ho : isOperatorKey op = true)
    (args : Value) :
    ofEntry label (.entry op args) =
      (Term.ofOperator op args).map fun term => .field { term, label := some label } := by
  unfold ofEntry
  rw [hl]
  exact if_pos ho

/-- The columns of a closure are those of the document that its tree is rendered to. -/
theorem ofClosure_of_render {c : Closure} {e : Expr} {rendered : Value} (ht : c.translate = .ok e)
    (hr : e.render = .ok rendered) : ofClosure c = ofRendered rendered := by
  have ht' : c.translate.mapError Error.closure = .ok e := mapError_eq_ok.2 ht
  have hr' : e.render.mapError Error.render = .ok rendered := mapError_eq_ok.2 hr
  unfold ofClosure ofExpr
  rw [ht']
  dsimp only [bind, Except.bind]
  rw [hr']

end Column

/-! ### Fields -/

namespace Field

/-- What is done to a field: it is transformed, or it gets a label. -/
inductive Change where
  | transform (t : Transform)
  | relabel (label : String)

def change (f : Field) : Change → Field
  | .transform t => f.apply t
  | .relabel label => f.relabel label

/-- The field of a name after changes. -/
def changed (name : String) (changes : List Change) : Field := changes.foldl change (ofName name)

/-- The field, without a label that is its own name. -/
def withoutOwnName (f : Field) : Field :=
  match f with
  | ⟨.simple name, some label⟩ => if label = name then ofName name else f
  | f => f

/-- A field as changes make it: its keys are no operators, but for that of a method. -/
structure Lawful (f : Field) : Prop where
  built : f.term.Built
  name : ∀ name, f.term = .simple name → isOperatorKey name = false
  label : ∀ label, f.label = some label → isOperatorKey label = false

theorem Lawful.change {f : Field} (h : f.Lawful) {c : Change}
    (hc : ∀ label, c = .relabel label → isOperatorKey label = false) : (f.change c).Lawful := by
  cases c with
  | transform t =>
    refine ⟨.computed t.method h.built t.extra, ?_, h.label⟩
    intro name hname
    cases hname
  | relabel label =>
    refine ⟨h.built, h.name, ?_⟩
    intro label' hlabel
    cases hlabel
    exact hc label rfl

theorem lawful_changed {name : String} {changes : List Change} (hname : isOperatorKey name = false)
    (hlabels : ∀ label, .relabel label ∈ changes → isOperatorKey label = false) : (changed name changes).Lawful := by
  have hstart : (ofName name).Lawful := by
    refine ⟨.simple name, ?_, ?_⟩
    · intro name' h
      cases h
      exact hname
    · intro label h
      cases h
  unfold changed
  generalize ofName name = f at hstart
  induction changes generalizing f with
  | nil => exact hstart
  | cons c changes ih =>
    refine ih (fun label hmem => hlabels label (List.mem_cons_of_mem c hmem)) _ (hstart.change ?_)
    rintro label rfl
    exact hlabels label List.mem_cons_self

/-- Each of the four forms of a field is told from the others by its entry. -/
theorem Lawful.ofEntry_fragment {f : Field} (h : f.Lawful) :
    ∃ key value, f.fragment = .object [(key, value)] ∧ ofEntry key value = .ok f.withoutOwnName ∧
      ∀ label, f.label = some label → key = label ∧ value = f.term.value := by
  obtain ⟨term, label⟩ := f
  obtain ⟨hbuilt, hname, hlabel⟩ := h
  cases hbuilt with
  | simple name =>
    cases label with
    | none =>
      refine ⟨name, .int 1, rfl, ?_, fun _ h => by cases h⟩
      rw [ofEntry, Column.ofEntry, hname name rfl]
      rfl
    | some label =>
      refine ⟨label, .ref name, rfl, ?_, fun _ h => by cases h; exact ⟨rfl, rfl⟩⟩
      rw [ofEntry, Column.ofEntry, hlabel label rfl, withoutOwnName]
      by_cases hown : label = name
      · subst hown
        simp
      · simp [hown, Ne.symm hown, ofName, relabel]
  | @computed m t ht extra =>
    -- the first argument is no list, so it is found again when it stands alone
    have hargs := Term.ofOperator_argumentValue m t.value_ne_array extra
    cases label with
    | none =>
      refine ⟨m.key, _, rfl, ?_, fun _ h => by cases h⟩
      rw [ofEntry, Column.ofEntry_operator m.isOperatorKey_key, hargs]
      rfl
    | some label =>
      refine ⟨label, .entry m.key (Expr.argumentValue (t.value :: extra)), rfl, ?_,
        fun _ h => by cases h; exact ⟨rfl, rfl⟩⟩
      rw [ofEntry, Column.ofEntry_labelled (hlabel label rfl) m.isOperatorKey_key, hargs]
      rfl

end Field

/-! ### Labels over labels -/

/-- A field as a tree, in which a label may stand over any field. -/
inductive NestedField where
  | simple (name : String)
  | computed (method : Method) (args : List Value)
  | labelled (label : String) (field : NestedField)

namespace NestedField

/-- The form of a field as an argument, without its labels. -/
def value : NestedField → Value
  | simple name => .ref name
  | computed method args => .entry method.key (Expr.argumentValue args)
  | labelled _ field => field.value

def fragment : NestedField → Value
  | simple name => .entry name (.int 1)
  | computed method args => .entry method.key (Expr.argumentValue args)
  | labelled label field => .entry label field.value

def label? : NestedField → Option String
  | labelled label _ => some label
  | _ => none

/-- The field under a label, in place of its outermost one. -/
def relabel (f : NestedField) (label : String) : NestedField :=
  match f with
  | labelled _ field => .labelled label field
  | other => .labelled label other

/-- A transform goes below all labels. -/
def apply (f : NestedField) (t : Transform) : NestedField :=
  match f with
  | labelled label field => .labelled label (field.apply t)
  | other => .computed t.method (other.value :: t.extra)

def change (f : NestedField) : Field.Change → NestedField
  | .transform t => f.apply t
  | .relabel label => f.relabel label

/-- The nested field of a name after changes. -/
def changed (name : String) (changes : List Field.Change) : NestedField := changes.foldl change (.simple name)

/-- There is no label over a label. -/
def Flat : NestedField → Prop
  | labelled _ field => field.label? = none
  | _ => True

theorem relabel_apply (f : NestedField) (label : String) (t : Transform) :
    (f.relabel label).apply t = (f.apply t).relabel label := by
  cases f <;> rfl

end NestedField

def Term.nested : Term → NestedField
  | .simple name => .simple name
  | .computed method args => .computed method args

namespace Field

def nested (f : Field) : NestedField :=
  match f.label with
  | none => f.term.nested
  | some label => .labelled label f.term.nested

/-- The nested forms of fields are those without a label over a label. -/
theorem flat_iff_exists_nested {f : NestedField} : f.Flat ↔ ∃ g : Field, g.nested = f := by
  constructor
  · intro h
    match f with
    | .simple name => exact ⟨⟨.simple name, none⟩, rfl⟩
    | .computed method args => exact ⟨⟨.computed method args, none⟩, rfl⟩
    | .labelled label (.simple name) => exact ⟨⟨.simple name, some label⟩, rfl⟩
    | .labelled label (.computed method args) => exact ⟨⟨.computed method args, some label⟩, rfl⟩
    | .labelled _ (.labelled _ _) => cases h
  · rintro ⟨⟨term, label⟩, rfl⟩
    cases label <;> cases term <;> trivial

/-- Nothing of a field is lost in its nested form. -/
theorem nested_injective : Function.Injective nested := by
  rintro ⟨term, label⟩ ⟨term', label'⟩ h
  cases label <;> cases label' <;> cases term <;> cases term' <;> cases h <;> rfl

theorem fragment_nested (f : Field) : f.nested.fragment = f.fragment := by
  obtain ⟨term, label⟩ := f
  cases label <;> cases term <;> rfl

theorem nested_change (f : Field) (c : Change) : (f.change c).nested = f.nested.change c := by
  obtain ⟨term, label⟩ := f
  cases c <;> cases label <;> cases term <;> rfl

/-- Changes do the same to a field and to its nested form. -/
theorem nested_changed (name : String) (changes : List Change) :
    (changed name changes).nested = NestedField.changed name changes := by
  have hrun (f : Field) : (changes.foldl change f).nested = changes.foldl NestedField.change f.nested := by
    induction changes generalizing f with
    | nil => rfl
    | cons c changes ih => rw [List.foldl_cons, List.foldl_cons, ih, nested_change]
  exact hrun (ofName name)

end Field

/-- A field that is made of a name by transforms and labels is a document with one entry, which is read as the field; a
name under itself is read as the bare name. Below a label there is no other: what stands there is a reference or the
document of a method. A transform and a label can change places. If labels may be nested, the same changes put none
over another and give the nested form of the field, with the same document. -/
theorem fragment_decodes (name : String) (changes : List Field.Change) (hname : isOperatorKey name = false)
    (hlabels : ∀ label, .relabel label ∈ changes → isOperatorKey label = false) :
    (∃ key value, (Field.changed name changes).fragment = .object [(key, value)] ∧
      Field.ofEntry key value = .ok (Field.changed name changes).withoutOwnName ∧
      ∀ label, (Field.changed name changes).label = some label → key = label ∧
        ((∃ path, value = .ref path) ∨ ∃ (m : Method) (args : Value), value = .entry m.key args)) ∧
    (∀ (label : String) (t : Transform), ((Field.changed name changes).relabel label).apply t =
      ((Field.changed name changes).apply t).relabel label) ∧
    (NestedField.changed name changes).Flat ∧
    NestedField.changed name changes = (Field.changed name changes).nested ∧
    (NestedField.changed name changes).fragment = (Field.changed name changes).fragment ∧
    ∀ (label : String) (t : Transform), ((NestedField.changed name changes).relabel label).apply t =
      ((NestedField.changed name changes).apply t).relabel label := by
  obtain ⟨key, value, hfragment, hread, hlabel⟩ := (Field.lawful_changed hname hlabels).ofEntry_fragment
  refine ⟨⟨key, value, hfragment, hread, ?_⟩, fun _ _ => rfl, ?_⟩
  · intro label h
    obtain ⟨hkey, rfl⟩ := hlabel label h
    exact ⟨hkey, Term.value_cases _⟩
  · rw [← Field.nested_changed]
    exact ⟨Field.flat_iff_exists_nested.2 ⟨_, rfl⟩, rfl, Field.fragment_nested _, NestedField.relabel_apply _⟩

/-- A product under a label that is then extended by a list, and gets the name of the field that it was made of. -/
theorem fragment_decodes_relabelled :
    ∃ key value, (Field.changed "price" [.transform ⟨.multiply, [.int 2]⟩, .relabel "doubled",
        .transform ⟨.concat, [.array [.int 1]]⟩, .relabel "price"]).fragment = .object [(key, value)] ∧
      Field.ofEntry key value = .ok ⟨.computed .concat
        [.entry "$multiply" (.array [.ref "price", .int 2]), .array [.int 1]], some "price"⟩ := by
  have hlabels : ∀ label, Field.Change.relabel label ∈ [.transform ⟨.multiply, [.int 2]⟩, .relabel "doubled",
      .transform ⟨.concat, [.array [.int 1]]⟩, .relabel "price"] → isOperatorKey label = false := by
    intro label h
    obtain rfl | rfl : label = "doubled" ∨ label = "price" := by simpa using h
    · decide
    · decide
  obtain ⟨key, value, hfragment, hread, -⟩ := (fragment_decodes "price" _ (by decide) hlabels).1
  exact ⟨key, value, hfragment, hread⟩

end SqlQuery
