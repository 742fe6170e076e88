import Mathlib
import SqlQuery.Proofs.ClosureTrees
import SqlQuery.Proofs.CompiledFilters
import SqlQuery.Proofs.FilterMerging
import SqlQuery.Proofs.LiteralReading
import SqlQuery.Proofs.ValueEquality
import SqlQuery.Query.Step

/-!
# The rows of an insert

`readTuples?` reads the rows of an insert as a database does, as tuples of constants. A value is read as the constants
that its text has, which for a list are those of its items, one after the other (`fills_constant`). The columns are the
keys of the first row. So an insert holds all that its rows hold just if no row has a key that the first lacks, and none
has a list under a column (`insert_kept_iff`).
-/

namespace SqlQuery

namespace Sql

/-! ### Tuples -/

/-- A constant in a tuple: a literal with the text that it stands for, or a number or a word without quotes. -/
inductive Cell where
  | text (s : List Char)
  | word (w : List Char)
  deriving DecidableEq

/-- A word with one more character; nothing but a separator can follow a literal. -/
def Cell.extend? : Option Cell → Char → Option Cell
  | none, c => some (.word [c])
  | some (.word w), c => some (.word (w ++ [c]))
  | some (.text _), _ => none

/-- Between two tuples, between a comma in a tuple and the blank after it, or at a constant of a tuple. -/
inductive TupleReader where
  | outside (tuples : List (List Cell))
  | gap (tuples : List (List Cell)) (tuple : List Cell)
  | inside (tuples : List (List Cell)) (tuple : List Cell) (cell : Option Cell)

namespace TupleReader

/-- Goes on by a token. A place in a tuple with nothing in it is no constant. -/
def step : TupleReader → Token → Option TupleReader
  | .outside tuples, .char c =>
    if c = '(' then some (.inside tuples [] none)
    else if c = ',' ∨ c = ' ' then some (.outside tuples)
    else none
  | .gap tuples tuple, .char c => if c = ' ' then some (.inside tuples tuple none) else none
  | .inside tuples tuple cell, .char c =>
    if c = ',' then some (.gap tuples (tuple ++ cell.toList))
    else if c = ')' then some (.outside (tuples ++ [tuple ++ cell.toList]))
    else (Cell.extend? cell c).map fun cell => .inside tuples tuple (some cell)
  | .inside tuples tuple none, .literal text => some (.inside tuples tuple (some (.text text)))
  | _, .literal _ => none

/-- Goes on by tokens, one after the other. -/
def run (r : TupleReader) (tokens : List Token) : Option TupleReader := tokens.foldlM step r

/-- The tuples that have been read when none is open. -/
def tuples? : TupleReader → Option (List (List Cell))
  | .outside tuples => some tuples
  | _ => none

theorem run_append (r : TupleReader) (xs ys : List Token) : r.run (xs ++ ys) = (r.run xs).bind (·.run ys) :=
  List.foldlM_append

theorem run_append_of_eq {r r' : TupleReader} {xs : List Token} (h : r.run xs = some r') (ys : List Token) :
    r.run (xs ++ ys) = r'.run ys := by
  rw [run_append, h, Option.bind_some]

end TupleReader

/-- The tuples that SQL lists. -/
def readTuples? (d : Dialect) (sql : String) : Option (List (List Cell)) :=
  (d.tokens? sql).bind fun tokens => (TupleReader.run (.outside []) tokens).bind TupleReader.tuples?

variable {d : Dialect} {s t : String}

/-- A relation between texts and lists that goes over to texts with commas between them. -/
theorem joinWith_of_append {α : Type} {R : String → List α → Prop} (hnil : R "" [])
    (happend : ∀ {s t xs ys}, R s xs → R t ys → R (s ++ ", " ++ t) (xs ++ ys)) {texts : List String}
    {xss : List (List α)} (h : List.Forall₂ R texts xss) : R (Text.joinWith ", " texts) xss.flatten := by
  induction h with
  | nil => exact hnil
  | @cons s xs texts xss hs hrest ih =>
    cases hrest with
    | nil =>
      rw [List.flatten_singleton]
      exact hs
    | cons => exact happend hs ih

/-- At the start of a constant, a text is read as constants. The last of them may still be open. -/
def Fills (d : Dialect) (s : String) (cells : List Cell) : Prop :=
  ∃ tokens, Reads d s.toList tokens ∧ ∀ tuples tuple, ∃ closed cell,
    TupleReader.run (.inside tuples tuple none) tokens = some (.inside tuples closed cell) ∧
      closed ++ cell.toList = tuple ++ cells

/-- Between tuples, a text is read as tuples. -/
def Lists (d : Dialect) (s : String) (more : List (List Cell)) : Prop :=
  ∃ tokens, Reads d s.toList tokens ∧
    ∀ tuples, TupleReader.run (.outside tuples) tokens = some (.outside (tuples ++ more))

/-- What a number or a word is made of. -/
def isWordChar (c : Char) : Bool := !(['\x27', ',', ')'].contains c)

theorem isWordChar_of_isFloatChar {c : Char} (h : isFloatChar c = true) : isWordChar c = true := by
  have hnot : ∀ x, isFloatChar x = false → c ≠ x := by
    rintro _ hx rfl
    exact Bool.false_ne_true (hx.symm.trans h)
  simp [isWordChar, hnot '\x27' (by decide), hnot ',' (by decide), hnot ')' (by decide)]

namespace Fills

theorem nil (d : Dialect) : Fills d "" [] := ⟨[], .nil d, fun _ tuple => ⟨tuple, none, rfl, rfl⟩⟩

theorem quote (d : Dialect) (s : String) : Fills d (d.quote s) [.text s.toList] :=
  ⟨_, .quote d s, fun _ tuple => ⟨tuple, _, rfl, rfl⟩⟩

theorem run_char {c : Char} (h : isWordChar c = true) {cell : Option Cell} {cell' : Cell}
    (hcell : Cell.extend? cell c = some cell') (tuples : List (List Cell)) (tuple : List Cell) :
    TupleReader.run (.inside tuples tuple cell) [.char c] = some (.inside tuples tuple (some cell')) := by
  have hc : c ≠ ',' ∧ c ≠ ')' := by
    constructor <;> rintro rfl <;> exact absurd h (by decide)
  simp [TupleReader.run, TupleReader.step, hc, hcell]

theorem run_word {w : List Char} (h : w.all isWordChar = true) (tuples : List (List Cell)) (tuple : List Cell)
    (front : List Char) :
    TupleReader.run (.inside tuples tuple (some (.word front))) (w.map .char) =
      some (.inside tuples tuple (some (.word (front ++ w)))) := by
  induction w generalizing front with
  | nil => rw [List.append_nil]; rfl
  | cons c w ih =>
    rw [List.all_cons, Bool.and_eq_true] at h
    rw [List.map_cons, ← List.singleton_append, TupleReader.run_append_of_eq (run_char h.1 rfl tuples tuple), ih h.2,
      List.append_assoc]
    rfl

theorem word (d : Dialect) {w : String} (h : w.toList.all isWordChar = true) (hne : w.toList ≠ []) :
    Fills d w [.word w.toList] := by
  have hquote : '\x27' ∉ w.toList := fun hc => absurd (List.all_eq_true.1 h _ hc) (by decide)
  refine ⟨_, .plain hquote, fun tuples tuple => ⟨tuple, some (.word w.toList), ?_, rfl⟩⟩
  obtain ⟨c, cs, hw⟩ := List.exists_cons_of_ne_nil hne
  rw [hw, List.all_cons, Bool.and_eq_true] at h
  rw [hw, List.map_cons, ← List.singleton_append, TupleReader.run_append_of_eq (run_char h.1 rfl tuples tuple),
    run_word h.2]
  rfl

theorem append {xs ys : List Cell} (hs : Fills d s xs) (ht : Fills d t ys) : Fills d (s ++ ", " ++ t) (xs ++ ys) := by
  obtain ⟨tokens, hread, hrun⟩ := hs
  obtain ⟨more, hmore, hrunMore⟩ := ht
  refine ⟨tokens ++ [.char ',', .char ' '] ++ more, ?_, fun tuples tuple => ?_⟩
  · rw [String.toList_append, String.toList_append]
    exact hread.append_plain [',', ' '] (by decide) (by decide) hmore
  · obtain ⟨closed, cell, hfirst, hclosed⟩ := hrun tuples tuple
    obtain ⟨closed', cell', hsecond, hclosed'⟩ := hrunMore tuples (tuple ++ xs)
    refine ⟨closed', cell', ?_, by rw [hclosed', List.append_assoc]⟩
    -- the comma closes the constant that the first text leaves open
    rw [List.append_assoc, TupleReader.run_append_of_eq hfirst, ← hsecond, ← hclosed]
    rfl

theorem joinWith {texts : List String} {xss : List (List Cell)} (h : List.Forall₂ (Fills d) texts xss) :
    Fills d (Text.joinWith ", " texts) xss.flatten :=
  joinWith_of_append (nil d) append h

end Fills

namespace Lists

theorem nil (d : Dialect) : Lists d "" [] := ⟨[], .nil d, fun tuples => by rw [List.append_nil]; rfl⟩

theorem tuple {cells : List Cell} (h : Fills d s cells) : Lists d ("(" ++ s ++ ")") [cells] := by
  obtain ⟨tokens, hread, hrun⟩ := h
  refine ⟨.char '(' :: (tokens ++ [.char ')']), ?_, fun tuples => ?_⟩
  · have hclosed := hread.append_plain [')'] (by decide) (by decide) (.nil d)
    have hopened := (Reads.nil d).append_plain ['('] (by decide) (by decide) hclosed
    simpa using hopened
  · obtain ⟨closed, cell, hinside, hcells⟩ := hrun tuples []
    have hopen : TupleReader.run (.outside tuples) [.char '('] = some (.inside tuples [] none) := rfl
    have hclose : TupleReader.run (.inside tuples closed cell) [.char ')'] =
        some (.outside (tuples ++ [closed ++ cell.toList])) := rfl
    rw [← List.singleton_append, TupleReader.run_append_of_eq hopen, TupleReader.run_append_of_eq hinside, hclose,
      hcells, List.nil_append]

theorem append {xs ys : List (List Cell)} (hs : Lists d s xs) (ht : Lists d t ys) :
    Lists d (s ++ ", " ++ t) (xs ++ ys) := by
  obtain ⟨tokens, hread, hrun⟩ := hs
  obtain ⟨more, hmore, hrunMore⟩ := ht
  refine ⟨tokens ++ [.char ',', .char ' '] ++ more, ?_, fun tuples => ?_⟩
  · rw [String.toList_append, String.toList_append]
    exact hread.append_plain [',', ' '] (by decide) (by decide) hmore
  · rw [List.append_assoc, TupleReader.run_append_of_eq (hrun tuples), ← List.append_assoc tuples, ← hrunMore]
    rfl

theorem joinWith {texts : List String} {tuples : List (List Cell)}
    (h : List.Forall₂ (fun text tuple => Lists d text [tuple]) texts tuples) :
    Lists d (Text.joinWith ", " texts) tuples := by
  have hsingle : List.Forall₂ (Lists d) texts (tuples.map fun tuple => [tuple]) := List.forall₂_map_right_iff.2 h
  have hjoined := joinWith_of_append (nil d) append hsingle
  rwa [← List.flatMap_def, List.flatMap_singleton'] at hjoined

theorem readTuples? {tuples : List (List Cell)} (h : Lists d s tuples) : readTuples? d s = some tuples := by
  obtain ⟨tokens, hread, hrun⟩ := h
  rw [Sql.readTuples?, hread.tokens?, Option.bind_some, hrun, Option.bind_some, List.nil_append]
  rfl

end Lists

end Sql

open Sql (Cell Formatter readTuples?)

/-! ### Constants -/

namespace Value

/-- The constant that a value is; lists, documents and references are none. -/
def cell? : Value → Option Cell
  | .null => some (.word "NULL".toList)
  | .bool b => some (.word (if b then "true" else "false").toList)
  | .int n => some (.word (Decimal.intText n.toInt).toList)
  | .float x =>
    if x.isFinite then some (.word (Decimal.floatText x).toList) else some (.text (Decimal.floatText x).toList)
  | .string s => some (.text s.toList)
  | .date t => some (.text (t.text " ").toList)
  | .array _ | .object _ | .ref _ => none

mutual

/-- The constants that a value is read as, those of a list in place of the list. -/
def cells : Value → List Cell
  | .array items => cellsOfItems items
  | v => v.cell?.toList

/-- The constants of the items of a list. -/
def cellsOfItems : List Value → List Cell
  | [] => []
  | item :: items => item.cells ++ cellsOfItems items

end

theorem cells_array (items : List Value) : (Value.array items).cells = items.flatMap cells := by
  rw [cells]
  induction items with
  | nil => rfl
  | cons item items ih => rw [cellsOfItems, ih, List.flatMap_cons]

theorem cells_of_cell? {v : Value} {cell : Cell} (h : v.cell? = some cell) : v.cells = [cell] := by
  cases v with
  | array | object | ref => cases h
  | _ =>
    rw [cells, h, Option.toList_some]
    all_goals exact fun _ => Value.noConfusion

/-- Values are read as one constant each just if each of them is one. -/
theorem map_some_cells_iff {values : List Value} :
    (values.flatMap cells).map some = values.map cell? ↔ ∀ v ∈ values, v.cell?.isSome = true := by
  constructor
  · -- the constants on the left need not be those of the values in their places, but none of them is missing
    intro h v hv
    have hmem : v.cell? ∈ (values.flatMap cells).map some := h ▸ List.mem_map_of_mem hv
    obtain ⟨cell, -, hcell⟩ := List.mem_map.1 hmem
    rw [← hcell]
    rfl
  · intro h
    induction values with
    | nil => rfl
    | cons v values ih =>
      obtain ⟨hv, hrest⟩ := List.forall_mem_cons.1 h
      obtain ⟨cell, hcell⟩ := Option.isSome_iff_exists.1 hv
      rw [List.flatMap_cons, List.map_append, ih hrest, cells_of_cell? hcell, List.map_cons (l := values), hcell]
      rfl

end Value

namespace Sql

variable {f : Formatter}

/-- A value that is no list is read as the constant that it is. -/
theorem fills_literal {v : Value} (hv : Filter.isLiteral v = true) {text : String} (h : f.constant v = .ok text) :
    ∃ cell, v.cell? = some cell ∧ Fills f.dialect text [cell] := by
  cases v with
  | array | object | ref => cases hv
  | null =>
    cases h
    exact ⟨_, rfl, .word _ (by decide) (by decide)⟩
  | bool b =>
    cases b <;> cases h
    · exact ⟨_, rfl, .word _ (w := "false") (by decide) (by decide)⟩
    · exact ⟨_, rfl, .word _ (w := "true") (by decide) (by decide)⟩
  | int n =>
    cases h
    refine ⟨_, rfl, .word _ (List.all_eq_true.2 fun c hc => ?_) (intText_ne_nil _)⟩
    refine isWordChar_of_isFloatChar ?_
    rw [isFloatChar, (Numeric.intText _).isNumberChar_of_mem hc]
    rfl
  | float x =>
    obtain rfl : (if x.isFinite then Decimal.floatText x else f.dialect.quote (Decimal.floatText x)) = text :=
      Except.ok.inj h
    rw [Value.cell?]
    split
    · refine ⟨_, rfl, .word _ (List.all_eq_true.2 fun c hc => ?_) (floatText_ne_nil x)⟩
      exact isWordChar_of_isFloatChar (isFloatChar_of_mem_floatText hc)
    · exact ⟨_, rfl, .quote ..⟩
  | string s =>
    cases h
    exact ⟨_, rfl, .quote ..⟩
  | date t =>
    cases h
    refine ⟨_, rfl, ?_⟩
    show Fills f.dialect ("'" ++ t.text " " ++ "'") _
    rw [← quote_of_numeric _ (numeric_timestamp t)]
    exact .quote ..

theorem constants_eq_mapM (items : List Value) : f.constants items = items.mapM f.constant := by
  induction items with
  | nil => rw [Formatter.constants, List.mapM_nil]; rfl
  | cons item items ih => rw [Formatter.constants, List.mapM_cons, ih]

theorem constant_array (items : List Value) :
    f.constant (.array items) = do return Text.joinWith ", " (← items.mapM f.constant) := by
  rw [Formatter.constant, constants_eq_mapM]

/-- Values with commas between them are read as the constants of all of them. -/
theorem fills_values {values : List Value} {texts : List String} (h : values.mapM f.constant = .ok texts)
    (hv : ∀ v ∈ values, ∀ {text}, f.constant v = .ok text → Fills f.dialect text v.cells) :
    Fills f.dialect (Text.joinWith ", " texts) (values.flatMap Value.cells) := by
  have hboth := (List.forall₂_and_left values texts).2 ⟨hv, forall₂_mapM h⟩
  have hfills : List.Forall₂ (Fills f.dialect) texts (values.map Value.cells) :=
    List.forall₂_map_right_iff.2 (hboth.imp fun _ _ h => h.1 h.2).flip
  rw [List.flatMap_def]
  exact .joinWith hfills

theorem fills_constant (v : Value) {text : String} (h : f.constant v = .ok text) : Fills f.dialect text v.cells := by
  induction v using Value.induct generalizing text with
  | scalar v hv =>
    cases v with
    | array | object => cases hv
    | ref => cases h
    | _ =>
      obtain ⟨cell, hcell, hfills⟩ := fills_literal rfl h
      rw [Value.cells_of_cell? hcell]
      exact hfills
  | array items ih =>
    rw [constant_array] at h
    obtain ⟨texts, htexts, h⟩ := bind_eq_ok.1 h
    rw [← pure_eq_ok.1 h, Value.cells_array]
    exact fills_values htexts fun v hv => ih v hv
  | object entries => cases h

/-- Literals and lists of them have SQL as constants, and nothing else has. -/
theorem exists_constant_iff (v : Value) : (∃ text, f.constant v = .ok text) ↔ Closure.Constant v := by
  induction v using Value.induct with
  | scalar v hv =>
    cases v with
    | array | object => cases hv
    | ref path =>
      refine iff_of_false (fun ⟨_, h⟩ => by cases h) fun h => ?_
      cases h with
      | literal hv => cases hv
    | bool b => cases b <;> exact iff_of_true ⟨_, rfl⟩ (.literal rfl)
    | _ => exact iff_of_true ⟨_, rfl⟩ (.literal rfl)
  | array items ih =>
    rw [constant_array, exists_return_iff, exists_mapM_iff, forall₂_congr ih]
    refine ⟨.list, fun h => ?_⟩
    cases h with
    | literal hv => cases hv
    | list hv => exact hv
  | object entries =>
    refine iff_of_false (fun ⟨_, h⟩ => by cases h) fun h => ?_
    cases h with
    | literal hv => cases hv

end Sql

theorem Value.isSome_cell?_iff {v : Value} (h : Closure.Constant v) :
    v.cell?.isSome = true ↔ ∀ items, v ≠ .array items := by
  constructor
  · rintro hsome items rfl
    cases hsome
  · intro hv
    cases h with
    | literal hlit =>
      obtain ⟨text, htext⟩ := (Sql.exists_constant_iff (f := {}) v).2 (.literal hlit)
      obtain ⟨cell, hcell, -⟩ := Sql.fills_literal hlit htext
      rw [hcell]
      rfl
    | list => exact absurd rfl (hv _)

/-! ### Rows -/

/-- The values of a row under columns, null where it has none. -/
def valuesUnder (columns : List String) (row : Document) : List Value :=
  columns.map fun column => (Entries.get? column row).getD .null

namespace Sql

variable {f : Formatter} {columns : List String}

theorem rowValues_eq (row : Document) : f.rowValues columns row = do
    return "(" ++ Text.joinWith ", " (← (valuesUnder columns row).mapM f.constant) ++ ")" := by
  rw [valuesUnder, List.mapM_map]
  rfl

theorem exists_rowValues_iff {row : Document} :
    (∃ text, f.rowValues columns row = .ok text) ↔ ∀ v ∈ valuesUnder columns row, Closure.Constant v := by
  rw [rowValues_eq, exists_return_iff, exists_mapM_iff]
  exact forall₂_congr fun v _ => exists_constant_iff v

theorem lists_rowValues {row : Document} {text : String} (h : f.rowValues columns row = .ok text) :
    Lists f.dialect text [(valuesUnder columns row).flatMap Value.cells] := by
  rw [rowValues_eq] at h
  obtain ⟨texts, htexts, h⟩ := bind_eq_ok.1 h
  rw [← pure_eq_ok.1 h]
  exact .tuple (fills_values htexts fun v _ => fills_constant v)

theorem lists_rows {rows : List Document} {texts : List String} (h : rows.mapM (f.rowValues columns) = .ok texts) :
    Lists f.dialect (Text.joinWith ", " texts)
      (rows.map fun row => (valuesUnder columns row).flatMap Value.cells) :=
  .joinWith (List.forall₂_map_right_iff.2 ((forall₂_mapM h).imp fun _ _ => lists_rowValues).flip)

end Sql

namespace Rows

/-- The step that starts an insert of rows. -/
def step : Rows → Step
  | .one row => .insert (.object row)
  | .batch first more => .insertMany (first :: more)

/-- The columns of an insert. -/
def columns (rows : Rows) : List String := Entries.keys rows.first

/-- One row and a batch are inserted alike. -/
theorem exists_build (rows : Rows) (c : Collection) :
    ∃ q, Query.build [rows.step, .into c] = .ok q ∧ ∀ f : Formatter, f.insert q = f.insertRows c.name rows := by
  cases rows with
  | one row => exact ⟨_, rfl, fun _ => rfl⟩
  | batch first more => exact ⟨_, rfl, fun _ => rfl⟩

/-- Nothing of the rows is lost: their keys are columns, and each tuple has for each column one constant, the row's
value under it, or null where the row has none. -/
def KeptIn (rows : Rows) (columns : List String) (tuples : List (List Cell)) : Prop :=
  (∀ row ∈ rows.toList, Entries.keys row ⊆ columns) ∧
    tuples.map (·.map some) = rows.toList.map fun row => (valuesUnder columns row).map Value.cell?

instance (rows : Rows) (columns : List String) (tuples : List (List Cell)) : Decidable (rows.KeptIn columns tuples) :=
  inferInstanceAs (Decidable (_ ∧ _))

theorem keptIn_iff {rows : Rows} {columns : List String}
    (h : ∀ row ∈ rows.toList, ∀ v ∈ valuesUnder columns row, Closure.Constant v) :
    rows.KeptIn columns (rows.toList.map fun row => (valuesUnder columns row).flatMap Value.cells) ↔
      ∀ row ∈ rows.toList, Entries.keys row ⊆ columns ∧ ∀ items, .array items ∉ valuesUnder columns row := by
  have hrow : ∀ row ∈ rows.toList, ((valuesUnder columns row).flatMap Value.cells).map some =
      (valuesUnder columns row).map Value.cell? ↔ ∀ items, .array items ∉ valuesUnder columns row := by
    intro row hrow
    rw [Value.map_some_cells_iff, forall₂_congr fun v hv => Value.isSome_cell?_iff (h row hrow v hv)]
    constructor
    · exact fun hv items hmem => hv _ hmem items rfl
    · rintro hv _ hmem items rfl
      exact hv items hmem
  rw [KeptIn, List.map_map, List.map_inj_left, ← forall₂_and]
  exact forall₂_congr fun row hmem => and_congr_right' (hrow row hmem)

end Rows

theorem Sql.exists_insertRows_iff {f : Formatter} (name : String) (rows : Rows) :
    (∃ sql, f.insertRows name rows = .ok sql) ↔
      ∀ row ∈ rows.toList, ∀ v ∈ valuesUnder rows.columns row, Closure.Constant v := by
  rw [Formatter.insertRows, exists_return_iff, exists_mapM_iff]
  exact forall₂_congr fun row _ => exists_rowValues_iff

/-- An insert of rows has SQL just if the values under the columns are constants. A database then reads their constants
row by row, and nothing is lost exactly if no row has other keys than the first or a list under one of its keys. -/
theorem insert_kept_iff (c : Collection) (rows : Rows) :
    ∃ q, Query.build [rows.step, .into c] = .ok q ∧ ∀ f : Formatter,
      ((∃ sql, f.insert q = .ok sql) ↔
        ∀ row ∈ rows.toList, ∀ v ∈ valuesUnder rows.columns row, Closure.Constant v) ∧
      ∀ sql, f.insert q = .ok sql → ∃ values tuples,
        sql = "INSERT INTO " ++ f.style.name c.name ++ "(" ++ Text.joinWith ", " (rows.columns.map f.style.name) ++
          ") VALUES " ++ values ∧
        readTuples? f.dialect values = some tuples ∧
        tuples = rows.toList.map (fun row => (valuesUnder rows.columns row).flatMap Value.cells) ∧
        (rows.KeptIn rows.columns tuples ↔ ∀ row ∈ rows.toList,
          Entries.keys row ⊆ rows.columns ∧ ∀ items, .array items ∉ valuesUnder rows.columns row) := by
  obtain ⟨q, hq, hinsert⟩ := rows.exists_build c
  refine ⟨q, hq, fun f => ?_⟩
  rw [hinsert]
  have hsuccess := Sql.exists_insertRows_iff (f := f) c.name rows
  refine ⟨hsuccess, fun sql h => ?_⟩
  have hrows := hsuccess.1 ⟨sql, h⟩
  obtain ⟨texts, htexts, h⟩ := bind_eq_ok.1 h
  exact ⟨_, _, (pure_eq_ok.1 h).symm, (Sql.lists_rows htexts).readTuples?, rfl, Rows.keptIn_iff hrows⟩

/-- A row may lack keys of the first, and texts may hold what stands between constants. -/
theorem insert_kept_iff_sparse :
    ∃ q, Query.build [.insertMany [[("id", .int 1), ("name", .string "it's, (new)")], [("id", .int 2)]],
        .into ⟨"Products", none⟩] = .ok q ∧
      (Formatter.mk .postgres {}).insert q =
        .ok "INSERT INTO Products(id, name) VALUES (1, 'it''s, (new)'), (2, NULL)" ∧
      ∃ values tuples, "INSERT INTO Products(id, name) VALUES (1, 'it''s, (new)'), (2, NULL)" =
          "INSERT INTO Products(id, name) VALUES " ++ values ∧
        readTuples? .postgres values = some tuples ∧
        Rows.KeptIn (.batch [("id", .int 1), ("name", .string "it's, (new)")] [[("id", .int 2)]]) ["id", "name"]
          tuples := by
  obtain ⟨q, hq, hf⟩ := insert_kept_iff ⟨"Products", none⟩
    (.batch [("id", .int 1), ("name", .string "it's, (new)")] [[("id", .int 2)]])
  have hsql : (Formatter.mk .postgres {}).insert q =
      .ok "INSERT INTO Products(id, name) VALUES (1, 'it''s, (new)'), (2, NULL)" := by
    rw [← Except.ok.inj hq]
    exact eq_ok_of_toOption (by decide +kernel)
  obtain ⟨values, tuples, hvalues, hread, -, hkept⟩ := (hf _).2 _ hsql
  have hfront : "INSERT INTO " ++ (Formatter.mk .postgres {}).style.name "Products" ++ "(" ++
      Text.joinWith ", " (["id", "name"].map (Formatter.mk .postgres {}).style.name) ++ ") VALUES " =
        "INSERT INTO Products(id, name) VALUES " := by decide +kernel
  refine ⟨q, hq, hsql, values, tuples, hvalues.trans (congrArg (· ++ values) hfront), hread, hkept.2 ?_⟩
  refine List.forall_mem_cons.2 ⟨⟨by decide, ?_⟩, List.forall_mem_cons.2 ⟨⟨by decide, ?_⟩, List.forall_mem_nil _⟩⟩
  · intro items h
    simp [valuesUnder, Rows.columns, Rows.first, Entries.keys, Entries.get?] at h
  · intro items h
    simp [valuesUnder, Rows.columns, Rows.first, Entries.keys, Entries.get?] at h

/-- The key that only the second row has is no column, and a list of two takes two places. -/
theorem key_and_list_lost :
    (Query.build [.insertMany [[("id", .int 1)], [("id", .int 2), ("name", .string "Chai")]],
      .into ⟨"Products", none⟩]).toOption.bind (fun q => ((Formatter.mk .mysql {}).insert q).toOption) =
        some "INSERT INTO Products(id) VALUES (1), (2)" ∧
    readTuples? .mysql "(1), (2)" = some [[.word ['1']], [.word ['2']]] ∧
    ¬ Rows.KeptIn (.batch [("id", .int 1)] [[("id", .int 2), ("name", .string "Chai")]]) ["id"]
      [[.word ['1']], [.word ['2']]] ∧
    (Query.build [.insert (.object [("tags", .array [.string "a", .string "b"])]),
      .into ⟨"Products", none⟩]).toOption.bind (fun q => ((Formatter.mk .mysql {}).insert q).toOption) =
        some "INSERT INTO Products(tags) VALUES ('a', 'b')" ∧
    readTuples? .mysql "('a', 'b')" = some [[.text ['a'], .text ['b']]] ∧
    ¬ Rows.KeptIn (.one [("tags", .array [.string "a", .string "b"])]) ["tags"] [[.text ['a'], .text ['b']]] := by
  decide +kernel

end SqlQuery
