import SqlQuery.Proofs.ExpressionStructure
import SqlQuery.Proofs.FilterMeaning
import SqlQuery.Proofs.GrammaticalTrees
import SqlQuery.Proofs.TextSurface

/-!
# The surface of SQL expressions

Constants, calls and arithmetic have no comparison on their surface, whatever their arguments are: calls and arithmetic
put them in parentheses.
-/

namespace SqlQuery.Sql

open SqlQuery.Filter (isLiteral arity)

section

variable {d : Dialect} {s t : String}

/-! ### Constants -/

theorem shielded_of_all {p : Char → Bool} (hp : "'()=<>".toList.all (fun c => !p c) = true)
    (h : ∀ c ∈ s.toList, p c = true) : Shielded d s := by
  obtain ⟨hbare, hatomic⟩ := bare_of_all hp h
  exact .of_bare hbare hatomic

theorem shielded_numeric (h : Numeric s) : Shielded d s :=
  shielded_of_all (by decide) fun _ => h.isNumberChar_of_mem

/-- What numbers and words are made of. -/
def isUnquotedChar (c : Char) : Bool := !("'(),=<>".toList.contains c)

theorem isUnquotedChar_of_isFloatChar {c : Char} (h : isFloatChar c = true) : isUnquotedChar c = true := by
  have hfloat : "'(),=<>".toList.all (fun c => !isFloatChar c) = true := by decide
  cases hc : "'(),=<>".toList.contains c with
  | false => rw [isUnquotedChar, hc, Bool.not_false]
  | true =>
    have hnot := List.all_eq_true.1 hfloat c (List.contains_iff_mem.1 hc)
    rw [h] at hnot
    cases hnot

/-- A literal is quoted, or it is a number or a word. -/
theorem text_of_isLiteral {f : Formatter} {value : Value} (hv : isLiteral value = true) {text : String}
    (h : f.constant value = .ok text) :
    (∃ s, text = f.dialect.quote s) ∨ text.toList ≠ [] ∧ ∀ c ∈ text.toList, isUnquotedChar c = true := by
  have hword : ∀ w : String, w.toList ≠ [] ∧ w.toList.all isUnquotedChar = true →
      w.toList ≠ [] ∧ ∀ c ∈ w.toList, isUnquotedChar c = true := fun w hw => ⟨hw.1, List.all_eq_true.1 hw.2⟩
  cases value with
  | array | object | ref => cases hv
  | null =>
    cases h
    exact .inr (hword "NULL" (by decide))
  | bool b =>
    cases b
    · cases h
      exact .inr (hword "false" (by decide))
    · cases h
      exact .inr (hword "true" (by decide))
  | int n =>
    cases h
    refine .inr ⟨intText_ne_nil _, fun c hc => isUnquotedChar_of_isFloatChar ?_⟩
    rw [isFloatChar, (Numeric.intText _).isNumberChar_of_mem hc]
    rfl
  | float x =>
    obtain rfl : (if x.isFinite then Decimal.floatText x else f.dialect.quote (Decimal.floatText x)) = text :=
      Except.ok.inj h
    split
    · exact .inr ⟨floatText_ne_nil x, fun c hc => isUnquotedChar_of_isFloatChar (isFloatChar_of_mem_floatText hc)⟩
    · exact .inl ⟨_, rfl⟩
  | string s =>
    cases h
    exact .inl ⟨s, rfl⟩
  | date t =>
    cases h
    exact .inl ⟨_, (quote_of_numeric _ (numeric_timestamp t)).symm⟩

theorem shielded_constant {f : Formatter} {value : Value} (hv : isLiteral value = true) {text : String}
    (h : f.constant value = .ok text) : Shielded f.dialect text := by
  obtain ⟨s, rfl⟩ | ⟨-, hchars⟩ := text_of_isLiteral hv h
  · exact .quote ..
  · exact shielded_of_all (by decide) hchars

/-! ### Calls -/

theorem encloses_unaryCall? {f : Formatter} {m : Method} (hs : Balanced f.dialect s)
    (h : f.unaryCall? m s = some t) : Encloses f.dialect t [s] := by
  obtain ⟨p, q, hframes, rfl⟩ := exists_frames_of_unaryCall? h
  obtain ⟨k, hopened, hclose⟩ := hframes.opened
  have hcall : Opened f.dialect (p ++ s ++ q) [s] 0 := hopened.argument hs hframes.plain hclose
  exact hcall.encloses

theorem occurs_left (p s symbol r : String) {q : String} (h : q = symbol ++ r) :
    Occurs (s ++ symbol) (p ++ s ++ q) := by
  have hsplit : p ++ s ++ q = p ++ (s ++ symbol) ++ r := by
    rw [h, String.append_assoc, String.append_assoc, String.append_assoc]
  rw [hsplit]
  exact ((Occurs.refl _).append_left p).append_right r

theorem occurs_right (p symbol s : String) : Occurs (symbol ++ s) (p ++ symbol ++ s) := by
  rw [String.append_assoc]
  exact (Occurs.refl _).append_left p

/-- A position after a start is searched for twice. -/
theorem Encloses.searched {position start : String} {args : List String} (hp : Encloses d position args)
    (hplus : Occurs (start ++ " + ") position) (hstart : Balanced d start) :
    Encloses d ("(CASE WHEN " ++ position ++ " > 0 THEN " ++ position ++ " + " ++ start ++ " - 1 ELSE -1 END)")
      ((start ++ " + ") :: (" + " ++ start) :: (start ++ " - ") :: args) := by
  have hopened : Opened d "(CASE WHEN " [] 1 := .start (by decide)
  have hposition := hp.shielded.balanced
  have hencloses : Encloses d
      ("(CASE WHEN " ++ position ++ " > 0 THEN " ++ position ++ " + " ++ start ++ " - 1 ELSE -1 END)")
      [start, position, position] :=
    (((hopened.argument hposition (by decide) fun _ => rfl).argument hposition (by decide) fun _ => rfl).argument hstart
      (by decide) fun _ => rfl).encloses
  have hoccurs := hencloses.occurs position (by simp)
  have hargs := (⟨hencloses.shielded, fun a ha => (hp.occurs a ha).trans hoccurs⟩ : Encloses d _ args)
  refine ((hargs.cons ?_).cons ?_).cons (hplus.trans hoccurs)
  · exact occurs_left ("(CASE WHEN " ++ position ++ " > 0 THEN " ++ position ++ " + ") start " - " "1 ELSE -1 END)" rfl
  · exact (occurs_right ("(CASE WHEN " ++ position ++ " > 0 THEN " ++ position) " + " start).append_right _

theorem encloses_indexOf_none {search : String} (hs : Balanced d s) (hsearch : Balanced d search) :
    Encloses d (d.indexOf s search none) [s, search] := by
  unfold Dialect.indexOf
  cases d with
  | mysql =>
    have hopened : Opened .mysql "(LOCATE(" [] 2 := .start (by decide)
    exact ((hopened.argument hsearch (by decide) fun _ => rfl).argument hs (by decide) fun _ => rfl).encloses
  | postgres =>
    have hopened : Opened .postgres "(POSITION(" [] 2 := .start (by decide)
    exact ((hopened.argument hsearch (by decide) fun _ => rfl).argument hs (by decide) fun _ => rfl).encloses
  | sqlite =>
    have hopened : Opened .sqlite "(INSTR(" [] 2 := .start (by decide)
    exact Encloses.mono
      ((hopened.argument hs (by decide) fun _ => rfl).argument hsearch (by decide) fun _ => rfl).encloses (by simp)

/-- The start of a search and the symbols beside it. -/
def besideStart (d : Dialect) (start : String) : List String :=
  match d with
  | .mysql => [start ++ " + "]
  | _ => [start ++ " + ", " + " ++ start, start ++ " - "]

theorem encloses_indexOf_some {search start : String} (hs : Balanced d s) (hsearch : Balanced d search)
    (hstart : Balanced d start) :
    Encloses d (d.indexOf s search (some start)) (s :: search :: start :: besideStart d start) := by
  unfold Dialect.indexOf
  cases d with
  | mysql =>
    have hopened : Opened .mysql "(LOCATE(" [] 2 := .start (by decide)
    have hencloses : Encloses .mysql ("(LOCATE(" ++ search ++ ", " ++ s ++ ", " ++ start ++ " + 1)-1)")
        [start, s, search] :=
      (((hopened.argument hsearch (by decide) fun _ => rfl).argument hs (by decide) fun _ => rfl).argument hstart
        (by decide) fun _ => rfl).encloses
    have hplus : Occurs (start ++ " + ") ("(LOCATE(" ++ search ++ ", " ++ s ++ ", " ++ start ++ " + 1)-1)") :=
      occurs_left ("(LOCATE(" ++ search ++ ", " ++ s ++ ", ") start " + " "1)-1)" rfl
    exact (hencloses.cons hplus).mono (by simp [besideStart])
  | postgres =>
    have hopened : Opened .postgres "POSITION(" [] 1 := .start (by decide)
    have hposition : Encloses .postgres ("POSITION(" ++ search ++ " IN SUBSTRING(" ++ s ++ " FROM " ++ start ++ " + 1))")
        [start, s, search] :=
      (((hopened.argument hsearch (by decide) fun _ => rfl).argument hs (by decide) fun _ => rfl).argument hstart
        (by decide) fun _ => rfl).encloses
    have hplus := occurs_left ("POSITION(" ++ search ++ " IN SUBSTRING(" ++ s ++ " FROM ") start " + " "1))" rfl
    exact (hposition.searched hplus hstart).mono (by simp [besideStart])
  | sqlite =>
    have hopened : Opened .sqlite "INSTR(SUBSTR(" [] 2 := .start (by decide)
    have hinner : Opened .sqlite ("INSTR(SUBSTR(" ++ s ++ ", " ++ start ++ " + 1), ") [start, s] 1 :=
      (hopened.argument hs (by decide) fun _ => rfl).argument hstart (by decide) fun _ => rfl
    have hposition : Encloses .sqlite ("INSTR(SUBSTR(" ++ s ++ ", " ++ start ++ " + 1), " ++ search ++ ")")
        [search, start, s] := (hinner.argument hsearch (by decide) fun _ => rfl).encloses
    have hplus := ((occurs_left ("INSTR(SUBSTR(" ++ s ++ ", ") start " + " "1), " rfl).append_right search).append_right ")"
    exact (hposition.searched hplus hstart).mono (by simp [besideStart])

theorem occurs_joinWith (separator : String) {texts : List String} (h : s ∈ texts) :
    Occurs s (Text.joinWith separator texts) := by
  induction texts with
  | nil => cases h
  | cons text texts ih =>
    cases texts with
    | nil =>
      obtain rfl := List.mem_singleton.1 h
      exact .refl s
    | cons =>
      rw [Text.joinWith]
      rcases List.mem_cons.1 h with rfl | h
      · exact ((Occurs.refl s).append_right _).append_right _
      · exact (ih h).append_left _

theorem encloses_concat {texts : List String} (h : ∀ t ∈ texts, Balanced d t) : Encloses d (d.concat texts) texts := by
  have hencloses : ∃ separator, Encloses d (d.concat texts) [Text.joinWith separator texts] := by
    unfold Dialect.concat
    cases d with
    | mysql | postgres =>
      have hopened : ∀ d, Opened d "CONCAT(" [] 1 := fun _ => .start (by decide)
      have hjoined : Balanced _ (Text.joinWith ", " texts) := .joinWith h (by decide) (by decide)
      exact ⟨", ", ((hopened _).argument hjoined (by decide) fun _ => rfl).encloses⟩
    | sqlite => exact ⟨" || ", .parens (.joinWith h (by decide) (by decide))⟩
  obtain ⟨separator, hencloses⟩ := hencloses
  refine ⟨hencloses.shielded, fun t ht => ?_⟩
  exact (occurs_joinWith separator ht).trans (hencloses.occurs _ (List.mem_singleton_self _))

theorem balanced_operand (p : LikePattern) (d : Dialect) : Balanced d (p.operand d) := by
  have hescape : Balanced d " ESCAPE '!'" := by
    cases d <;> exact ⟨.inr rfl, fun n => by cases n <;> rfl⟩
  have hquote : Balanced d (d.quote (String.ofList p.chars)) := .quote ..
  have hparted : Parted d (d.quote (String.ofList p.chars)) " ESCAPE '!'" :=
    .inr ⟨hquote.closed, ' ', "ESCAPE '!'".toList, by decide, by decide⟩
  unfold LikePattern.operand
  split
  · exact hquote.append hescape hparted
  · rw [String.append_empty]
    exact hquote

theorem encloses_matchCall? {f : Formatter} {m : Method} {raw : List Value} (hs : Balanced f.dialect s)
    (h : f.matchCall? m s raw = some t) : Encloses f.dialect t [s] ∧ ∃ text, raw[1]? = some (.string text) := by
  unfold Formatter.matchCall? at h
  split at h
  · next text _ =>
    obtain ⟨p, -, rfl⟩ := Option.map_eq_some_iff.1 h
    have hopened : Opened f.dialect "(" [] 1 := .start (by decide)
    have hlike : Opened f.dialect ("(" ++ s ++ " LIKE " ++ p.operand f.dialect ++ ")") [p.operand f.dialect, s] 0 :=
      (hopened.argument hs (by decide) fun _ => rfl).argument (balanced_operand p f.dialect) (by decide) fun _ => rfl
    exact ⟨hlike.encloses.mono (by simp), text, rfl⟩
  · cases h

/-- The start of a substring is a number, or one more than the argument. -/
theorem start_of_substringStart? {raw : List Value} {sql : List String} {start : String}
    (hsql : ∀ s ∈ sql, Balanced d s) (h : Formatter.substringStart? raw sql = some start) :
    Balanced d start ∧ ∀ x, sql[1]? = some x → intAt? raw 1 = none → Occurs (x ++ " + ") start := by
  rw [substringStart?_eq] at h
  split at h
  · next n hn =>
    rw [Option.ite_none_left_eq_some] at h
    obtain ⟨-, hstart⟩ := h
    cases hstart
    refine ⟨(shielded_numeric (.intText _)).balanced, fun x _ hnone => ?_⟩
    rw [hnone] at hn
    cases hn
  · next x _ hx =>
    cases h
    have hbalanced : Balanced d x := hsql x (List.mem_of_getElem? hx)
    have hopened : Opened d "(" [] 1 := .start (by decide)
    refine ⟨(hopened.argument hbalanced (by decide) fun _ => rfl).encloses.shielded.balanced, fun y hy _ => ?_⟩
    rw [hx] at hy
    cases hy
    exact occurs_left "(" x " + " "1)" rfl
  · cases h

/-- A length that is written. -/
def lengthText? (raw : List Value) (sql : List String) : Option String :=
  if intAt? raw 2 = some (-1) then none else sql[2]?

theorem substring?_eq_elim (first : String) (raw : List Value) (sql : List String) :
    Formatter.substring? first raw sql = (Formatter.substringStart? raw sql).map fun start =>
      "SUBSTRING(" ++ first ++ ", " ++ start ++ ((lengthText? raw sql).elim "" (", " ++ ·)) ++ ")" := by
  rw [substring?_eq]
  congr 1
  funext start
  unfold lengthText?
  split
  · next n length hn hlength =>
    rw [hn, hlength]
    by_cases hminus : n = -1
    · simp [hminus]
    · simp [hminus]
  · next length hn hlength => simp [hn, hlength, String.append_assoc]
  · next hlength =>
    rw [hlength]
    split <;> simp

theorem encloses_substring? {raw : List Value} {sql : List String} {start : String} (hs : Balanced d s)
    (hsql : ∀ s ∈ sql, Balanced d s) (hstart : Formatter.substringStart? raw sql = some start)
    (h : Formatter.substring? s raw sql = some t) : Encloses d t (s :: start :: (lengthText? raw sql).toList) := by
  rw [substring?_eq_elim, hstart] at h
  cases h
  have hopened : Opened d "SUBSTRING(" [] 1 := .start (by decide)
  have hbalanced := (start_of_substringStart? hsql hstart).1
  cases hlength : lengthText? raw sql with
  | none =>
    have hencloses : Encloses d ("SUBSTRING(" ++ s ++ ", " ++ start ++ ")") [start, s] :=
      ((hopened.argument hs (by decide) fun _ => rfl).argument hbalanced (by decide) fun _ => rfl).encloses
    show Encloses d ("SUBSTRING(" ++ s ++ ", " ++ start ++ "" ++ ")") _
    rw [String.append_empty]
    exact hencloses.mono (by simp)
  | some length =>
    have hmem : length ∈ sql := by
      unfold lengthText? at hlength
      split at hlength
      · cases hlength
      · exact List.mem_of_getElem? hlength
    have hencloses : Encloses d ("SUBSTRING(" ++ s ++ ", " ++ start ++ ", " ++ length ++ ")") [length, start, s] :=
      (((hopened.argument hs (by decide) fun _ => rfl).argument hbalanced (by decide) fun _ => rfl).argument
        (hsql length hmem) (by decide) fun _ => rfl).encloses
    show Encloses d ("SUBSTRING(" ++ s ++ ", " ++ start ++ (", " ++ length) ++ ")") _
    rw [← String.append_assoc]
    exact hencloses.mono (by simp)

/-- A number of arguments that is not too large. -/
def allows : Filter.Arity → Nat → Bool
  | .exactly n, count => count ≤ n
  | .atLeast _, _ => true
  | .orOneMore n, count => count ≤ n + 1

theorem allows_of_admits {a : Filter.Arity} {count : Nat} (h : a.admits count = true) : allows a count = true := by
  cases a with
  | exactly n => simpa [allows] using Nat.le_of_eq (of_decide_eq_true h)
  | atLeast n => rfl
  | orOneMore n =>
    have hcount : count = n ∨ count = n + 1 := by simpa [Filter.Arity.admits] using h
    simp only [allows, decide_eq_true_eq]
    omega

theorem arity_of_isUnary {m : Method} (h : m.isUnary = true) : arity m = .exactly 1 := by
  revert h
  cases m <;> decide

theorem intAt?_of_not_literal {raw : List Value} {i : Nat} {v : Value} (h : raw[i]? = some v)
    (hv : isLiteral v = false) : intAt? raw i = none := by
  unfold intAt?
  rw [h]
  cases v <;> first | rfl | cases hv

/-- A call has no comparison on its surface. The arguments that are no literals are written in it, and the start of
a substring or of a search is beside symbols. -/
structure Called (d : Dialect) (m : Method) (raw : List Value) (sql : List String) (text : String) : Prop where
  shielded : Shielded d text
  occurs : ∀ {i : Nat} {s : String} {v : Value}, sql[i]? = some s → raw[i]? = some v → isLiteral v = false →
    Occurs s text
  start : ∀ {s : String}, m = .substr → sql[1]? = some s → intAt? raw 1 = none → Occurs (s ++ " + ") text
  position : ∀ {s t : String}, m = .indexOfBytes → sql[2]? = some s → t ∈ besideStart d s → Occurs t text

/-- A call whose only argument that is no literal is the first. -/
theorem Encloses.called {m : Method} {raw : List Value} {first text : String} {rest : List String}
    (h : Encloses d text [first]) (hm : m ≠ .substr ∧ m ≠ .indexOfBytes)
    (hrest : ∀ {i : Nat} {s : String} {v : Value}, rest[i]? = some s → raw[i + 1]? = some v → isLiteral v = false →
      Occurs s text) :
    Called d m raw (first :: rest) text where
  shielded := h.shielded
  occurs {i s v} hs hv hl := by
    cases i with
    | zero =>
      cases hs
      exact h.occurs first (List.mem_singleton_self _)
    | succ i => exact hrest hs hv hl
  start h := absurd h hm.1
  position h := absurd h hm.2

theorem called_of_substring? {raw : List Value} {first text : String} {rest : List String}
    (hsql : ∀ s ∈ first :: rest, Balanced d s) (hc : allows (arity .substr) (first :: rest).length = true)
    (h : Formatter.substring? first raw (first :: rest) = some text) : Called d .substr raw (first :: rest) text := by
  obtain ⟨start, hstart, -⟩ := Option.map_eq_some_iff.1 (substring?_eq .. ▸ h)
  have hencloses := encloses_substring? (hsql first (by simp)) hsql hstart h
  have hplus : ∀ {s : String}, (first :: rest)[1]? = some s → intAt? raw 1 = none → Occurs (s ++ " + ") text :=
    fun hs hnone => ((start_of_substringStart? hsql hstart).2 _ hs hnone).trans (hencloses.occurs start (by simp))
  refine ⟨hencloses.shielded, fun {i s v} hs hv hl => ?_, fun _ => hplus, nofun⟩
  match i with
  | 0 =>
    cases hs
    exact hencloses.occurs first (by simp)
  | 1 => exact ((Occurs.refl s).append_right _).trans (hplus hs (intAt?_of_not_literal hv hl))
  | 2 =>
    refine hencloses.occurs s ?_
    simp [lengthText?, intAt?_of_not_literal hv hl, hs]
  | i + 3 =>
    have hlt := (List.getElem?_eq_some_iff.1 hs).1
    have hlength : rest.length < 3 := by simpa [arity, allows] using hc
    simp only [List.length_cons] at hlt
    omega

theorem called_of_call? {f : Formatter} {m : Method} {raw : List Value} {sql : List String} {text : String}
    (hsql : ∀ s ∈ sql, Balanced f.dialect s) (hc : allows (arity m) sql.length = true)
    (h : f.call? m raw sql = some text) : Called f.dialect m raw sql text := by
  cases sql with
  | nil => cases h
  | cons first rest =>
    obtain ⟨hfirst, hrest⟩ := List.forall_mem_cons.1 hsql
    cases hu : f.unaryCall? m first with
    | some unary =>
      obtain rfl : unary = text := by simpa [Formatter.call?, hu] using h
      have hunary : m.isUnary = true := by rw [← isSome_unaryCall? f m first, hu, Option.isSome_some]
      rw [arity_of_isUnary hunary] at hc
      obtain rfl : rest = [] := by simpa [allows] using hc
      refine (encloses_unaryCall? hfirst hu).called ?_ (by simp)
      constructor <;> rintro rfl <;> cases hunary
    | none =>
      cases m with
      | round =>
        have hopened : Opened f.dialect "ROUND(" [] 1 := .start (by decide)
        rcases rest with _ | ⟨places, _ | ⟨_, more⟩⟩
        · cases h
          exact (hopened.argument hfirst (by decide) fun _ => rfl).encloses.called (by decide) (by simp)
        · cases h
          have hencloses : Encloses f.dialect ("ROUND(" ++ first ++ ", " ++ places ++ ")") [places, first] :=
            ((hopened.argument hfirst (by decide) fun _ => rfl).argument (hrest places (by simp)) (by decide)
              fun _ => rfl).encloses
          refine (hencloses.mono (by simp)).called (by decide) fun {i s v} hs _ _ => ?_
          exact hencloses.occurs s (List.mem_cons.2 (.inl (List.mem_singleton.1 (List.mem_of_getElem? hs))))
        · simp [arity, allows] at hc
      | substr => exact called_of_substring? hsql hc h
      | indexOfBytes =>
        rcases rest with _ | ⟨search, _ | ⟨start, _ | ⟨_, more⟩⟩⟩
        · have hnone : f.matchCall? .indexOfBytes first raw = none := by
            unfold Formatter.matchCall?
            split <;> rfl
          cases hnone.symm.trans h
        · obtain rfl : f.dialect.indexOf first search none = text := Option.some.inj h
          have hencloses := encloses_indexOf_none hfirst (hrest search (by simp))
          exact ⟨hencloses.shielded, fun hs _ _ => hencloses.occurs _ (List.mem_of_getElem? hs), nofun, nofun⟩
        · obtain rfl : f.dialect.indexOf first search (some start) = text := Option.some.inj h
          have hencloses := encloses_indexOf_some hfirst (hrest search (by simp)) (hrest start (by simp))
          refine ⟨hencloses.shielded, fun {i s v} hs _ _ => ?_, nofun, fun {s t} _ hs ht => ?_⟩
          · have hmem := List.mem_of_getElem? hs
            exact hencloses.occurs s (by simp at hmem ⊢; tauto)
          · cases hs
            exact hencloses.occurs t (by simp [ht])
        · simp only [arity, allows, List.length_cons, decide_eq_true_eq] at hc
          omega
      | concat =>
        obtain rfl : f.dialect.concat (first :: rest) = text := Option.some.inj h
        have hencloses := encloses_concat hsql
        refine (hencloses.mono (by simp)).called (by decide) fun {i s v} hs _ _ => ?_
        exact hencloses.occurs s (List.mem_cons_of_mem _ (List.mem_of_getElem? hs))
      | startsWith | endsWith | contains =>
        obtain ⟨hencloses, pattern, hpattern⟩ := encloses_matchCall? hfirst h
        have hlength : rest.length ≤ 1 := by simpa [arity, allows] using hc
        refine hencloses.called (by decide) fun {i s v} hs hv hl => ?_
        cases i with
        | zero =>
          rw [hpattern] at hv
          cases hv
          cases hl
        | succ i =>
          have hlt := (List.getElem?_eq_some_iff.1 hs).1
          omega
      | add | subtract | multiply | divide | mod | bit =>
        obtain rfl : rest = [] := by simpa [arity, allows] using hc
        exact (encloses_matchCall? hfirst h).1.called (by decide) (by simp)
      | _ => cases hu

end

end SqlQuery.Sql
