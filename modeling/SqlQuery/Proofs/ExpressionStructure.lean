import SqlQuery.Proofs.NumericText
import SqlQuery.Proofs.UnaryCalls

/-!
# Strings and the structure of expressions

Values that are `Similar` differ in nothing but the texts of their strings. Both or neither of them have
SQL, and then their SQL is `Alike`. Each function of the formatter gets one lemma about two runs on similar
arguments; `Agree` is what it says of the results.
-/

namespace SqlQuery

/-! ### Similar values -/

/-- The second item of a list. -/
def Value.second? : Value → Option Value
  | .array (_ :: second :: _) => some second
  | _ => none

/-- The texts that are matched are the same: patterns, and the second argument of the methods that match. -/
structure SamePattern (key : String) (a b : Value) : Prop where
  pattern : key = "$regex" ∨ key = "$search" → a = b
  matched : key = "$startsWith" ∨ key = "$endsWith" ∨ key = "$contains" → a.second? = b.second?

/-- Under any other key nothing has to be the same. -/
theorem SamePattern.of_not_mem {key : String} {a b : Value}
    (h : key ∉ ["$regex", "$search", "$startsWith", "$endsWith", "$contains"]) : SamePattern key a b := by
  constructor
  · rintro (rfl | rfl) <;> simp at h
  · rintro (rfl | rfl | rfl) <;> simp at h

mutual

/-- Two values that are the same but for the texts of their strings, patterns apart. No key and no path has a
quote in it. -/
inductive Similar : Value → Value → Prop where
  | null : Similar .null .null
  | bool (b : Bool) : Similar (.bool b) (.bool b)
  | int (n : Int64) : Similar (.int n) (.int n)
  | float (x : Float) : Similar (.float x) (.float x)
  | string (s t : String) : Similar (.string s) (.string t)
  | date (t : Calendar.Timestamp) : Similar (.date t) (.date t)
  | ref {path : String} (hp : '\x27' ∉ path.toList) : Similar (.ref path) (.ref path)
  | array {xs ys : List Value} (h : SimilarItems xs ys) : Similar (.array xs) (.array ys)
  | object {xs ys : List (String × Value)} (h : SimilarEntries xs ys) : Similar (.object xs) (.object ys)

inductive SimilarItems : List Value → List Value → Prop where
  | nil : SimilarItems [] []
  | cons {a b : Value} {xs ys : List Value} (h : Similar a b) (hs : SimilarItems xs ys) :
    SimilarItems (a :: xs) (b :: ys)

inductive SimilarEntries : List (String × Value) → List (String × Value) → Prop where
  | nil : SimilarEntries [] []
  | cons {key : String} {a b : Value} {xs ys : List (String × Value)} (hk : '\x27' ∉ key.toList)
    (hp : SamePattern key a b) (h : Similar a b) (hs : SimilarEntries xs ys) :
    SimilarEntries ((key, a) :: xs) ((key, b) :: ys)

end

theorem Similar.isNull_eq {a b : Value} (h : Similar a b) : a.isNull = b.isNull := by
  cases h <;> rfl

namespace Sql

/-! ### Names and literals -/

theorem expand_default (word : List Char) : NameStyle.expand word ['$', '1'] = word := by
  have hone : Decimal.readNat? ['1'] = some 1 := by decide
  rw [NameStyle.expand.eq_def]
  simp [NameStyle.isGroupChar, NameStyle.groupText, hone, NameStyle.expand]

theorem formatWords_default (cs : List Char) : NameStyle.formatWords ['$', '1'] cs = cs := by
  fun_induction NameStyle.formatWords ['$', '1'] cs with
  | case1 => rfl
  | case2 c rest hc ih => rw [expand_default, ih, List.cons_append, List.takeWhile_append_dropWhile]
  | case3 c rest hc ih => rw [ih]

/-- The default template leaves names as they are. -/
theorem name_default {style : NameStyle} (h : style.nameFormat = "$1") (name : String) :
    style.name name = name := by
  rw [NameStyle.name, h]
  exact (congrArg String.ofList (formatWords_default name.toList)).trans String.ofList_toList

theorem escape_of_isNumberChar (d : Dialect) {c : Char} (h : isNumberChar c = true) : d.escape c = [c] := by
  have hne : ∀ x, isNumberChar x = false → c ≠ x := by
    rintro x hx rfl
    rw [h] at hx
    exact Bool.false_ne_true hx.symm
  have hquote := hne '\x27' (by decide)
  cases d with
  | mysql =>
    simp [Dialect.escape, Dialect.backslashEscape, hquote, hne '\x00' (by decide), hne '\n' (by decide),
      hne '\r' (by decide), hne '\x08' (by decide), hne '\t' (by decide), hne '\x1a' (by decide),
      hne '\\' (by decide), hne '"' (by decide)]
  | postgres | sqlite => simp [Dialect.escape, Dialect.doubledQuote, hquote]

/-- Numbers and moments need no escapes in a literal. -/
theorem quote_of_numeric (d : Dialect) {s : String} (h : Numeric s) : d.quote s = "'" ++ s ++ "'" := by
  have hid : s.toList.flatMap d.escape = s.toList := by
    rw [List.flatMap_congr fun c hc => escape_of_isNumberChar d (h.isNumberChar_of_mem hc),
      List.flatMap_singleton']
  rw [← String.toList_inj, Dialect.quote, hid]
  simp

/-! ### Two runs -/

/-- Both runs fail, or both succeed with related results. -/
def Agree {ε α β : Type} (R : α → β → Prop) : Except ε α → Except ε β → Prop
  | .ok a, .ok b => R a b
  | .error _, .error _ => True
  | _, _ => False

namespace Agree

variable {ε α β γ δ : Type} {R : α → β → Prop} {S : γ → δ → Prop} {x : Except ε α} {y : Except ε β}

theorem bind {k : α → Except ε γ} {l : β → Except ε δ} (h : Agree R x y)
    (hk : ∀ {a b}, R a b → Agree S (k a) (l b)) : Agree S (x >>= k) (y >>= l) := by
  cases x with
  | error e =>
    cases y with
    | error e' => trivial
    | ok b => exact h.elim
  | ok a =>
    cases y with
    | error e' => exact h.elim
    | ok b => exact hk h

end Agree

section Expressions

variable {f : Formatter}

/-! ### Constants -/

mutual

theorem agree_constant (f : Formatter) : (v : Value) → {w : Value} → Similar v w →
    Agree (Alike f.dialect) (f.constant v) (f.constant w)
  | .null, _, .null => (Sealed.of_not_mem (s := "NULL") (by decide)).alike
  | .bool true, _, .bool _ => (Sealed.of_not_mem (s := "true") (by decide)).alike
  | .bool false, _, .bool _ => (Sealed.of_not_mem (s := "false") (by decide)).alike
  | .int n, _, .int _ => (Sealed.of_not_mem (Numeric.intText n.toInt).not_mem).alike
  | .float x, _, .float _ => by
    show Alike f.dialect (if x.isFinite then _ else _) (if x.isFinite then _ else _)
    split
    · exact (Sealed.of_not_mem (not_mem_floatText x)).alike
    · exact .quote ..
  | .string s, _, .string _ t => .quote ..
  | .date t, _, .date _ => by
    show Alike f.dialect ("'" ++ t.text " " ++ "'") ("'" ++ t.text " " ++ "'")
    rw [← quote_of_numeric f.dialect (numeric_timestamp t)]
    exact .quote ..
  | .ref _, _, .ref _ => trivial
  | .object _, _, .object _ => trivial
  | .array items, _, .array h => (agree_constants f items h).bind fun hs => .joinWith hs (by decide)

theorem agree_constants (f : Formatter) : (xs : List Value) → {ys : List Value} → SimilarItems xs ys →
    Agree (List.Forall₂ (Alike f.dialect)) (f.constants xs) (f.constants ys)
  | [], _, .nil => .nil
  | a :: xs, _, .cons h hs =>
    (agree_constant f a h).bind fun ha => (agree_constants f xs hs).bind fun hxs => .cons ha hxs

end

/-! ### Functions -/

section Functions

variable {d : Dialect} {s t : String}

theorem Frames.alike {p q : String} (hf : Frames d p q) (h : Alike d s t) : Alike d (p ++ s ++ q) (p ++ t ++ q) :=
  (((Sealed.mk hf.outside hf.outside rfl).append h).append_plain hf.plain).alike

theorem rel_unaryCall? {f : Formatter} (m : Method) (h : Alike f.dialect s t) :
    Option.Rel (Alike f.dialect) (f.unaryCall? m s) (f.unaryCall? m t) := by
  rcases unaryCall?_framed f m with hnone | ⟨p, q, hframes, hsome⟩
  · rw [hnone, hnone]
    exact .none
  · rw [hsome, hsome]
    exact .some (hframes.alike h)

theorem alike_indexOf {search search' : String} {start start' : Option String} (h : Alike d s t)
    (hsearch : Alike d search search') (hstart : Option.Rel (Alike d) start start') :
    Alike d (d.indexOf s search start) (d.indexOf t search' start') := by
  have hcase : ∀ {p q x y : String}, Alike d p q → Alike d x y →
      Alike d ("(CASE WHEN " ++ p ++ " > 0 THEN " ++ p ++ " + " ++ x ++ " - 1 ELSE -1 END)")
        ("(CASE WHEN " ++ q ++ " > 0 THEN " ++ q ++ " + " ++ y ++ " - 1 ELSE -1 END)") := fun hp hx =>
    ((((hp.between (by decide) (by decide)).append hp).append_plain (by decide)).append hx
      |>.append_plain (by decide)).alike
  unfold Dialect.indexOf
  cases d with
  | mysql =>
    have hlocate := ((hsearch.between (p := "(LOCATE(") (q := ", ") (by decide) (by decide)).append h)
    cases hstart with
    | none => exact (hlocate.append_plain (by decide)).alike
    | some hx =>
      exact ((hlocate.append_plain (by decide)).append hx |>.append_plain (by decide)).alike
  | postgres =>
    cases hstart with
    | none =>
      exact (((hsearch.between (by decide) (by decide)).append h).append_plain (by decide)).alike
    | some hx =>
      refine hcase ?_ hx
      exact (((hsearch.between (by decide) (by decide)).append h).append_plain (by decide)).append hx
        |>.append_plain (by decide) |>.alike
  | sqlite =>
    cases hstart with
    | none =>
      exact (((h.between (by decide) (by decide)).append hsearch).append_plain (by decide)).alike
    | some hx =>
      refine hcase ?_ hx
      exact (((h.between (by decide) (by decide)).append hx).append_plain (by decide)).append hsearch
        |>.append_plain (by decide) |>.alike

theorem alike_concat {xs ys : List String} (h : List.Forall₂ (Alike d) xs ys) :
    Alike d (d.concat xs) (d.concat ys) := by
  unfold Dialect.concat
  cases d with
  | mysql | postgres =>
    exact ((Alike.joinWith h (by decide)).between (by decide) (by decide)).alike
  | sqlite => exact ((Alike.joinWith h (by decide)).between (by decide) (by decide)).alike

/-- An operand of LIKE ends with a literal, the pattern or the escape character. -/
theorem alike_operand (p : LikePattern) (d : Dialect) : Alike d (p.operand d) (p.operand d) := by
  have hquote : Alike d (d.quote (String.ofList p.chars)) (d.quote (String.ofList p.chars)) := .quote ..
  have hescape : Alike d " ESCAPE '!'" " ESCAPE '!'" := by
    cases d <;> exact ⟨.inr rfl, .inr rfl, rfl⟩
  have hparted : Parted d (d.quote (String.ofList p.chars)) " ESCAPE '!'" :=
    .inr ⟨hquote.left, ' ', "ESCAPE '!'".toList, by decide, by decide⟩
  unfold LikePattern.operand
  split
  · exact hquote.append hescape hparted hparted
  · rw [String.append_empty]
    exact hquote

/-! ### Substrings -/

/-- The number at a place of a list. -/
def intAt? (raw : List Value) (i : Nat) : Option Int64 :=
  match raw[i]? with
  | some (.int n) => some n
  | _ => none

theorem intAt?_eq : {raw raw' : List Value} → SimilarItems raw raw' → (i : Nat) → intAt? raw i = intAt? raw' i
  | _, _, .nil, _ => rfl
  | _, _, .cons h _, 0 => by cases h <;> rfl
  | _, _, .cons _ hs, i + 1 => intAt?_eq hs i

theorem rel_getElem? {xs ys : List String} (h : List.Forall₂ (Alike d) xs ys) (i : Nat) :
    Option.Rel (Alike d) xs[i]? ys[i]? := by
  induction h generalizing i with
  | nil => exact .none
  | cons hx _ ih =>
    cases i with
    | zero => exact .some hx
    | succ i => exact ih i

theorem substringStart?_eq (raw : List Value) (sql : List String) :
    Formatter.substringStart? raw sql =
      match intAt? raw 1, sql[1]? with
      | some n, _ => if n = Int64.maxValue then none else some (Decimal.intText (n.toInt + 1))
      | none, some start => some ("(" ++ start ++ " + 1)")
      | none, none => none := by
  rcases raw with _ | ⟨a, _ | ⟨b, raw⟩⟩
  · rcases sql with _ | ⟨x, _ | ⟨y, sql⟩⟩ <;> rfl
  · rcases sql with _ | ⟨x, _ | ⟨y, sql⟩⟩ <;> rfl
  · cases b <;> rcases sql with _ | ⟨x, _ | ⟨y, sql⟩⟩ <;> rfl

theorem substring?_eq (first : String) (raw : List Value) (sql : List String) :
    Formatter.substring? first raw sql = (Formatter.substringStart? raw sql).map fun start =>
      match intAt? raw 2, sql[2]? with
      | some n, some length =>
        "SUBSTRING(" ++ first ++ ", " ++ start ++ (if n = -1 then "" else ", " ++ length) ++ ")"
      | none, some length => "SUBSTRING(" ++ first ++ ", " ++ start ++ ", " ++ length ++ ")"
      | _, none => "SUBSTRING(" ++ first ++ ", " ++ start ++ ")" := by
  unfold Formatter.substring?
  cases Formatter.substringStart? raw sql with
  | none => rfl
  | some start =>
    rcases raw with _ | ⟨a, _ | ⟨b, _ | ⟨c, raw⟩⟩⟩
    · rcases sql with _ | ⟨x, _ | ⟨y, _ | ⟨z, sql⟩⟩⟩ <;> rfl
    · rcases sql with _ | ⟨x, _ | ⟨y, _ | ⟨z, sql⟩⟩⟩ <;> rfl
    · rcases sql with _ | ⟨x, _ | ⟨y, _ | ⟨z, sql⟩⟩⟩ <;> rfl
    · cases c <;> rcases sql with _ | ⟨x, _ | ⟨y, _ | ⟨z, sql⟩⟩⟩ <;> rfl

theorem rel_substringStart? {raw raw' : List Value} {sql sql' : List String} (hraw : SimilarItems raw raw')
    (hsql : List.Forall₂ (Alike d) sql sql') :
    Option.Rel (Alike d) (Formatter.substringStart? raw sql) (Formatter.substringStart? raw' sql') := by
  have hstart := rel_getElem? hsql 1
  rw [substringStart?_eq, substringStart?_eq, ← intAt?_eq hraw 1]
  cases intAt? raw 1 with
  | some n =>
    show Option.Rel _ (if _ then _ else _) (if _ then _ else _)
    split
    · exact .none
    · exact .some (Sealed.of_not_mem (Numeric.intText _).not_mem).alike
  | none =>
    generalize sql[1]? = start, sql'[1]? = start' at hstart
    cases hstart with
    | none => exact .none
    | some h => exact .some (h.between (by decide) (by decide)).alike

theorem rel_substring? {raw raw' : List Value} {sql sql' : List String} (h : Alike d s t)
    (hraw : SimilarItems raw raw') (hsql : List.Forall₂ (Alike d) sql sql') :
    Option.Rel (Alike d) (Formatter.substring? s raw sql) (Formatter.substring? t raw' sql') := by
  have hstart := rel_substringStart? hraw hsql
  have hlength := rel_getElem? hsql 2
  rw [substring?_eq, substring?_eq, ← intAt?_eq hraw 2]
  generalize Formatter.substringStart? raw sql = start, Formatter.substringStart? raw' sql' = start' at hstart
  generalize sql[2]? = length, sql'[2]? = length' at hlength
  cases hstart with
  | none => exact .none
  | some hx =>
    have hopen := (h.between (p := "SUBSTRING(") (q := ", ") (by decide) (by decide)).append hx
    have hshort := hopen.append_plain (p := ")") (by decide)
    cases hlength with
    | none => cases intAt? raw 2 <;> exact .some hshort.alike
    | some hy =>
      have hlong := (hopen.append_plain (p := ", ") (by decide)).append hy
        |>.append_plain (p := ")") (by decide)
      cases intAt? raw 2 with
      | none => exact .some hlong.alike
      | some n =>
        refine .some ?_
        show Alike d (_ ++ (if n = -1 then _ else _) ++ ")") (_ ++ (if n = -1 then _ else _) ++ ")")
        split
        · simpa only [String.append_empty] using hshort.alike
        · simpa only [String.append_assoc] using hlong.alike

/-! ### Operators -/

/-- The methods that match their second argument. -/
def isMatching (m : Method) : Bool := (Formatter.matchPattern? m "").isSome

theorem matchPattern?_eq_none {m : Method} (h : isMatching m = false) (text : String) :
    Formatter.matchPattern? m text = none := by
  cases m <;> first | rfl | cases h

/-- The second argument of a match is the same in both runs. -/
theorem rel_matchCall? {f : Formatter} {m : Method} {raw raw' : List Value} (h : Alike f.dialect s t)
    (hraw : SimilarItems raw raw') (hm : isMatching m = true → raw[1]? = raw'[1]?) :
    Option.Rel (Alike f.dialect) (f.matchCall? m s raw) (f.matchCall? m t raw') := by
  cases hraw with
  | nil => exact .none
  | cons _ hrest =>
    cases hrest with
    | nil => exact .none
    | cons hb _ =>
      cases hb with
      | string x y =>
        show Option.Rel _ ((Formatter.matchPattern? m x).map _) ((Formatter.matchPattern? m y).map _)
        cases hmatch : isMatching m with
        | false =>
          rw [matchPattern?_eq_none hmatch, matchPattern?_eq_none hmatch]
          exact .none
        | true =>
          obtain rfl : x = y := by simpa using hm hmatch
          cases Formatter.matchPattern? m x with
          | none => exact .none
          | some p =>
            exact .some ((h.between (by decide) (by decide)).append (alike_operand p f.dialect)
              |>.append_plain (by decide)).alike
      | _ => exact .none

theorem rel_call? {f : Formatter} (m : Method) {raw raw' : List Value} {sql sql' : List String}
    (hraw : SimilarItems raw raw') (hm : isMatching m = true → raw[1]? = raw'[1]?)
    (hsql : List.Forall₂ (Alike f.dialect) sql sql') :
    Option.Rel (Alike f.dialect) (f.call? m raw sql) (f.call? m raw' sql') := by
  cases hsql with
  | nil => exact .none
  | @cons first first' rest rest' hfirst hrest =>
    have hunary := rel_unaryCall? m hfirst
    have hmatch := rel_matchCall? hfirst hraw hm
    unfold Formatter.call?
    simp only
    generalize f.unaryCall? m first = unary, f.unaryCall? m first' = unary' at hunary
    cases hunary with
    | some h => exact .some h
    | none =>
      cases m with
      | round =>
        cases hrest with
        | nil => exact .some (hfirst.between (by decide) (by decide)).alike
        | cons hplaces _ =>
          exact .some ((hfirst.between (by decide) (by decide)).append hplaces
            |>.append_plain (by decide)).alike
      | substr => exact rel_substring? hfirst hraw (.cons hfirst hrest)
      | indexOfBytes =>
        cases hrest with
        | nil => exact hmatch
        | cons hsearch hmore =>
          refine .some (alike_indexOf hfirst hsearch ?_)
          cases hmore with
          | nil => exact .none
          | cons hx _ => exact .some hx
      | concat => exact .some (alike_concat (.cons hfirst hrest))
      | _ => exact hmatch

theorem plain_symbol {symbols : List (String × String)} {key symbol : String}
    (hs : ∀ entry ∈ symbols, Plain entry.2) (h : symbols.lookup key = some symbol) : Plain symbol := by
  obtain ⟨l₁, l₂, hl, -⟩ := List.lookup_eq_some_iff.1 h
  exact hs (key, symbol) (by simp [hl])

theorem alike_comparison {key symbol right right' : String} {a b : Value}
    (hsymbol : Formatter.comparisonSymbols.lookup key = some symbol) (h : Alike d s t) (hab : Similar a b)
    (hright : Alike d right right') :
    Alike d (Formatter.comparison key symbol s a right) (Formatter.comparison key symbol t b right') := by
  have hplain : Plain symbol := plain_symbol (by decide) hsymbol
  unfold Formatter.comparison
  rw [hab.isNull_eq]
  split
  · exact (h.append_plain (by decide)).alike
  · split
    · exact (h.append_plain (by decide)).alike
    · exact (h.append_plain hplain).append hright

theorem alike_in {list list' : String} (key : String) (h : Alike d s t) (hlist : Alike d list list') :
    Alike d (s ++ (if key = "$nin" then " NOT" else "") ++ " IN (" ++ list ++ ")")
      (t ++ (if key = "$nin" then " NOT" else "") ++ " IN (" ++ list' ++ ")") := by
  split
  · exact ((h.append_plain (by decide)).alike.append_plain (by decide)).append hlist
      |>.append_plain (by decide) |>.alike
  · rw [String.append_empty, String.append_empty]
    exact ((h.append_plain (by decide)).append hlist |>.append_plain (by decide)).alike

/-- The keys of the methods that match their second argument. -/
theorem key_of_isMatching {key : String} {m : Method} (h : Method.ofKey? key = some m)
    (hm : isMatching m = true) : key = "$startsWith" ∨ key = "$endsWith" ∨ key = "$contains" := by
  obtain rfl : m.key = key := by simpa using List.find?_some h
  cases m <;> first | decide | cases hm

theorem agree_operator {f : Formatter} {key : String} {args args' : Value} {raw raw' : List Value}
    {sql sql' : List String} (hraw : SimilarItems raw raw')
    (hm : key = "$startsWith" ∨ key = "$endsWith" ∨ key = "$contains" → raw[1]? = raw'[1]?)
    (hsql : List.Forall₂ (Alike f.dialect) sql sql') :
    Agree (Alike f.dialect) (f.operator key args raw sql) (f.operator key args' raw' sql') := by
  unfold Formatter.operator
  cases harithmetic : Formatter.arithmeticSymbols.lookup key with
  | some symbol =>
    have hplain : Plain symbol := plain_symbol (by decide) harithmetic
    rcases hsql with _ | ⟨hx, _ | ⟨hy, _ | _⟩⟩
    · trivial
    · trivial
    · exact (((hx.between (by decide) (by decide)).alike.append_plain hplain).alike.append_plain (by decide)).append hy
        |>.append_plain (by decide) |>.alike
    · trivial
  | none =>
    cases hcomparison : Formatter.comparisonSymbols.lookup key with
    | some symbol =>
      rcases hsql with _ | ⟨hx, _ | ⟨hy, _ | _⟩⟩
      · trivial
      · trivial
      · rcases hraw with _ | ⟨_, _ | ⟨hb, _ | _⟩⟩
        · trivial
        · trivial
        · exact alike_comparison hcomparison hx hb hy
        · trivial
      · trivial
    | none =>
      by_cases hin : key = "$in" ∨ key = "$nin"
      · simp only [hin, if_true]
        rcases hsql with _ | ⟨hx, _ | ⟨hy, _ | _⟩⟩
        · trivial
        · trivial
        · exact alike_in key hx hy
        · trivial
      · simp only [hin, if_false]
        cases hmethod : Method.ofKey? key with
        | none => trivial
        | some m =>
          have hcall := rel_call? m hraw (fun hmatching => hm (key_of_isMatching hmethod hmatching)) hsql
          dsimp only
          generalize f.call? m raw sql = text, f.call? m raw' sql' = text' at hcall
          cases hcall with
          | none => trivial
          | some h => exact h

end Functions

/-! ### Expressions -/

/-- What an operator is applied to: the items of a list, or a single value. -/
def operands : Value → List Value
  | .array items => items
  | value => [value]

theorem expressionIn_entry (f : Formatter) (scope : Scope) (key : String) (arg : Value) :
    f.expressionIn scope (.object [(key, arg)]) =
      if isOperatorKey key then do
        let sql ← f.expressionsIn scope (operands arg)
        f.operator key arg (operands arg) sql
      else .error (.malformed (.object [(key, arg)])) := by
  cases arg with
  | array items => simp [Formatter.expressionIn, operands]
  | _ =>
    simp only [Formatter.expressionIn, Formatter.expressionsIn, operands, bind_assoc]
    rfl

theorem expressionIn_several (f : Formatter) (scope : Scope) (x y : String × Value)
    (entries : List (String × Value)) :
    f.expressionIn scope (.object (x :: y :: entries)) = .error (.malformed (.object (x :: y :: entries))) := by
  obtain ⟨key, value⟩ := x
  cases value <;> rfl

theorem similarItems_operands {v w : Value} (h : Similar v w) : SimilarItems (operands v) (operands w) := by
  cases h with
  | array h => exact h
  | object h => exact .cons (.object h) .nil
  | ref h => exact .cons (.ref h) .nil
  | string s t => exact .cons (.string s t) .nil
  | _ => exact .cons (by constructor) .nil

theorem operands_getElem?_one {v w : Value} (h : Similar v w) (hs : v.second? = w.second?) :
    (operands v)[1]? = (operands w)[1]? := by
  cases h with
  | array h =>
    rcases h with _ | ⟨_, _ | _⟩
    · rfl
    · rfl
    · exact hs
  | _ => rfl

/-- Two values as expressions, and as what an operator is applied to. -/
structure AgreeOn (f : Formatter) (v w : Value) : Prop where
  value : Agree (Alike f.dialect) (f.expressionIn f.plainScope v) (f.expressionIn f.plainScope w)
  operands : Agree (List.Forall₂ (Alike f.dialect)) (f.expressionsIn f.plainScope (operands v))
    (f.expressionsIn f.plainScope (operands w))

theorem AgreeOn.of_value {v w : Value} (hv : Sql.operands v = [v]) (hw : Sql.operands w = [w])
    (h : Agree (Alike f.dialect) (f.expressionIn f.plainScope v) (f.expressionIn f.plainScope w)) :
    AgreeOn f v w := by
  refine ⟨h, ?_⟩
  rw [hv, hw]
  exact h.bind fun hx => .cons hx .nil

theorem agree_plainScope (hf : f.style.nameFormat = "$1") {name : String} (h : '\x27' ∉ name.toList) :
    Agree (Alike f.dialect) (f.plainScope name) (f.plainScope name) := by
  show Alike f.dialect (f.style.name name) (f.style.name name)
  rw [name_default hf]
  exact (Sealed.of_not_mem h).alike

theorem agree_entry {key : String} {a b : Value} (hp : SamePattern key a b) (h : Similar a b)
    (hab : AgreeOn f a b) :
    Agree (Alike f.dialect) (f.expressionIn f.plainScope (.object [(key, a)]))
      (f.expressionIn f.plainScope (.object [(key, b)])) := by
  rw [expressionIn_entry, expressionIn_entry]
  split
  · exact hab.operands.bind fun hs =>
      agree_operator (similarItems_operands h) (fun hm => operands_getElem?_one h (hp.matched hm)) hs
  · trivial

mutual

theorem agreeOn (hf : f.style.nameFormat = "$1") : (v : Value) → {w : Value} → Similar v w → AgreeOn f v w
  | .ref path, _, .ref h => .of_value rfl rfl (agree_plainScope hf h)
  | .array items, _, .array h =>
    have hitems := agree_items hf items h
    ⟨hitems.bind fun hs => .joinWith hs (by decide), hitems⟩
  | .object entries, _, .object h => .of_value rfl rfl (by
    have hentries := agreeOn_entries hf entries h
    rcases h with _ | ⟨_, hp, h, _ | _⟩
    · trivial
    · exact agree_entry hp h (List.forall₂_cons.1 hentries).1
    · rw [expressionIn_several, expressionIn_several]
      trivial)
  | .null, _, .null => .of_value rfl rfl (agree_constant f _ .null)
  | .bool b, _, .bool _ => .of_value rfl rfl (agree_constant f _ (.bool b))
  | .int n, _, .int _ => .of_value rfl rfl (agree_constant f _ (.int n))
  | .float x, _, .float _ => .of_value rfl rfl (agree_constant f _ (.float x))
  | .string s, _, .string _ t => .of_value rfl rfl (agree_constant f _ (.string s t))
  | .date t, _, .date _ => .of_value rfl rfl (agree_constant f _ (.date t))

theorem agree_items (hf : f.style.nameFormat = "$1") : (xs : List Value) → {ys : List Value} →
    SimilarItems xs ys →
    Agree (List.Forall₂ (Alike f.dialect)) (f.expressionsIn f.plainScope xs) (f.expressionsIn f.plainScope ys)
  | [], _, .nil => .nil
  | x :: xs, _, .cons h hs =>
    (agreeOn hf x h).value.bind fun hx => (agree_items hf xs hs).bind fun hxs => .cons hx hxs

theorem agreeOn_entries (hf : f.style.nameFormat = "$1") : (xs : List (String × Value)) →
    {ys : List (String × Value)} → SimilarEntries xs ys → List.Forall₂ (fun x y => AgreeOn f x.2 y.2) xs ys
  | [], _, .nil => .nil
  | (_, x) :: xs, _, .cons _ _ h hs => .cons (agreeOn hf x h) (agreeOn_entries hf xs hs)

end

end Expressions

end Sql

end SqlQuery
