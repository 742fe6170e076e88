import SqlQuery.Proofs.CompiledFilters
import SqlQuery.Proofs.TokenSpacing

/-!
# Rendering and formatting with items by number

Rendering and formatting match on the lists they work with. Here they are again with the items taken by number, and with
texts cut by bytes, where an item or a cut that is not there leaves them without an outcome. A single argument stands
for a list of length one, a substring looks for the SQL of its second and third arguments because there are such values,
and a pattern is cut in front of its last byte because that is a dollar sign.

Each of these programs gives what the definition of its name gives (`Expr.Indexed.render_eq`, `Indexed.filter_eq`).
-/

namespace SqlQuery

/-- A computation with an answer or a cause, or without an outcome. -/
abbrev Attempt (ε α : Type) := ExceptT ε Option α

namespace Attempt

variable {ε α β : Type}

/-- A computation that has an outcome. -/
def of (x : Except ε α) : Attempt ε α := some x

/-- What there must be. -/
def require (x : Option α) : Attempt ε α := x.map .ok

/-- One step after another. The second has an outcome after each answer of the first. -/
theorem bind_eq {m : Attempt ε α} {x : Except ε α} {f : α → Attempt ε β} {g : α → Except ε β} (hm : m = of x)
    (hf : ∀ a, x = .ok a → f a = of (g a)) : (m >>= f) = of (x >>= g) := by
  subst hm
  cases x with
  | error cause => rfl
  | ok a => exact hf a rfl

end Attempt

/-! ### Rendering -/

namespace Expr.Indexed

/-- The document of a call: a single argument is the one in front. -/
def callDocument (name : String) (values : List Value) : Attempt RenderError Value :=
  if values.length = 0 then throw (.emptyArguments name)
  else if values.length = 1 then do
    let value ← .require values[0]?
    return .entry ("$" ++ name) value
  else return .entry ("$" ++ name) (.array values)

/-- The comparison of a rendered right side with a left side, which is rendered for it. -/
def renderComparison (op : ComparisonOp) (left : Expr) (rendered : Attempt RenderError Value) (right : Value) :
    Attempt RenderError Value :=
  match left with
  | .member path => return .entry path (.entry op.key right)
  | .arithmetic .. | .call .. => do
    let value ← rendered
    return .entry op.key (.array [value, right])
  | other => throw (.invalidLeftOperand other.kind)

/-- The value of a sequence's item. -/
def sequenceValue : Expr → Attempt RenderError Value → Attempt RenderError Value
  | .member _, _ => return .int 1
  | _, rendered => rendered

mutual

/-- The document of an expression. -/
def render : Expr → Attempt RenderError Value
  | .member path => return .ref path
  | .literal value => return value
  | .arithmetic op left right => do
    let left ← render left
    let right ← render right
    return .entry op.key (.array [left, right])
  | .comparison op left none => renderComparison op left (render left) .null
  | .comparison op left (some right) => do
    let value ← render right
    renderComparison op left (render left) value
  | .logical op args =>
    if args.isEmpty then throw (.emptyLogicalOperands op)
    else do
      let args ← renderAll args
      return .entry op.key (.array args)
  | .call name args => do
    let values ← renderAll args
    callDocument name values
  | .sequence items => do
    let entries ← renderItems 0 items
    return .object (Entries.ofList entries)
  | .object members => do
    let entries ← renderMembers members
    return .object (Entries.ofList entries)

/-- The documents of expressions in order. -/
def renderAll : List Expr → Attempt RenderError (List Value)
  | [] => return []
  | e :: es => do
    let value ← render e
    let values ← renderAll es
    return value :: values

/-- The entries of a sequence. -/
def renderItems (index : Nat) : List Expr → Attempt RenderError (List (String × Value))
  | [] => return []
  | e :: items => do
    let key ← .of (sequenceKey index e)
    let value ← sequenceValue e (render e)
    let rest ← renderItems (index + 1) items
    return (key, value) :: rest

/-- The entries of an object. -/
def renderMembers : List (String × Expr) → Attempt RenderError (List (String × Value))
  | [] => return []
  | (key, .sequence _) :: _ => throw (.unsupportedObjectMember key)
  | (key, e) :: members => do
    let value ← render e
    let rest ← renderMembers members
    return (key, value) :: rest

end

/-- A list of length one has an item in front. -/
theorem callDocument_eq (name : String) (values : List Value) : callDocument name values =
    .of (if values.isEmpty then .error (.emptyArguments name)
      else return .entry ("$" ++ name) (argumentValue values)) := by
  rcases values with _ | ⟨a, _ | ⟨b, values⟩⟩ <;> rfl

theorem renderComparison_eq (op : ComparisonOp) (left : Expr) (rendered : Except RenderError Value) (right : Value) :
    renderComparison op left (.of rendered) right = .of (Expr.renderComparison op left rendered right) := by
  cases left <;> cases rendered <;> rfl

theorem sequenceValue_eq (e : Expr) (rendered : Except RenderError Value) :
    sequenceValue e (.of rendered) = .of (Expr.sequenceValue e rendered) := by
  cases e <;> rfl

mutual

theorem render_eq : ∀ e : Expr, render e = .of e.render
  | .member _ => rfl
  | .literal _ => rfl
  | .arithmetic _ left right => by
    rw [render, Expr.render]
    exact Attempt.bind_eq (render_eq left) fun l _ => Attempt.bind_eq (render_eq right) fun r _ => rfl
  | .comparison op left none => by
    rw [render, Expr.render, render_eq left, renderComparison_eq]
  | .comparison op left (some right) => by
    rw [render, Expr.render]
    refine Attempt.bind_eq (render_eq right) fun value _ => ?_
    rw [render_eq left, renderComparison_eq]
  | .logical op args => by
    rw [render, Expr.render]
    split
    · rfl
    · exact Attempt.bind_eq (renderAll_eq args) fun values _ => rfl
  | .call name args => by
    rw [render, Expr.render]
    exact Attempt.bind_eq (renderAll_eq args) fun values _ => callDocument_eq name values
  | .sequence items => by
    rw [render, Expr.render]
    exact Attempt.bind_eq (renderItems_eq 0 items) fun entries _ => rfl
  | .object members => by
    rw [render, Expr.render]
    exact Attempt.bind_eq (renderMembers_eq members) fun entries _ => rfl

theorem renderAll_eq : ∀ es : List Expr, renderAll es = .of (Expr.renderAll es)
  | [] => rfl
  | e :: es => by
    rw [renderAll, Expr.renderAll]
    exact Attempt.bind_eq (render_eq e) fun value _ => Attempt.bind_eq (renderAll_eq es) fun values _ => rfl

theorem renderItems_eq (index : Nat) : ∀ items : List Expr, renderItems index items = .of (Expr.renderItems index items)
  | [] => rfl
  | e :: items => by
    rw [renderItems, Expr.renderItems, render_eq e, sequenceValue_eq]
    refine Attempt.bind_eq rfl fun key _ => Attempt.bind_eq rfl fun value _ => ?_
    exact Attempt.bind_eq (renderItems_eq (index + 1) items) fun rest _ => rfl

theorem renderMembers_eq : ∀ members : List (String × Expr), renderMembers members = .of (Expr.renderMembers members)
  | [] => rfl
  | (key, e) :: members => by
    cases e with
    | sequence items => rfl
    | _ =>
      simp only [renderMembers, Expr.renderMembers]
      exact Attempt.bind_eq (render_eq _) fun value _ => Attempt.bind_eq (renderMembers_eq members) fun rest _ => rfl

end

end Expr.Indexed

/-! ### Formatting -/

namespace Sql.Formatter.Indexed

open SqlQuery.Filter (slice? slice?_append byteLength_append)
open SqlQuery.Text (byteLength)

/-- The start of a substring: an integer is the value itself, anything else is what its SQL gives. -/
def substringStart (cause : FormatError) (raw : List Value) (sql : List String) : Attempt FormatError String :=
  match (raw[1]? : Option Value) with
  | none => throw cause
  | some (.int n) => if n = Int64.maxValue then throw cause else return Decimal.intText (n.toInt + 1)
  | some _ => do
    let start ← .require sql[1]?
    return "(" ++ start ++ " + 1)"

/-- The length of a substring, if one is written. -/
def substringLength (raw : List Value) (sql : List String) : Attempt FormatError String :=
  match (raw[2]? : Option Value) with
  | none => return ""
  | some (.int n) =>
    if n = -1 then return ""
    else do
      let length ← .require sql[2]?
      return ", " ++ length
  | some _ => do
    let length ← .require sql[2]?
    return ", " ++ length

/-- A substring of the first argument. -/
def substring (cause : FormatError) (raw : List Value) : List String → Attempt FormatError String
  | [] => throw cause
  | first :: rest => do
    let start ← substringStart cause raw (first :: rest)
    let length ← substringLength raw (first :: rest)
    return "SUBSTRING(" ++ first ++ ", " ++ start ++ length ++ ")"

/-- An operator applied to its arguments. Of the methods, only the one for substrings takes arguments by number. -/
def operator (f : Formatter) (key : String) (args : Value) (raw : List Value) (sql : List String) :
    Attempt FormatError String :=
  if Method.ofKey? key = some .substr then substring (.malformed (.entry key args)) raw sql
  else .of (f.operator key args raw sql)

mutual

/-- A value as an SQL expression. -/
def expressionIn (f : Formatter) (scope : Scope) : Value → Attempt FormatError String
  | .ref path => .of (scope path)
  | .array items => do
    let texts ← expressionsIn f scope items
    return Text.joinWith ", " texts
  | .object [(key, .array items)] =>
    if isOperatorKey key then do
      let sql ← expressionsIn f scope items
      operator f key (.array items) items sql
    else throw (.malformed (.object [(key, .array items)]))
  | .object [(key, arg)] =>
    if isOperatorKey key then do
      let sql ← expressionIn f scope arg
      operator f key arg [arg] [sql]
    else throw (.malformed (.object [(key, arg)]))
  | .object entries => throw (.malformed (.object entries))
  | value => .of (f.constant value)

/-- The SQL of a list's items. -/
def expressionsIn (f : Formatter) (scope : Scope) : List Value → Attempt FormatError (List String)
  | [] => return []
  | item :: items => do
    let text ← expressionIn f scope item
    let texts ← expressionsIn f scope items
    return text :: texts

end

theorem substringStart_eq (cause : FormatError) {raw : List Value} {sql : List String} (h : raw.length = sql.length) :
    substringStart cause raw sql = .of ((substringStart? raw sql).elim (.error cause) .ok) := by
  rcases raw with _ | ⟨a, _ | ⟨start, raw⟩⟩
  · obtain rfl : sql = [] := List.length_eq_zero_iff.1 h.symm
    rfl
  · obtain ⟨x, rfl⟩ := List.length_eq_one_iff.1 h.symm
    rfl
  · obtain ⟨x, sql, rfl⟩ := List.exists_of_length_succ _ h.symm
    obtain ⟨y, sql, rfl⟩ := List.exists_of_length_succ _ (Nat.succ.inj h).symm
    cases start with
    | int n =>
      simp only [substringStart, substringStart?, List.getElem?_cons_succ, List.getElem?_cons_zero]
      split <;> rfl
    | _ => rfl

theorem substringLength_eq {raw : List Value} {sql : List String} (h : raw.length = sql.length) :
    ∃ tail, substringLength raw sql = .of (.ok tail) ∧ ∀ first, substring? first raw sql =
      (substringStart? raw sql).map fun start => "SUBSTRING(" ++ first ++ ", " ++ start ++ tail ++ ")" := by
  rcases raw with _ | ⟨a, _ | ⟨b, _ | ⟨length, raw⟩⟩⟩
  · obtain rfl : sql = [] := List.length_eq_zero_iff.1 h.symm
    exact ⟨"", rfl, fun first => rfl⟩
  · obtain ⟨x, rfl⟩ := List.length_eq_one_iff.1 h.symm
    exact ⟨"", rfl, fun first => rfl⟩
  · obtain ⟨x, y, rfl⟩ := List.length_eq_two.1 h.symm
    refine ⟨"", rfl, fun first => ?_⟩
    rw [substring?]
    cases substringStart? [a, b] [x, y] <;> simp
  · obtain ⟨x, sql, rfl⟩ := List.exists_of_length_succ _ h.symm
    obtain ⟨y, sql, rfl⟩ := List.exists_of_length_succ _ (Nat.succ.inj h).symm
    obtain ⟨z, sql, rfl⟩ := List.exists_of_length_succ _ (Nat.succ.inj (Nat.succ.inj h)).symm
    unfold substring?
    cases length with
    | int n =>
      refine ⟨if n = -1 then "" else ", " ++ z, ?_, fun first => ?_⟩
      · simp only [substringLength, List.getElem?_cons_succ, List.getElem?_cons_zero]
        split <;> rfl
      · cases substringStart? (a :: b :: .int n :: raw) (x :: y :: z :: sql) <;> rfl
    | _ =>
      refine ⟨", " ++ z, rfl, fun first => ?_⟩
      cases substringStart? _ (x :: y :: z :: sql) <;> simp [String.append_assoc]

theorem substring_eq (f : Formatter) (cause : FormatError) {raw : List Value} {sql : List String}
    (h : raw.length = sql.length) :
    substring cause raw sql = .of ((f.call? .substr raw sql).elim (.error cause) .ok) := by
  cases sql with
  | nil => rfl
  | cons first rest =>
    obtain ⟨tail, htail, hcall⟩ := substringLength_eq h
    have hmodel : f.call? .substr raw (first :: rest) = substring? first raw (first :: rest) := rfl
    rw [substring, substringStart_eq cause h, htail, hmodel, hcall]
    cases substringStart? raw (first :: rest) <;> rfl

/-- Arguments by number are there if each argument has its SQL. -/
theorem operator_eq (f : Formatter) (key : String) (args : Value) {raw : List Value} {sql : List String}
    (h : raw.length = sql.length) : operator f key args raw sql = .of (f.operator key args raw sql) := by
  unfold operator
  by_cases hmethod : Method.ofKey? key = some .substr
  · rw [if_pos hmethod, substring_eq f _ h]
    obtain rfl : Method.substr.key = key := by simpa using List.find?_some hmethod
    unfold Formatter.operator
    rw [show arithmeticSymbols.lookup Method.substr.key = none from rfl,
      show comparisonSymbols.lookup Method.substr.key = none from rfl]
    dsimp only
    rw [if_neg (by decide), hmethod]
    cases hcall : f.call? .substr raw sql <;> simp [hcall]
  · rw [if_neg hmethod]

theorem length_expressionsIn {f : Formatter} {scope : Scope} {items : List Value} {texts : List String}
    (h : f.expressionsIn scope items = .ok texts) : items.length = texts.length :=
  (forall₂_of_traversal (g := f.expressionsIn scope) (by rw [Formatter.expressionsIn])
    (fun _ _ => by rw [Formatter.expressionsIn]) h).length_eq

mutual

theorem expressionIn_eq (f : Formatter) (scope : Scope) : ∀ v : Value,
    expressionIn f scope v = .of (f.expressionIn scope v)
  | .ref _ => rfl
  | .array items => by
    rw [expressionIn, Formatter.expressionIn]
    exact Attempt.bind_eq (expressionsIn_eq f scope items) fun texts _ => rfl
  | .object [] => rfl
  | .object [(key, arg)] => by
    cases arg with
    | array items =>
      simp only [expressionIn, Formatter.expressionIn]
      split
      · refine Attempt.bind_eq (expressionsIn_eq f scope items) fun sql hsql => ?_
        exact operator_eq f key (.array items) (length_expressionsIn hsql)
      · rfl
    | object entries =>
      simp only [expressionIn, Formatter.expressionIn]
      split
      · exact Attempt.bind_eq (expressionIn_eq f scope (.object entries)) fun sql _ => operator_eq f key _ rfl
      · rfl
    | _ =>
      simp only [expressionIn, Formatter.expressionIn]
      split
      · exact Attempt.bind_eq rfl fun sql _ => operator_eq f key _ rfl
      · rfl
  | .object ((_, v) :: _ :: _) => by cases v <;> rfl
  | .null => rfl
  | .bool _ => rfl
  | .int _ => rfl
  | .float _ => rfl
  | .string _ => rfl
  | .date _ => rfl

theorem expressionsIn_eq (f : Formatter) (scope : Scope) : ∀ vs : List Value,
    expressionsIn f scope vs = .of (f.expressionsIn scope vs)
  | [] => rfl
  | v :: vs => by
    rw [expressionsIn, Formatter.expressionsIn]
    exact Attempt.bind_eq (expressionIn_eq f scope v) fun text _ =>
      Attempt.bind_eq (expressionsIn_eq f scope vs) fun texts _ => rfl

end

/-! ### Conditions -/

/-- What an expression matches. Between `^` and `$`, the text is cut in front of its last byte. -/
def ofRegex (pattern : String) : Attempt FormatError LikePattern :=
  match pattern.toList with
  | '^' :: cs =>
    if cs.getLast? = some '$' then do
      let body ← .require (slice? cs 0 (byteLength cs - 1))
      return ⟨false, String.ofList body, false⟩
    else return ⟨false, String.ofList cs, true⟩
  | _ => return LikePattern.ofRegex pattern

/-- The condition of a single operator on a field. -/
def fieldOperator (f : Formatter) (scope : Scope) (field key : String) (arg : Value)
    (condition : String → Attempt FormatError Condition) : Attempt FormatError Condition :=
  if key = "$not" then do
    let inner ← condition field
    return .negation inner
  else if key = "$in" ∨ key = "$nin" then do
    let list ← expressionIn f scope arg
    return .leaf (field ++ (if key = "$nin" then " NOT" else "") ++ " IN (" ++ list ++ ")")
  else if key = "$regex" then
    match arg with
    | .string pattern => do
      let p ← ofRegex pattern
      return .leaf (field ++ " LIKE " ++ p.operand f.dialect)
    | _ => throw (.malformed (.entry key arg))
  else if key = "$text" then
    match arg.document?.bind (Entries.get? "$search") with
    | some (.string text) => return .leaf (field ++ " LIKE " ++ LikePattern.operand ⟨true, text, true⟩ f.dialect)
    | _ => throw (.malformed (.entry key arg))
  else
    match comparisonSymbols.lookup key with
    | some symbol => do
      let right ← expressionIn f scope arg
      return .leaf (comparison key symbol field arg right)
    | none =>
      match (Method.ofKey? key).bind fun method => f.unaryCall? method field with
      | some wrapped => condition wrapped
      | none => throw (.unknownOperator key arg)

mutual

/-- The condition of a field, given by its SQL. -/
def fieldCondition (f : Formatter) (scope : Scope) (field : String) : Value → Attempt FormatError Condition
  | .null => return .leaf (field ++ " IS NULL")
  | .array items => do
    let list ← expressionIn f scope (.array items)
    return .leaf (field ++ " IN (" ++ list ++ ")")
  | .object entries => do
    let cs ← fieldOperators f scope field entries
    if cs.isEmpty then throw (.malformed (.object entries))
    else return .chain .and cs
  | value => do
    let right ← expressionIn f scope value
    return .leaf (field ++ "=" ++ right)

/-- The conditions of a field's operators. -/
def fieldOperators (f : Formatter) (scope : Scope) (field : String) :
    List (String × Value) → Attempt FormatError (List Condition)
  | [] => return []
  | (key, arg) :: rest =>
    if key = "$options" then fieldOperators f scope field rest
    else do
      let c ← fieldOperator f scope field key arg fun column => fieldCondition f scope column arg
      let cs ← fieldOperators f scope field rest
      return c :: cs

end

/-- The conjunction of a document's conditions: a single one is the one in front. -/
def conjunction (filter : Value) (cs : List Condition) : Attempt FormatError Condition :=
  if cs.length = 0 then throw (.malformed filter)
  else if cs.length = 1 then .require cs[0]?
  else return .chain .and (cs.map Condition.group)

/-- The condition of a single entry. -/
def filterEntry (f : Formatter) (scope : Scope) (key : String) (value : Value)
    (group : Unit → Attempt FormatError (List Condition)) : Attempt FormatError Condition :=
  if key = "$and" then do
    let cs ← group ()
    return .chain .and (cs.map Condition.group)
  else if key = "$or" then do
    let cs ← group ()
    return .chain .or (cs.map Condition.group)
  else if key = "$not" then do
    let cs ← group ()
    return .negation (.chain .and (cs.map Condition.group))
  else if key = "$nor" then do
    let cs ← group ()
    return .negation (.chain .or (cs.map Condition.group))
  else if isOperatorKey key then do
    let sql ← expressionIn f scope (.object [(key, value)])
    return .leaf sql
  else do
    let field ← .of (scope key)
    fieldCondition f scope field value

mutual

/-- The condition of a filter. -/
def filterIn (f : Formatter) (scope : Scope) : Value → Attempt FormatError Condition
  | .object entries => do
    let cs ← filterEntries f scope entries
    conjunction (.object entries) cs
  | value => throw (.malformed value)

/-- The conditions of a filter's entries. -/
def filterEntries (f : Formatter) (scope : Scope) : List (String × Value) → Attempt FormatError (List Condition)
  | [] => return []
  | (key, value) :: rest => do
    let c ← filterEntry f scope key value fun _ => filterGroup f scope key value
    let cs ← filterEntries f scope rest
    return c :: cs

/-- The conditions under a logical operator. -/
def filterGroup (f : Formatter) (scope : Scope) (key : String) : Value → Attempt FormatError (List Condition)
  | .array [] => throw (.malformed (.entry key (.array [])))
  | .array items => filterItems f scope items
  | .object entries => do
    let cs ← filterEntries f scope entries
    let c ← conjunction (.object entries) cs
    return [c]
  | value => throw (.malformed (.entry key value))

/-- The conditions of filters. -/
def filterItems (f : Formatter) (scope : Scope) : List Value → Attempt FormatError (List Condition)
  | [] => return []
  | item :: items => do
    let c ← filterIn f scope item
    let cs ← filterItems f scope items
    return c :: cs

end

/-- A filter as a condition in parentheses. -/
def filter (f : Formatter) (value : Value) : Attempt FormatError String := do
  let c ← filterIn f f.plainScope value
  return (Condition.group c).text

theorem slice?_dropLast {cs : List Char} (h : cs.getLast? = some '$') :
    slice? cs 0 (byteLength cs - 1) = some cs.dropLast := by
  obtain ⟨body, rfl⟩ := List.getLast?_eq_some_iff.1 h
  have hlength : byteLength (body ++ ['$']) - 1 = 0 + byteLength body := by
    rw [byteLength_append, show byteLength ['$'] = 1 from rfl]
    omega
  rw [hlength, List.dropLast_concat]
  exact slice?_append [] body ['$']

theorem ofRegex_eq (pattern : String) : ofRegex pattern = .of (.ok (LikePattern.ofRegex pattern)) := by
  unfold ofRegex
  split
  · next cs hcs =>
    have hmodel : LikePattern.ofRegex pattern =
        if cs.getLast? = some '$' then ⟨false, String.ofList cs.dropLast, false⟩
        else ⟨false, String.ofList cs, true⟩ := by
      rw [LikePattern.ofRegex, hcs]
      rfl
    rw [hmodel]
    by_cases hlast : cs.getLast? = some '$'
    · rw [if_pos hlast, if_pos hlast, slice?_dropLast hlast]
      rfl
    · rw [if_neg hlast, if_neg hlast]
      rfl
  · rfl

theorem fieldOperator_eq (f : Formatter) (scope : Scope) (field key : String) (arg : Value)
    {condition : String → Attempt FormatError Condition} {condition' : String → Except FormatError Condition}
    (h : ∀ column, condition column = .of (condition' column)) :
    fieldOperator f scope field key arg condition = .of (f.fieldOperator scope field key arg condition') := by
  unfold fieldOperator Formatter.fieldOperator
  by_cases hnot : key = "$not"
  · rw [if_pos hnot, if_pos hnot]
    exact Attempt.bind_eq (h field) fun c _ => rfl
  rw [if_neg hnot, if_neg hnot]
  by_cases hin : key = "$in" ∨ key = "$nin"
  · rw [if_pos hin, if_pos hin]
    exact Attempt.bind_eq (expressionIn_eq f scope arg) fun list _ => rfl
  rw [if_neg hin, if_neg hin]
  by_cases hregex : key = "$regex"
  · rw [if_pos hregex, if_pos hregex]
    cases arg with
    | string pattern =>
      dsimp only
      rw [ofRegex_eq]
      rfl
    | _ => rfl
  rw [if_neg hregex, if_neg hregex]
  by_cases htext : key = "$text"
  · rw [if_pos htext, if_pos htext]
    cases arg.document?.bind (Entries.get? "$search") with
    | none => rfl
    | some value => cases value <;> rfl
  rw [if_neg htext, if_neg htext]
  cases comparisonSymbols.lookup key with
  | some symbol => exact Attempt.bind_eq (expressionIn_eq f scope arg) fun right _ => rfl
  | none =>
    dsimp only
    cases (Method.ofKey? key).bind fun method => f.unaryCall? method field with
    | some wrapped => exact h wrapped
    | none => rfl

theorem equality_eq (f : Formatter) (scope : Scope) (field : String) (v : Value) :
    (do
      let right ← expressionIn f scope v
      return .leaf (field ++ "=" ++ right)) = Attempt.of (do
      let right ← f.expressionIn scope v
      return Condition.leaf (field ++ "=" ++ right)) :=
  Attempt.bind_eq (expressionIn_eq f scope v) fun _ _ => rfl

mutual

theorem fieldCondition_eq (f : Formatter) (scope : Scope) (field : String) : ∀ v : Value,
    fieldCondition f scope field v = .of (f.fieldCondition scope field v)
  | .null => rfl
  | .array items => by
    rw [fieldCondition, Formatter.fieldCondition]
    exact Attempt.bind_eq (expressionIn_eq f scope (.array items)) fun list _ => rfl
  | .object entries => by
    rw [fieldCondition, Formatter.fieldCondition]
    refine Attempt.bind_eq (fieldOperators_eq f scope field entries) fun cs _ => ?_
    cases cs <;> rfl
  | .bool b => equality_eq f scope field (.bool b)
  | .int n => equality_eq f scope field (.int n)
  | .float x => equality_eq f scope field (.float x)
  | .string s => equality_eq f scope field (.string s)
  | .date t => equality_eq f scope field (.date t)
  | .ref path => equality_eq f scope field (.ref path)

theorem fieldOperators_eq (f : Formatter) (scope : Scope) (field : String) : ∀ entries : List (String × Value),
    fieldOperators f scope field entries = .of (f.fieldOperators scope field entries)
  | [] => rfl
  | (key, arg) :: rest => by
    rw [fieldOperators, Formatter.fieldOperators]
    split
    · exact fieldOperators_eq f scope field rest
    · refine Attempt.bind_eq (fieldOperator_eq f scope field key arg fun column => ?_) fun c _ => ?_
      · exact fieldCondition_eq f scope column arg
      · exact Attempt.bind_eq (fieldOperators_eq f scope field rest) fun cs _ => rfl

end

theorem conjunction_eq (filter : Value) (cs : List Condition) :
    conjunction filter cs = .of (Formatter.conjunction filter cs) := by
  rcases cs with _ | ⟨c, _ | ⟨d, cs⟩⟩ <;> rfl

theorem filterEntry_eq (f : Formatter) (scope : Scope) (key : String) (value : Value)
    {group : Unit → Attempt FormatError (List Condition)} {group' : Unit → Except FormatError (List Condition)}
    (h : group () = .of (group' ())) :
    filterEntry f scope key value group = .of (f.filterEntry scope key value group') := by
  unfold filterEntry Formatter.filterEntry
  split
  · exact Attempt.bind_eq h fun cs _ => rfl
  split
  · exact Attempt.bind_eq h fun cs _ => rfl
  split
  · exact Attempt.bind_eq h fun cs _ => rfl
  split
  · exact Attempt.bind_eq h fun cs _ => rfl
  split
  · exact Attempt.bind_eq (expressionIn_eq f scope _) fun sql _ => rfl
  · exact Attempt.bind_eq rfl fun field _ => fieldCondition_eq f scope field value

mutual

theorem filterIn_eq (f : Formatter) (scope : Scope) : ∀ v : Value, filterIn f scope v = .of (f.filterIn scope v)
  | .object entries => by
    rw [filterIn, Formatter.filterIn]
    exact Attempt.bind_eq (filterEntries_eq f scope entries) fun cs _ => conjunction_eq _ cs
  | .null => rfl
  | .bool _ => rfl
  | .int _ => rfl
  | .float _ => rfl
  | .string _ => rfl
  | .date _ => rfl
  | .array _ => rfl
  | .ref _ => rfl

theorem filterEntries_eq (f : Formatter) (scope : Scope) : ∀ entries : List (String × Value),
    filterEntries f scope entries = .of (f.filterEntries scope entries)
  | [] => rfl
  | (key, value) :: rest => by
    rw [filterEntries, Formatter.filterEntries]
    refine Attempt.bind_eq (filterEntry_eq f scope key value (filterGroup_eq f scope key value)) fun c _ => ?_
    exact Attempt.bind_eq (filterEntries_eq f scope rest) fun cs _ => rfl

theorem filterGroup_eq (f : Formatter) (scope : Scope) (key : String) : ∀ v : Value,
    filterGroup f scope key v = .of (f.filterGroup scope key v)
  | .array [] => rfl
  | .array (item :: items) => filterItems_eq f scope (item :: items)
  | .object entries => by
    rw [filterGroup, Formatter.filterGroup]
    refine Attempt.bind_eq (filterEntries_eq f scope entries) fun cs _ => ?_
    exact Attempt.bind_eq (conjunction_eq _ cs) fun c _ => rfl
  | .null => rfl
  | .bool _ => rfl
  | .int _ => rfl
  | .float _ => rfl
  | .string _ => rfl
  | .date _ => rfl
  | .ref _ => rfl

theorem filterItems_eq (f : Formatter) (scope : Scope) : ∀ vs : List Value,
    filterItems f scope vs = .of (f.filterItems scope vs)
  | [] => rfl
  | v :: vs => by
    rw [filterItems, Formatter.filterItems]
    exact Attempt.bind_eq (filterIn_eq f scope v) fun c _ => Attempt.bind_eq (filterItems_eq f scope vs) fun cs _ => rfl

end

/-- Formatting a filter has an outcome, whatever the filter is. -/
theorem filter_eq (f : Formatter) (value : Value) : filter f value = .of (f.filter value) :=
  Attempt.bind_eq (filterIn_eq f f.plainScope value) fun _ _ => rfl

end Sql.Formatter.Indexed

end SqlQuery
