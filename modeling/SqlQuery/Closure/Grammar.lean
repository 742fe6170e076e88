import SqlQuery.Closure.Stream
import SqlQuery.Collection
import SqlQuery.Decimal.Reader
import SqlQuery.Method

/-!
# The grammar of closures

A closure is a header that names its parameter, and a body: an expression, a block that returns one, an
object, or a sequence of expressions in braces. A path that starts with the parameter is a member; one that
starts with the name of a known collection is a member of that collection. Other paths can only be
called.

As for filters, operands nest at most `Expr.maxHeight` levels deep, which is the recursion of
`expression`, and each loop is founded on the tokens left.
-/

namespace SqlQuery.Closure

/-- What the names in a body stand for: the parameter and the known collections. -/
structure Scope where
  parameter : Option String
  collections : Entries Collection

/-- The segments that a member's path gets for the name that it starts with: none for the parameter, the
collection's name for a collection. -/
def Scope.owner? (scope : Scope) (name : String) : Option (List String) :=
  if scope.parameter = some name then some []
  else (Entries.get? name scope.collections).map fun c => [c.outputName]

/-- An expression with a bound on its height. -/
structure Sized where
  expr : Expr
  height : Nat

/-- A reader of operands for each power that their operators have at least. -/
abbrev OperandParser := Nat → Reader Sized

def tallest (operands : List Sized) : Nat := operands.foldr (fun o h => max o.height h) 0

/-! ### Operators -/

inductive BinaryOp where
  | logical (op : LogicalOp)
  | comparison (op : ComparisonOp)
  | arithmetic (op : ArithmeticOp)
  deriving DecidableEq, Repr

def BinaryOp.ofKind? : TokenKind → Option BinaryOp
  | .orOr => some (.logical .or)
  | .andAnd => some (.logical .and)
  | .equal => some (.comparison .eq)
  | .notEqual => some (.comparison .ne)
  | .less => some (.comparison .lt)
  | .lessEqual => some (.comparison .lte)
  | .greater => some (.comparison .gt)
  | .greaterEqual => some (.comparison .gte)
  | .plus => some (.arithmetic .add)
  | .minus => some (.arithmetic .subtract)
  | .asterisk => some (.arithmetic .multiply)
  | .slash => some (.arithmetic .divide)
  | .percent => some (.arithmetic .mod)
  | .ampersand => some (.arithmetic .bit)
  | _ => none

/-- How strongly an operator binds its left operand; the right one is bound a little more strongly. -/
def BinaryOp.power : BinaryOp → Nat
  | .logical .or => 10
  | .logical _ => 20
  | .comparison _ => 40
  | .arithmetic .add => 50
  | .arithmetic .subtract => 50
  | .arithmetic _ => 60

/-- How strongly the signs before an operand bind it. -/
def signPower : Nat := 90

def BinaryOp.apply (op : BinaryOp) (left right : Sized) : Sized :=
  match op with
  | .logical lop =>
    ⟨left.expr.combine lop right.expr,
      if left.expr.absorbs lop then max left.height (right.height + 1)
      else max left.height right.height + 1⟩
  | .comparison cop => ⟨.comparison cop left.expr (some right.expr), max left.height right.height + 1⟩
  | .arithmetic aop => ⟨.arithmetic aop left.expr right.expr, max left.height right.height + 1⟩

/-! ### Literals and calls -/

/-- The number that a token is. Underscores between the digits mean nothing. -/
def number (t : Token) : Except ClosureError Expr :=
  let cs := t.text.toList.filter (· ≠ '_')
  let value? := if '.' ∈ cs then (Decimal.readFloat? cs).map Value.float else (Decimal.readInt64? cs).map Value.int
  match value? with
  | some value => .ok (.literal value)
  | none => .error (.invalidNumber (String.ofList cs))

/-- The literals that are words. -/
def wordLiteral? : String → Option Value
  | "true" => some (.bool true)
  | "false" => some (.bool false)
  | "null" => some .null
  | "None" => some .null
  | "undefined" => some .null
  | _ => none

/-- The method of a function that is called by its path. The last segment alone can name it too. -/
def functionMethod (path : List String) : Except ClosureError Method :=
  let name := Text.joinWith "." path
  let byLast? := if 1 < path.length then path.getLast?.bind Method.ofFallback? else none
  match (Method.ofFunction? name).or byLast? with
  | some m => .ok m
  | none => .error (.unsupported name)

/-- The call of a method on a receiver, which becomes the first argument. -/
def receiverCall (name : String) (receiver : Expr) (args : List Expr) : Except ClosureError Expr :=
  match (Method.ofInstanceName? name).or (Method.ofFallback? name) with
  | some m => .ok (.call m.name (receiver :: args))
  | none => .error (.unsupported name)

def lengthOf (e : Expr) : Expr := .call Method.length.name [e]

/-! ### Readers of parts -/

/-- The arguments of a call, in parentheses. -/
def arguments (operand : OperandParser) (s : Stream) : Except ClosureError (List Sized × Stream) := do
  let (_, s) ← s.expect .parenLeft "'('"
  items (operand 0) .parenRight [.comma] "',' or ')'" s

/-- A literal, which is all that an array can hold. -/
def element (operand : OperandParser) : Reader (Value × Nat) where
  run s := do
    let (o, s) ← (operand 0).run s
    match o.expr with
    | .literal value => return ((value, o.height), s)
    | e => .error (.unsupported ("array element " ++ e.kind))
  shorter h := by
    obtain ⟨⟨o, s₁⟩, ho, h⟩ := bind_eq_ok.1 h
    simp only at h
    split at h
    · have := pure_eq_ok.1 h
      simp only [Prod.mk.injEq] at this
      exact this.2 ▸ (operand 0).shorter ho
    · simp at h

/-- The elements of an array after its opening bracket. -/
def array (operand : OperandParser) (s : Stream) : Except ClosureError (Sized × Stream) := do
  let (elements, s) ← items (element operand) .bracketRight [.comma] "',' or ']'" s
  let height := elements.foldr (fun e h => max e.2 h) 0
  return (⟨.literal (.array (elements.map (·.1))), height + 1⟩, s)

/-- The name of a member, which is a word or a string. -/
def memberName (key : Token) : Except ClosureError String :=
  if key.kind = .word then .ok key.text
  else if key.isString then .ok key.value
  else .error (expected "object key" key)

def member (operand : OperandParser) : Reader (String × Sized) where
  run s := do
    let (key, s) ← s.next
    let name ← memberName key
    let (_, s) ← s.expect .colon "':'"
    let (o, s) ← (operand 0).run s
    return ((name, o), s)
  shorter h := by
    obtain ⟨⟨key, s₁⟩, hk, h⟩ := bind_eq_ok.1 h
    obtain ⟨name, _, h⟩ := bind_eq_ok.1 h
    obtain ⟨⟨colon, s₂⟩, hc, h⟩ := bind_eq_ok.1 h
    obtain ⟨⟨o, s₃⟩, ho, h⟩ := bind_eq_ok.1 h
    have := pure_eq_ok.1 h
    simp only [Prod.mk.injEq] at this
    have := this.2 ▸ (operand 0).shorter ho
    have := Stream.expect_shorter hc
    have := Stream.next_shorter hk
    omega

/-- The members of an object after its opening brace. Of two with one key the later one counts, in the
place of the earlier. -/
def object (operand : OperandParser) (s : Stream) : Except ClosureError (Sized × Stream) := do
  let (members, s) ← items (member operand) .braceRight [.comma] "',' or '\x7d'" s
  let entries := Entries.ofList (members.map fun m => (m.1, m.2.expr))
  return (⟨.object entries, tallest (members.map (·.2)) + 1⟩, s)

def pathSegments (s : Stream) : Except ClosureError (List String × Stream) :=
  match s.peek with
  | .error cause => .error cause
  | .ok none => .ok ([], s)
  | .ok (some t) =>
    if t.kind = .dot ∨ t.kind = .doubleColon then
      match _hd : s.next with
      | .error cause => .error cause
      | .ok (_, s₁) =>
        match _hw : s₁.expect .word "member name" with
        | .error cause => .error cause
        | .ok (word, s₂) =>
          match pathSegments s₂ with
          | .error cause => .error cause
          | .ok (segments, after) => .ok (word.text :: segments, after)
    else .ok ([], s)
termination_by s.rest.length
decreasing_by exact Nat.lt_trans (Stream.expect_shorter _hw) (Stream.next_shorter _hd)

/-- A path on the parameter or on a collection, of which the part after that name is given. -/
def ownedPath (operand : OperandParser) (owner path : List String) (whole : String) (s : Stream) :
    Except ClosureError (Sized × Stream) := do
  let called ← s.startsWith .parenLeft
  let memberOf (path : List String) : Expr := .member (Text.joinWith "." (owner ++ path))
  match path.getLast? with
  | none => .error (.unsupported whole)
  | some last =>
    let front := path.dropLast
    if called then
      if front.isEmpty then .error (.unsupported whole)
      else
        let (args, s) ← arguments operand s
        let e ← receiverCall last (memberOf front) (args.map (·.expr))
        return (⟨e, max (tallest args) 1 + 1⟩, s)
    else if last = "length" ∧ !front.isEmpty then return (⟨lengthOf (memberOf front), 2⟩, s)
    else return (⟨memberOf path, 1⟩, s)

def freePath (operand : OperandParser) (path : List String) (s : Stream) :
    Except ClosureError (Sized × Stream) := do
  let called ← s.startsWith .parenLeft
  if called then
    let (args, s) ← arguments operand s
    let m ← functionMethod path
    return (⟨.call m.name (args.map (·.expr)), tallest args + 1⟩, s)
  else .error (.unknownName (Text.joinWith "." path))

/-- What a path stands for, by the name that it starts with. -/
def pathOperand (scope : Scope) (operand : OperandParser) (first : String) (segments : List String)
    (s : Stream) : Except ClosureError (Sized × Stream) :=
  match scope.owner? first with
  | some owner => ownedPath operand owner segments (Text.joinWith "." (first :: segments)) s
  | none => freePath operand (first :: segments) s

/-- A method or the length of an operand, after the dot. -/
def link (operand : OperandParser) (receiver : Sized) (s : Stream) : Except ClosureError (Sized × Stream) := do
  let (word, s) ← s.expect .word "method name"
  let called ← s.startsWith .parenLeft
  if called then
    let (args, s) ← arguments operand s
    let e ← receiverCall word.text receiver.expr (args.map (·.expr))
    return (⟨e, max receiver.height (tallest args) + 1⟩, s)
  else if word.text = "length" then return (⟨lengthOf receiver.expr, receiver.height + 1⟩, s)
  else .error (.unsupported ("property '" ++ word.text ++ "' of a " ++ receiver.expr.kind))

/-! ### Reading goes forward -/

section Shorter

variable {operand : OperandParser}

theorem arguments_shorter {s after : Stream} {args : List Sized}
    (h : arguments operand s = .ok (args, after)) : after.rest.length < s.rest.length := by
  obtain ⟨⟨t, s₁⟩, ht, h⟩ := bind_eq_ok.1 h
  exact Nat.lt_trans (items_shorter h) (Stream.expect_shorter ht)

theorem array_shorter {s after : Stream} {o : Sized} (h : array operand s = .ok (o, after)) :
    after.rest.length < s.rest.length := by
  obtain ⟨⟨elements, s₁⟩, hi, h⟩ := bind_eq_ok.1 h
  have := pure_eq_ok.1 h
  simp only [Prod.mk.injEq] at this
  exact this.2 ▸ items_shorter hi

theorem object_shorter {s after : Stream} {o : Sized} (h : object operand s = .ok (o, after)) :
    after.rest.length < s.rest.length := by
  obtain ⟨⟨members, s₁⟩, hi, h⟩ := bind_eq_ok.1 h
  have := pure_eq_ok.1 h
  simp only [Prod.mk.injEq] at this
  exact this.2 ▸ items_shorter hi

theorem pathSegments_length_le {s after : Stream} {segments : List String}
    (h : pathSegments s = .ok (segments, after)) : after.rest.length ≤ s.rest.length := by
  fun_induction pathSegments s generalizing segments after with
  | case1 => simp at h
  | case2 =>
    simp only [Except.ok.injEq, Prod.mk.injEq] at h
    simp only [← h.2, Nat.le_refl]
  | case3 => simp at h
  | case4 => simp at h
  | case5 => simp at h
  | case6 s _ _ _ _ s₁ hd word s₂ hw more rest hr ih =>
    simp only [Except.ok.injEq, Prod.mk.injEq] at h
    have := h.2 ▸ ih hr
    have := Stream.expect_shorter hw
    have := Stream.next_shorter hd
    omega
  | case7 =>
    simp only [Except.ok.injEq, Prod.mk.injEq] at h
    simp only [← h.2, Nat.le_refl]

theorem ownedPath_length_le {owner path : List String} {whole : String} {s after : Stream} {o : Sized}
    (h : ownedPath operand owner path whole s = .ok (o, after)) : after.rest.length ≤ s.rest.length := by
  obtain ⟨called, _, h⟩ := bind_eq_ok.1 h
  simp only at h
  split at h
  · simp at h
  · split at h
    · split at h
      · simp at h
      · obtain ⟨⟨args, s₁⟩, ha, h⟩ := bind_eq_ok.1 h
        obtain ⟨e, _, h⟩ := bind_eq_ok.1 h
        have := pure_eq_ok.1 h
        simp only [Prod.mk.injEq] at this
        exact this.2 ▸ Nat.le_of_lt (arguments_shorter ha)
    · split at h
      all_goals
        have := pure_eq_ok.1 h
        simp only [Prod.mk.injEq] at this
        simp only [this.2, Nat.le_refl]

theorem freePath_length_le {path : List String} {s after : Stream} {o : Sized}
    (h : freePath operand path s = .ok (o, after)) : after.rest.length ≤ s.rest.length := by
  obtain ⟨called, _, h⟩ := bind_eq_ok.1 h
  split at h
  · obtain ⟨⟨args, s₁⟩, ha, h⟩ := bind_eq_ok.1 h
    obtain ⟨m, _, h⟩ := bind_eq_ok.1 h
    have := pure_eq_ok.1 h
    simp only [Prod.mk.injEq] at this
    exact this.2 ▸ Nat.le_of_lt (arguments_shorter ha)
  · simp at h

theorem pathOperand_length_le {scope : Scope} {first : String} {segments : List String} {s after : Stream}
    {o : Sized} (h : pathOperand scope operand first segments s = .ok (o, after)) :
    after.rest.length ≤ s.rest.length := by
  unfold pathOperand at h
  split at h
  · exact ownedPath_length_le h
  · exact freePath_length_le h

theorem link_shorter {receiver o : Sized} {s after : Stream} (h : link operand receiver s = .ok (o, after)) :
    after.rest.length < s.rest.length := by
  obtain ⟨⟨word, s₁⟩, hw, h⟩ := bind_eq_ok.1 h
  have hw := Stream.expect_shorter hw
  obtain ⟨called, _, h⟩ := bind_eq_ok.1 h
  split at h
  · obtain ⟨⟨args, s₂⟩, ha, h⟩ := bind_eq_ok.1 h
    obtain ⟨e, _, h⟩ := bind_eq_ok.1 h
    have := pure_eq_ok.1 h
    simp only [Prod.mk.injEq] at this
    exact this.2 ▸ Nat.lt_trans (arguments_shorter ha) hw
  · split at h
    · have := pure_eq_ok.1 h
      simp only [Prod.mk.injEq] at this
      exact this.2 ▸ hw
    · simp at h

end Shorter

/-! ### Expressions -/

/-- The methods called one after the other on an operand. -/
def chain (operand : OperandParser) (receiver : Sized) (s : Stream) : Except ClosureError (Sized × Stream) :=
  match _hd : s.accept .dot with
  | .error cause => .error cause
  | .ok none => .ok (receiver, s)
  | .ok (some s₁) =>
    match _hl : link operand receiver s₁ with
    | .error cause => .error cause
    | .ok (o, s₂) =>
      -- Each link makes the tree taller, and the levels of the reader do not count links.
      if Expr.maxHeight < o.height then .error (.nestingTooDeep s₂.position)
      else chain operand o s₂
termination_by s.rest.length
decreasing_by exact Nat.lt_trans (link_shorter _hl) (Stream.accept_shorter _hd)

/-- A path and what is called on it, of which the first segment has been read. -/
def path (scope : Scope) (operand : OperandParser) (first : String) (s : Stream) :
    Except ClosureError (Sized × Stream) := do
  let (segments, s) ← pathSegments s
  let (o, s) ← pathOperand scope operand first segments s
  chain operand o s

/-- An operand without the operators that follow it. -/
def primary (scope : Scope) (operand : OperandParser) (s : Stream) :
    Except ClosureError (Sized × Stream) := do
  let (t, s) ← s.next
  match t.kind with
  | .number =>
    let e ← number t
    return (⟨e, 1⟩, s)
  | .doubleQuoted => return (⟨.literal (.string t.value), 1⟩, s)
  | .singleQuoted => return (⟨.literal (.string t.value), 1⟩, s)
  | .parenLeft =>
    let (o, s) ← (operand 0).run s
    let (_, s) ← s.expect .parenRight "')'"
    return (o, s)
  | .braceLeft => object operand s
  | .bracketLeft => array operand s
  | .minus =>
    let (o, s) ← (operand signPower).run s
    return (⟨o.expr.negated, o.height + 1⟩, s)
  | .bang =>
    let (o, s) ← (operand signPower).run s
    return (⟨.logical .not [o.expr], o.height + 1⟩, s)
  | .word =>
    match wordLiteral? t.text with
    | some value => return (⟨.literal value, 1⟩, s)
    | none => path scope operand t.text s
  | _ => .error (expected "expression" t)

/-- The operator that comes next, if it binds at least as strongly as asked for, and what follows. -/
def nextOperator (minPower : Nat) (s : Stream) : Except ClosureError (Option (BinaryOp × Stream)) :=
  match s.rest, s.failure with
  | t :: rest, _ =>
    match BinaryOp.ofKind? t.kind with
    | some op => .ok (if minPower ≤ op.power then some (op, s.after t rest) else none)
    | none => .ok none
  | [], none => .ok none
  | [], some cause => .error (.lexical cause)

theorem chain_length_le {operand : OperandParser} {receiver o : Sized} {s after : Stream}
    (h : chain operand receiver s = .ok (o, after)) : after.rest.length ≤ s.rest.length := by
  fun_induction chain operand receiver s with
  | case1 => simp at h
  | case2 =>
    simp only [Except.ok.injEq, Prod.mk.injEq] at h
    simp only [h.2, Nat.le_refl]
  | case3 => simp at h
  | case4 => simp at h
  | case5 _ s s₁ hd o₁ s₂ hl _ ih =>
    have := ih h
    have := link_shorter hl
    have := Stream.accept_shorter hd
    omega

theorem path_length_le {scope : Scope} {operand : OperandParser} {first : String} {s after : Stream}
    {o : Sized} (h : path scope operand first s = .ok (o, after)) : after.rest.length ≤ s.rest.length := by
  obtain ⟨⟨segments, s₁⟩, hs, h⟩ := bind_eq_ok.1 h
  obtain ⟨⟨o₁, s₂⟩, ho, h⟩ := bind_eq_ok.1 h
  exact Nat.le_trans (chain_length_le h)
    (Nat.le_trans (pathOperand_length_le ho) (pathSegments_length_le hs))

theorem primary_shorter {scope : Scope} {operand : OperandParser} {s after : Stream} {o : Sized}
    (h : primary scope operand s = .ok (o, after)) : after.rest.length < s.rest.length := by
  obtain ⟨⟨t, s₁⟩, ht, h⟩ := bind_eq_ok.1 h
  refine Nat.lt_of_le_of_lt ?_ (Stream.next_shorter ht)
  simp only at h
  split at h
  · obtain ⟨e, _, h⟩ := bind_eq_ok.1 h
    have := pure_eq_ok.1 h
    simp only [Prod.mk.injEq] at this
    simp only [this.2, Nat.le_refl]
  · have := pure_eq_ok.1 h
    simp only [Prod.mk.injEq] at this
    simp only [this.2, Nat.le_refl]
  · have := pure_eq_ok.1 h
    simp only [Prod.mk.injEq] at this
    simp only [this.2, Nat.le_refl]
  · obtain ⟨⟨o₁, s₂⟩, ho, h⟩ := bind_eq_ok.1 h
    obtain ⟨⟨u, s₃⟩, hu, h⟩ := bind_eq_ok.1 h
    have := pure_eq_ok.1 h
    simp only [Prod.mk.injEq] at this
    exact this.2 ▸ Nat.le_of_lt (Nat.lt_trans (Stream.expect_shorter hu) ((operand 0).shorter ho))
  · exact Nat.le_of_lt (object_shorter h)
  · exact Nat.le_of_lt (array_shorter h)
  · obtain ⟨⟨o₁, s₂⟩, ho, h⟩ := bind_eq_ok.1 h
    have := pure_eq_ok.1 h
    simp only [Prod.mk.injEq] at this
    exact this.2 ▸ Nat.le_of_lt ((operand signPower).shorter ho)
  · obtain ⟨⟨o₁, s₂⟩, ho, h⟩ := bind_eq_ok.1 h
    have := pure_eq_ok.1 h
    simp only [Prod.mk.injEq] at this
    exact this.2 ▸ Nat.le_of_lt ((operand signPower).shorter ho)
  · split at h
    · have := pure_eq_ok.1 h
      simp only [Prod.mk.injEq] at this
      simp only [this.2, Nat.le_refl]
    · exact path_length_le h
  · simp at h

theorem nextOperator_shorter {minPower : Nat} {s after : Stream} {op : BinaryOp}
    (h : nextOperator minPower s = .ok (some (op, after))) : after.rest.length < s.rest.length := by
  unfold nextOperator at h
  split at h
  · split at h
    · simp only [Except.ok.injEq] at h
      split at h
      · simp only [Option.some.injEq, Prod.mk.injEq] at h
        rw [← h.2, ‹s.rest = _›]
        simp [Stream.after]
      · simp at h
    · simp at h
  · simp at h
  · simp at h

/-- Applies the operators that follow a left operand, as long as they bind strongly enough. -/
def operations (operand : OperandParser) (minPower : Nat) (left : Sized) (s : Stream) :
    Except ClosureError (Sized × Stream) :=
  match _hop : nextOperator minPower s with
  | .error cause => .error cause
  | .ok none => .ok (left, s)
  | .ok (some (op, s₁)) =>
    match _hr : (operand (op.power + 1)).run s₁ with
    | .error cause => .error cause
    | .ok (right, s₂) =>
      let o := op.apply left right
      if Expr.maxHeight < o.height then .error (.nestingTooDeep s₂.position)
      else operations operand minPower o s₂
termination_by s.rest.length
decreasing_by exact Nat.lt_trans ((operand _).shorter _hr) (nextOperator_shorter _hop)

theorem operations_length_le {operand : OperandParser} {minPower : Nat} {left o : Sized} {s after : Stream}
    (h : operations operand minPower left s = .ok (o, after)) : after.rest.length ≤ s.rest.length := by
  fun_induction operations operand minPower left s with
  | case1 => simp at h
  | case2 =>
    simp only [Except.ok.injEq, Prod.mk.injEq] at h
    simp only [h.2, Nat.le_refl]
  | case3 => simp at h
  | case4 => simp at h
  | case5 _ s op s₁ hop right s₂ hr _ _ ih =>
    have := ih h
    have := (operand _).shorter hr
    have := nextOperator_shorter hop
    omega

/-- The reader of one level, which reads its operands with the level below. -/
def level (scope : Scope) (operand : OperandParser) : OperandParser := fun minPower =>
  { run := fun s => do
      let (o, s) ← primary scope operand s
      operations operand minPower o s
    shorter := fun h => by
      obtain ⟨⟨o, s₁⟩, ho, h⟩ := bind_eq_ok.1 h
      exact Nat.lt_of_le_of_lt (operations_length_le h) (primary_shorter ho) }

/-- The reader of expressions that nest at most that many levels deep. -/
def expression (scope : Scope) : Nat → OperandParser
  | 0 => fun _ => ⟨fun s => .error (.nestingTooDeep s.position), by simp⟩
  | depth + 1 => level scope (expression scope depth)

/-! ### Closures -/

/-- Passes over the type of a parameter, up to the bar that ends it. -/
def skipType (s : Stream) : Except ClosureError Stream := do
  match ← s.accept .colon with
  | some s => return { s with rest := s.rest.dropWhile fun t => t.kind ≠ TokenKind.pipe }
  | none => return s

/-- A parameter between bars, of which the first has been read. -/
def barredParameter (s : Stream) : Except ClosureError (Option String × Stream) := do
  match ← s.accept .pipe with
  | some s => return (none, s)
  | none =>
    let (name, s) ← s.expect .word "closure parameter"
    let s ← skipType s
    let (_, s) ← s.expect .pipe "'|'"
    return (some name.text, s)

/-- A parameter in parentheses, of which the first has been read. -/
def parenthesizedParameter (s : Stream) : Except ClosureError (Option String × Stream) := do
  match ← s.accept .parenRight with
  | some s => return (none, s)
  | none =>
    let (name, s) ← s.expect .word "closure parameter"
    let (_, s) ← s.expect .parenRight "')'"
    return (some name.text, s)

/-- The header of a closure: the name of its parameter, if it has one. -/
def header (s : Stream) : Except ClosureError (Option String × Stream) := do
  let (first, s) ← s.next
  match first.kind with
  | .orOr => return (none, s)
  | .pipe => barredParameter s
  | .word =>
    let (_, s) ← s.expect .arrow "'=>'"
    return (some first.text, s)
  | .parenLeft =>
    let (name?, s) ← parenthesizedParameter s
    let (_, s) ← s.expect .arrow "'=>'"
    return (name?, s)
  | _ => .error (expected "closure parameters" first)

/-- Whether a brace opens an object: a key and a colon follow. -/
def opensObject (s : Stream) : Except ClosureError Bool :=
  match s.rest, s.failure with
  | key :: colon :: _, _ => .ok ((key.kind = .word || key.isString) && colon.kind = .colon)
  -- Fewer than two tokens are left, so the scanner's fault is among the two that are looked at.
  | _, none => .ok false
  | _, some cause => .error (.lexical cause)

def block (operand : OperandParser) (s : Stream) : Except ClosureError (Expr × Stream) := do
  let t? ← s.peek
  if t?.any fun t => t.kind = .word ∧ t.text = "return" then
    let (_, s) ← s.next
    let (o, s) ← (operand 0).run s
    let s := (← s.accept .semicolon).getD s
    let (_, s) ← s.expect .braceRight "'\x7d'"
    return (o.expr, s)
  else if ← opensObject s then
    let (o, s) ← object operand s
    return (o.expr, s)
  else
    let (operands, s) ← items (operand 0) .braceRight [.comma, .semicolon] "',' or '\x7d'" s
    return (.sequence (operands.map (·.expr)), s)

def body (operand : OperandParser) (s : Stream) : Except ClosureError (Expr × Stream) := do
  match ← s.accept .braceLeft with
  | some s => block operand s
  | none =>
    let (o, s) ← (operand 0).run s
    return (o.expr, s)

/-- The expression that a closure's text stands for. -/
def parse (collections : Entries Collection) (text : String) : Except ClosureError Expr := do
  let (parameter, s) ← header (Stream.ofText text)
  let (e, s) ← body (expression ⟨parameter, collections⟩ Expr.maxHeight) s
  match ← s.peek with
  | none => return e
  | some t => .error (expected "end of closure" t)

end SqlQuery.Closure
