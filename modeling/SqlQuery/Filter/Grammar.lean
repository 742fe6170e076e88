import SqlQuery.Expr.Basic
import SqlQuery.Filter.Lexer
import SqlQuery.Method
import SqlQuery.Outcome

/-!
# The grammar of filters

An expression is an operand followed by operators and their right operands, which bind by power:
`or`, `and`, `not`, the comparisons, `add` and `sub`, `mul`, `div` and `mod`, the minus sign, from weak
to strong. Operators of one power associate to the left.

Operands nest at most `Expr.maxHeight` levels deep, and trees grow at most that tall. The depth left
is the recursion of `expression`: each level reads its operands with the level below. Within a level
the loops are founded on the tokens left, because a level always takes a token
(`OperandParser.shorter`). Along with a tree its height is counted, from which chains of operators are
found to be too tall.
-/

namespace SqlQuery.Filter

/-- Why tokens are no expression. -/
inductive ParseError where
  | noExpression
  | lexical (cause : LexError)
  | missingCloseParen (openedAt : Nat)
  | unexpectedToken (description : String) (position : Nat)
  | unexpectedEnd
  | unresolvedMethod (name : String) (position : Nat)
  | wrongArgumentCount (name expected : String) (found : Nat)
  | nestingTooDeep (position : Nat)

def ParseError.message : ParseError → String
  | .noExpression => "Empty input"
  | .lexical cause => "Lexical error: " ++ cause.message
  | .missingCloseParen openedAt =>
    "Missing closing parenthesis for the one opened at " ++ Decimal.natText openedAt
  | .unexpectedToken description position =>
    "Unexpected " ++ description ++ " at " ++ Decimal.natText position
  | .unexpectedEnd => "Unexpected end of input"
  | .unresolvedMethod name position =>
    "Unresolved method '" ++ name ++ "' at " ++ Decimal.natText position
  | .wrongArgumentCount name expected found =>
    "Method '" ++ name ++ "' expects " ++ expected ++ " arguments, got " ++ Decimal.natText found
  | .nestingTooDeep position =>
    "Expression nested deeper than " ++ Decimal.natText Expr.maxHeight ++ " levels at " ++
      Decimal.natText position

/-- The token is not one that can stand here. -/
def unexpected (t : Token) : ParseError := .unexpectedToken t.lexeme.describe t.start

/-! ### Operators -/

inductive BinaryOp where
  | logical (op : LogicalOp)
  | comparison (op : ComparisonOp)
  /-- The comparison with a list of literals. -/
  | membership
  | arithmetic (op : ArithmeticOp)
  deriving DecidableEq, Repr

def BinaryOp.words : List (String × BinaryOp) :=
  [("or", .logical .or), ("and", .logical .and), ("eq", .comparison .eq), ("ne", .comparison .ne),
   ("gt", .comparison .gt), ("ge", .comparison .gte), ("lt", .comparison .lt),
   ("le", .comparison .lte), ("in", .membership), ("add", .arithmetic .add),
   ("sub", .arithmetic .subtract), ("mul", .arithmetic .multiply), ("div", .arithmetic .divide),
   ("mod", .arithmetic .mod)]

def BinaryOp.ofWord? (word : String) : Option BinaryOp := words.lookup word

/-- How strongly an operator binds its left operand. The right one is bound a little more strongly, so
that operators of one power associate to the left. -/
def BinaryOp.power : BinaryOp → Nat
  | .logical .or => 10
  | .logical _ => 20
  | .comparison _ => 40
  | .membership => 40
  | .arithmetic .add => 50
  | .arithmetic .subtract => 50
  | .arithmetic _ => 60

def notPower : Nat := 30

def minusPower : Nat := 90

/-- How many arguments a method takes. -/
inductive Arity where
  | exactly (n : Nat)
  | atLeast (n : Nat)
  /-- Either that many or one more. -/
  | orOneMore (n : Nat)
  deriving DecidableEq

/-- Whether a method can take that many arguments. -/
def Arity.admits : Arity → Nat → Bool
  | .exactly n, count => count = n
  | .atLeast n, count => n ≤ count
  | .orOneMore n, count => count = n || count = n + 1

def Arity.describe : Arity → String
  | .exactly n => Decimal.natText n
  | .atLeast n => "at least " ++ Decimal.natText n
  | .orOneMore n => Decimal.natText n ++ " or " ++ Decimal.natText (n + 1)

/-- The number of arguments of a method in a filter. -/
def arity : Method → Arity
  | .substr | .indexOfBytes => .orOneMore 2
  | .concat => .atLeast 2
  | .startsWith | .endsWith | .contains => .exactly 2
  | .round => .orOneMore 1
  | _ => .exactly 1

/-! ### Tokens left to read -/

/-- The tokens left, and the start of the last one read, zero before the first. -/
structure Stream where
  last : Nat
  rest : List Token

def Token.isPunctuation (t : Token) (p : Punctuation) : Bool :=
  match t.lexeme with
  | .punctuation q => q = p
  | _ => false

/-- An expression with a bound on its height, and what follows it. -/
structure Parsed where
  expr : Expr
  height : Nat
  stream : Stream

/-- A reader of operands down to some power, which takes at least one token. -/
structure OperandParser where
  run : Nat → Stream → Except ParseError Parsed
  shorter : ∀ {power : Nat} {s : Stream} {p : Parsed}, run power s = .ok p → p.stream.rest.length < s.rest.length

/-- Arguments with the greatest of their heights, and what follows them. -/
structure Arguments where
  args : List Expr
  height : Nat
  stream : Stream

/-! ### The parts of an expression -/

/-- The arguments after the first, up to the closing parenthesis. -/
def moreArguments (operand : OperandParser) (openedAt : Nat) (tokens : List Token) :
    Except ParseError Arguments :=
  match tokens with
  | [] => .error (.missingCloseParen openedAt)
  | t :: rest =>
    if t.isPunctuation .parenClose then .ok ⟨[], 0, ⟨t.start, rest⟩⟩
    else if t.isPunctuation .comma then
      match _h : operand.run 0 ⟨t.start, rest⟩ with
      | .error cause => .error cause
      | .ok p =>
        match moreArguments operand openedAt p.stream.rest with
        | .error cause => .error cause
        | .ok later => .ok ⟨p.expr :: later.args, max p.height later.height, later.stream⟩
    else .error (unexpected t)
termination_by tokens.length
decreasing_by
  have := operand.shorter _h
  simp only [List.length_cons] at *
  omega

def arguments (operand : OperandParser) (s : Stream) : Except ParseError Arguments :=
  match s.rest with
  | [] => .error .unexpectedEnd
  | t :: rest =>
    if t.isPunctuation .parenOpen then
      match rest with
      | [] => .error (.missingCloseParen t.start)
      | u :: later =>
        if u.isPunctuation .parenClose then .ok ⟨[], 0, ⟨u.start, later⟩⟩
        else do
          let p ← operand.run 0 ⟨t.start, rest⟩
          let more ← moreArguments operand t.start p.stream.rest
          return ⟨p.expr :: more.args, max p.height more.height, more.stream⟩
    else .error (unexpected t)

/-- The values of literals; anything else is unexpected at the start of their list. -/
def literalValues (position : Nat) : List Expr → Except ParseError (List Value)
  | [] => .ok []
  | .literal value :: items => do
    let values ← literalValues position items
    return value :: values
  | item :: _ => .error (.unexpectedToken item.kind position)

/-- The list of literals that a member is compared with. -/
def literalList (operand : OperandParser) (s : Stream) : Except ParseError (List Value × Stream) := do
  let position := match s.rest with
    | t :: _ => t.start
    | [] => 0
  let list ← arguments operand s
  let values ← literalValues position list.args
  return (values, list.stream)

/-- `substringof` takes the text before the value that is searched. -/
def orderArguments (name : String) (args : List Expr) : List Expr :=
  match args with
  | [a, b] => if Text.lowerCase name = "substringof" then [b, a] else [a, b]
  | _ => args

/-- A method call, of which the name has been read. -/
def methodCall (operand : OperandParser) (name : String) (position : Nat) (s : Stream) :
    Except ParseError Parsed :=
  match Method.ofFilterName? name with
  | none => .error (.unresolvedMethod name position)
  | some method => do
    let list ← arguments operand s
    if (arity method).admits list.args.length then
      return ⟨.call method.name (orderArguments name list.args), list.height + 1, list.stream⟩
    else .error (.wrongArgumentCount name (arity method).describe list.args.length)

/-- The segments that follow a member's first one, with a slash before each. -/
def memberPath (path : String) (last : Nat) : List Token → Except ParseError (String × Stream)
  | [] => .ok (path, ⟨last, []⟩)
  | [t] => if t.isPunctuation .slash then .error .unexpectedEnd else .ok (path, ⟨last, [t]⟩)
  | t :: u :: rest =>
    if t.isPunctuation .slash then
      match u.lexeme with
      | .word name => memberPath (path ++ "." ++ name) u.start rest
      | _ => .error (unexpected u)
    else .ok (path, ⟨last, t :: u :: rest⟩)

/-- A member or a method call, whichever a word starts. -/
def wordOperand (operand : OperandParser) (name : String) (s : Stream) : Except ParseError Parsed :=
  if (s.rest.head?.map fun t => t.isPunctuation .parenOpen) = some true then methodCall operand name s.last s
  else do
    let (path, s) ← memberPath name s.last s.rest
    return ⟨.member path, 1, s⟩

/-- An expression in parentheses, of which the opening one has been read. -/
def parenthesized (operand : OperandParser) (s : Stream) : Except ParseError Parsed := do
  let p ← operand.run 0 s
  match p.stream.rest with
  | t :: rest =>
    if t.isPunctuation .parenClose then return { p with stream := ⟨t.start, rest⟩ }
    else .error (.missingCloseParen s.last)
  | [] => .error (.missingCloseParen s.last)

/-- An operand without the operators that follow it. -/
def primary (operand : OperandParser) (s : Stream) : Except ParseError Parsed :=
  match s.rest with
  | [] => .error .unexpectedEnd
  | t :: rest =>
    let s : Stream := ⟨t.start, rest⟩
    match t.lexeme with
    | .punctuation .parenOpen => parenthesized operand s
    | .punctuation .minus => do
      -- The sign of a number is part of the number's token, so this one stands before something else.
      let p ← operand.run minusPower s
      return { p with expr := p.expr.negated, height := p.height + 1 }
    | .punctuation _ => .error (unexpected t)
    | .literal value _ _ => .ok ⟨.literal value, 1, s⟩
    | .word name =>
      if name = "not" then do
        let p ← operand.run notPower s
        return { p with expr := .logical .not [p.expr], height := p.height + 1 }
      else if (BinaryOp.ofWord? name).isSome then .error (unexpected t)
      else wordOperand operand name s

/-- The operator that comes next, if it binds at least as strongly as asked for, and what follows. -/
def nextOperator? (minPower : Nat) (s : Stream) : Option (BinaryOp × Stream) :=
  match s.rest with
  | [] => none
  | t :: rest =>
    match t.lexeme with
    | .word name =>
      match BinaryOp.ofWord? name with
      | some op => if minPower ≤ op.power then some (op, ⟨t.start, rest⟩) else none
      | none => none
    | _ => none

/-- An operator applied to a left operand and to the right one that follows. -/
def operation (operand : OperandParser) (op : BinaryOp) (left : Expr) (height : Nat) (s : Stream) :
    Except ParseError Parsed :=
  match op with
  | .membership => do
    -- The list counts as a node over its literals.
    let (values, s) ← literalList operand s
    return ⟨.comparison .isIn left (some (.literal (.array values))), max height 2 + 1, s⟩
  | .logical lop => do
    let p ← operand.run (op.power + 1) s
    -- A left operand that takes the right one into its list has only this one more below it.
    let height := if left.absorbs lop then max height (p.height + 1) else max height p.height + 1
    return ⟨left.combine lop p.expr, height, p.stream⟩
  | .comparison cop => do
    let p ← operand.run (op.power + 1) s
    return ⟨.comparison cop left (some p.expr), max height p.height + 1, p.stream⟩
  | .arithmetic aop => do
    let p ← operand.run (op.power + 1) s
    return ⟨.arithmetic aop left p.expr, max height p.height + 1, p.stream⟩

/-! ### Reading goes forward -/

section Shorter

variable {operand : OperandParser}

theorem moreArguments_shorter {openedAt : Nat} {tokens : List Token} {list : Arguments}
    (h : moreArguments operand openedAt tokens = .ok list) : list.stream.rest.length < tokens.length := by
  fun_induction moreArguments operand openedAt tokens generalizing list with
  | case1 => simp at h
  | case2 t rest _ =>
    simp only [Except.ok.injEq] at h
    simp [← h]
  | case3 => simp at h
  | case4 => simp at h
  | case5 t rest _ _ p hp later hl ih =>
    simp only [Except.ok.injEq] at h
    have h₁ := ih hl
    have h₂ := operand.shorter hp
    simp only [← h, List.length_cons] at *
    omega
  | case6 => simp at h

theorem arguments_shorter {s : Stream} {list : Arguments} (h : arguments operand s = .ok list) :
    list.stream.rest.length < s.rest.length := by
  unfold arguments at h
  split at h
  · simp at h
  · next t rest hs =>
    rw [hs, List.length_cons]
    split at h
    · split at h
      · simp at h
      · next u later =>
        split at h
        · simp only [Except.ok.injEq] at h
          simp only [← h, List.length_cons]
          omega
        · obtain ⟨p, hp, h⟩ := bind_eq_ok.1 h
          obtain ⟨more, hm, h⟩ := bind_eq_ok.1 h
          have h₁ := operand.shorter hp
          have h₂ := moreArguments_shorter hm
          rw [← pure_eq_ok.1 h]
          simp only at *
          omega
    · simp at h

theorem literalList_shorter {s after : Stream} {values : List Value}
    (h : literalList operand s = .ok (values, after)) : after.rest.length < s.rest.length := by
  obtain ⟨list, hl, h⟩ := bind_eq_ok.1 h
  obtain ⟨values, _, h⟩ := bind_eq_ok.1 h
  have := pure_eq_ok.1 h
  simp only [Prod.mk.injEq] at this
  exact this.2 ▸ arguments_shorter hl

theorem methodCall_shorter {name : String} {position : Nat} {s : Stream} {p : Parsed}
    (h : methodCall operand name position s = .ok p) : p.stream.rest.length < s.rest.length := by
  unfold methodCall at h
  split at h
  · simp at h
  · obtain ⟨list, hl, h⟩ := bind_eq_ok.1 h
    split at h
    · rw [← pure_eq_ok.1 h]
      exact arguments_shorter hl
    · simp at h

theorem memberPath_length_le {path : String} {last : Nat} {tokens : List Token} {r : String × Stream}
    (h : memberPath path last tokens = .ok r) : r.2.rest.length ≤ tokens.length := by
  fun_induction memberPath path last tokens with
  | case1 => simp only [Except.ok.injEq] at h; simp [← h]
  | case2 => simp at h
  | case3 => simp only [Except.ok.injEq] at h; simp [← h]
  | case4 _ _ t u rest _ name _ ih =>
    have := ih h
    simp only [List.length_cons]
    omega
  | case5 => simp at h
  | case6 => simp only [Except.ok.injEq] at h; simp [← h]

theorem wordOperand_length_le {name : String} {s : Stream} {p : Parsed}
    (h : wordOperand operand name s = .ok p) : p.stream.rest.length ≤ s.rest.length := by
  unfold wordOperand at h
  split at h
  · exact Nat.le_of_lt (methodCall_shorter h)
  · obtain ⟨r, hr, h⟩ := bind_eq_ok.1 h
    rw [← pure_eq_ok.1 h]
    exact memberPath_length_le hr

theorem parenthesized_shorter {s : Stream} {p : Parsed} (h : parenthesized operand s = .ok p) :
    p.stream.rest.length < s.rest.length := by
  obtain ⟨q, hq, h⟩ := bind_eq_ok.1 h
  have := operand.shorter hq
  split at h
  · next t rest hr =>
    split at h
    · rw [hr, List.length_cons] at this
      rw [← pure_eq_ok.1 h]
      simp only
      omega
    · simp at h
  · simp at h

theorem primary_shorter {s : Stream} {p : Parsed} (h : primary operand s = .ok p) :
    p.stream.rest.length < s.rest.length := by
  unfold primary at h
  split at h
  · simp at h
  · next t rest hs =>
    rw [hs, List.length_cons, Nat.lt_succ_iff]
    simp only at h
    split at h
    · exact Nat.le_of_lt (parenthesized_shorter h)
    · obtain ⟨q, hq, h⟩ := bind_eq_ok.1 h
      rw [← pure_eq_ok.1 h]
      exact Nat.le_of_lt (operand.shorter hq)
    · simp at h
    · simp only [Except.ok.injEq] at h
      simp [← h]
    · split at h
      · obtain ⟨q, hq, h⟩ := bind_eq_ok.1 h
        rw [← pure_eq_ok.1 h]
        exact Nat.le_of_lt (operand.shorter hq)
      · split at h
        · simp at h
        · exact wordOperand_length_le h

theorem nextOperator?_shorter {minPower : Nat} {s after : Stream} {op : BinaryOp}
    (h : nextOperator? minPower s = some (op, after)) : after.rest.length < s.rest.length := by
  unfold nextOperator? at h
  split at h
  · simp at h
  · next t rest hs =>
    split at h
    · split at h
      · split at h
        · simp only [Option.some.injEq, Prod.mk.injEq] at h
          simp [← h.2, hs]
        · simp at h
      · simp at h
    · simp at h

theorem operation_shorter {op : BinaryOp} {left : Expr} {height : Nat} {s : Stream} {p : Parsed}
    (h : operation operand op left height s = .ok p) : p.stream.rest.length < s.rest.length := by
  unfold operation at h
  split at h
  all_goals
    obtain ⟨q, hq, h⟩ := bind_eq_ok.1 h
    rw [← pure_eq_ok.1 h]
  · exact literalList_shorter hq
  · exact (operand.shorter hq :)
  · exact (operand.shorter hq :)
  · exact (operand.shorter hq :)

end Shorter

/-! ### Expressions -/

/-- Applies the operators that follow a left operand, as long as they bind strongly enough. -/
def operations (operand : OperandParser) (minPower : Nat) (left : Expr) (height : Nat) (s : Stream) :
    Except ParseError Parsed :=
  match _hop : nextOperator? minPower s with
  | none => .ok ⟨left, height, s⟩
  | some (op, after) =>
    match _hp : operation operand op left height after with
    | .error cause => .error cause
    | .ok p =>
      if Expr.maxHeight < p.height then .error (.nestingTooDeep p.stream.last)
      else operations operand minPower p.expr p.height p.stream
termination_by s.rest.length
decreasing_by exact Nat.lt_trans (operation_shorter _hp) (nextOperator?_shorter _hop)

theorem operations_length_le {operand : OperandParser} {minPower : Nat} {left : Expr} {height : Nat}
    {s : Stream} {p : Parsed} (h : operations operand minPower left height s = .ok p) :
    p.stream.rest.length ≤ s.rest.length := by
  fun_induction operations operand minPower left height s with
  | case1 => simp only [Except.ok.injEq] at h; simp [← h]
  | case2 => simp at h
  | case3 => simp at h
  | case4 _ _ s op after hop q hq _ ih =>
    have := ih h
    have := operation_shorter hq
    have := nextOperator?_shorter hop
    omega

/-- The reader of one level, which reads its operands with the level below. -/
def level (operand : OperandParser) : OperandParser where
  run minPower s := do
    let p ← primary operand s
    operations operand minPower p.expr p.height p.stream
  shorter h := by
    obtain ⟨p, hp, h⟩ := bind_eq_ok.1 h
    exact Nat.lt_of_le_of_lt (operations_length_le h) (primary_shorter hp)

/-- The reader of expressions that nest at most that many levels deep. -/
def expression : Nat → OperandParser
  | 0 => ⟨fun _ s => .error (.nestingTooDeep s.last), by simp⟩
  | depth + 1 => level (expression depth)

/-- The expression that a list of tokens is. -/
def parseTokens (tokens : List Token) : Except ParseError Expr := do
  if tokens.isEmpty then .error .noExpression
  else
    let p ← (expression Expr.maxHeight).run 0 ⟨0, tokens⟩
    match p.stream.rest with
    | [] => return p.expr
    | t :: _ => .error (unexpected t)

def parse (text : String) : Except ParseError Expr :=
  match tokenize text with
  | .ok tokens => parseTokens tokens
  | .error cause => .error (.lexical cause)

end SqlQuery.Filter
