import SqlQuery.Filter.Grammar
import SqlQuery.Proofs.Descent

/-!
# Filters read with a counter

The grammar of filters as programs of a cursor that counts the levels it enters. They have no outcome where they would
swap arguments that are not there, turn the sign of the least integer, or leave a level that they did not enter.
`Program.expression_ends` says that none of this happens: with more rounds than there are tokens they give what the
grammar gives.
-/

namespace SqlQuery.Filter

open Descent (Ends descend depth lift look read stop)

/-- An expression with its height, and what follows it. -/
def Parsed.view (p : Parsed) : (Expr × Nat) × Stream := ((p.expr, p.height), p.stream)

namespace Program

/-- The token that comes next. -/
def peek : Descent ParseError Stream (Option Token) := look fun s => .ok s.rest.head?

/-- Reads a token if there is one. -/
def next : Descent ParseError Stream (Option Token) := read fun s =>
  match s.rest with
  | [] => .ok (none, s)
  | t :: rest => .ok (some t, ⟨t.start, rest⟩)

/-- Reads a token. -/
def expectNext : Descent ParseError Stream Token := read fun s =>
  match s.rest with
  | [] => .error .unexpectedEnd
  | t :: rest => .ok (t, ⟨t.start, rest⟩)

/-- Reads an operator that binds at least so strongly. -/
def nextOperator (minPower : Nat) : Descent ParseError Stream (Option BinaryOp) := read fun s =>
  match nextOperator? minPower s with
  | none => .ok (none, s)
  | some (op, after) => .ok (some op, after)

/-- The first two arguments change places. There must be two. -/
def swap : List Expr → Descent ParseError Stream (List Expr)
  | a :: b :: args => return b :: a :: args
  | _ => stop

/-- `substringof` takes the text before the value that is searched. -/
def orderArguments (name : String) (args : List Expr) : Descent ParseError Stream (List Expr) :=
  if Text.lowerCase name = "substringof" then swap args else return args

/-- The sign of an integer turned. There must be one with that sign. -/
def negate (n : Int64) : Descent ParseError Stream Int64 := if n = Int64.minValue then stop else return -n

/-- The negative of an operand. -/
def negated : Expr → Descent ParseError Stream Expr
  | .literal (.int n) =>
    if n = Int64.minValue then return .arithmetic .subtract (.literal (.int 0)) (.literal (.int n))
    else do
      let m ← negate n
      return .literal (.int m)
  | .literal (.float x) => return .literal (.float (-x))
  | e => return .arithmetic .subtract (.literal (.int 0)) e

/-- The tree or the nesting is too deep, behind the last token read. -/
def tooDeep : Descent ParseError Stream (Expr × Nat) := do
  let last ← look fun s => .ok s.last
  throw (.nestingTooDeep last)

section Operands

variable (operand : Nat → Descent ParseError Stream (Expr × Nat))

/-- The arguments after some that have been read. -/
def moreArguments (openedAt : Nat) : Nat → List Expr → Nat → Descent ParseError Stream (List Expr × Nat)
  | 0, _, _ => stop
  | rounds + 1, args, height => do
    match ← peek with
    | none => throw (.missingCloseParen openedAt)
    | some t =>
      if t.isPunctuation .parenClose then
        let _ ← next
        return (args, height)
      else if args.isEmpty then
        let (arg, argHeight) ← operand 0
        moreArguments openedAt rounds (args ++ [arg]) (max height argHeight)
      else if t.isPunctuation .comma then
        let _ ← next
        let (arg, argHeight) ← operand 0
        moreArguments openedAt rounds (args ++ [arg]) (max height argHeight)
      else throw (unexpected t)

/-- A list of arguments in parentheses, with the greatest of their heights. -/
def arguments (rounds : Nat) : Descent ParseError Stream (List Expr × Nat) := do
  let first ← expectNext
  if first.isPunctuation .parenOpen then moreArguments operand first.start rounds [] 0 else throw (unexpected first)

/-- The list of literals that a member is compared with. -/
def literalList (rounds : Nat) : Descent ParseError Stream (List Value) := do
  let position ← look fun s => .ok ((s.rest.head?.map Token.start).getD 0)
  let (items, _) ← arguments operand rounds
  lift (literalValues position items)

/-- A method call, of which the name has been read. -/
def methodCall (rounds : Nat) (name : String) (position : Nat) : Descent ParseError Stream (Expr × Nat) :=
  match Method.ofFilterName? name with
  | none => throw (.unresolvedMethod name position)
  | some method => do
    let (args, height) ← arguments operand rounds
    if (arity method).admits args.length then
      let args ← orderArguments name args
      return (.call method.name args, height + 1)
    else throw (.wrongArgumentCount name (arity method).describe args.length)

/-- An operand without the operators that follow it. -/
def primary (rounds : Nat) (first : Token) : Descent ParseError Stream (Expr × Nat) :=
  match first.lexeme with
  | .punctuation .parenOpen => do
    let inner ← operand 0
    match ← next with
    | some t => if t.isPunctuation .parenClose then return inner else throw (.missingCloseParen first.start)
    | none => throw (.missingCloseParen first.start)
  | .punctuation .minus => do
    let (e, height) ← operand minusPower
    let e ← negated e
    return (e, height + 1)
  | .punctuation _ => throw (unexpected first)
  | .literal value _ _ => return (.literal value, 1)
  | .word name =>
    if name = "not" then do
      let (e, height) ← operand notPower
      return (.logical .not [e], height + 1)
    else if (BinaryOp.ofWord? name).isSome then throw (unexpected first)
    else do
      let t? ← peek
      if (t?.map fun t => t.isPunctuation .parenOpen) = some true then methodCall operand rounds name first.start
      else
        let path ← read fun s => memberPath name s.last s.rest
        return (.member path, 1)

/-- An operator applied to a left operand and to the right one that follows. -/
def operation (rounds : Nat) (op : BinaryOp) (left : Expr) (height : Nat) : Descent ParseError Stream (Expr × Nat) :=
  match op with
  | .membership => do
    let values ← literalList operand rounds
    return (.comparison .isIn left (some (.literal (.array values))), max height 2 + 1)
  | .logical lop => do
    let (right, rightHeight) ← operand (op.power + 1)
    return (left.combine lop right,
      if left.absorbs lop then max height (rightHeight + 1) else max height rightHeight + 1)
  | .comparison cop => do
    let (right, rightHeight) ← operand (op.power + 1)
    return (.comparison cop left (some right), max height rightHeight + 1)
  | .arithmetic aop => do
    let (right, rightHeight) ← operand (op.power + 1)
    return (.arithmetic aop left right, max height rightHeight + 1)

/-- Applies the operators that follow a left operand, as long as they bind strongly enough. -/
def operators (minPower : Nat) : Nat → Expr → Nat → Descent ParseError Stream (Expr × Nat)
  | 0, _, _ => stop
  | rounds + 1, left, height => do
    match ← nextOperator minPower with
    | none => return (left, height)
    | some op =>
      let (e, height) ← operation operand rounds op left height
      if Expr.maxHeight < height then tooDeep else operators minPower rounds e height

/-- An operand and the operators that bind at least so strongly, if the level is not too deep. -/
def guarded (rounds minPower : Nat) : Descent ParseError Stream (Expr × Nat) := do
  let d ← depth
  if Expr.maxHeight < d then tooDeep
  else
    let first ← expectNext
    let (left, height) ← primary operand rounds first
    operators operand minPower rounds left height

end Operands

/-- An operand and the operators that bind at least so strongly, one level down. -/
def expression : Nat → Nat → Descent ParseError Stream (Expr × Nat)
  | 0, _ => stop
  | rounds + 1, minPower => descend (guarded (expression rounds) (rounds + 1) minPower)

/-! ### What the programs give -/

theorem tooDeep_ends (s : Stream) (d : Nat) : Ends Parsed.view tooDeep s d (.error (.nestingTooDeep s.last)) :=
  .bind_ok (.look rfl) (.throw _ _)

section Tokens

variable {s : Stream} {t : Token} {rest : List Token} {d : Nat}

theorem peek_nil (hs : s.rest = []) : Ends (·, s) peek s d (.ok none) := .look (by rw [hs]; rfl)

theorem peek_cons (hs : s.rest = t :: rest) : Ends (·, s) peek s d (.ok (some t)) := .look (by rw [hs]; rfl)

theorem next_nil (hs : s.rest = []) : Ends id next s d (.ok (none, s)) := .read (by rw [hs])

theorem next_cons (hs : s.rest = t :: rest) : Ends id next s d (.ok (some t, ⟨t.start, rest⟩)) := .read (by rw [hs])

theorem expectNext_nil (hs : s.rest = []) : Ends id expectNext s d (.error .unexpectedEnd) := .read (by rw [hs])

theorem expectNext_cons (hs : s.rest = t :: rest) : Ends id expectNext s d (.ok (t, ⟨t.start, rest⟩)) :=
  .read (by rw [hs])

theorem nextOperator_none {minPower : Nat} (hop : nextOperator? minPower s = none) :
    Ends id (nextOperator minPower) s d (.ok (none, s)) := .read (by rw [hop])

theorem nextOperator_some {minPower : Nat} {op : BinaryOp} {after : Stream}
    (hop : nextOperator? minPower s = some (op, after)) : Ends id (nextOperator minPower) s d (.ok (some op, after)) :=
  .read (by rw [hop])

end Tokens

theorem moreArguments_comma {β : Type} {view : β → (List Expr × Nat) × Stream} {s : Stream} {t : Token}
    {rest : List Token} {program : Nat → Descent ParseError Stream (Expr × Nat)} {d openedAt rounds height : Nat}
    {args : List Expr} {r : Except ParseError β} (hs : s.rest = t :: rest)
    (hclose : ¬ t.isPunctuation .parenClose = true) (hcomma : t.isPunctuation .comma = true) (ha : args ≠ [])
    (h : Ends view (do
      let (arg, argHeight) ← program 0
      moreArguments program openedAt rounds (args ++ [arg]) (max height argHeight)) ⟨t.start, rest⟩ d r) :
    Ends view (moreArguments program openedAt (rounds + 1) args height) s d r := by
  rw [moreArguments]
  refine .bind_ok (peek_cons hs) ?_
  dsimp only [id]
  rw [if_neg hclose, if_neg (by simpa using ha), if_pos hcomma]
  exact .bind_ok (next_cons hs) h

/-- A call of `substringof` has two arguments once their number has been checked. -/
theorem orderArguments_ends {name : String} {method : Method} {args : List Expr} {s : Stream} {d : Nat}
    (hmethod : Method.ofFilterName? name = some method) (hadmits : (arity method).admits args.length = true) :
    Ends (·, s) (orderArguments name args) s d (.ok (Filter.orderArguments name args)) := by
  unfold orderArguments Filter.orderArguments
  by_cases hname : Text.lowerCase name = "substringof"
  · rw [Method.ofFilterName?, hname] at hmethod
    obtain rfl : method = .contains := (Option.some.inj hmethod).symm
    have hlength : args.length = 2 := of_decide_eq_true hadmits
    obtain ⟨a, b, rfl⟩ : ∃ a b, args = [a, b] := by
      rcases args with _ | ⟨a, _ | ⟨b, _ | ⟨c, args⟩⟩⟩ <;> simp at hlength ⊢
    simp only [hname, if_true]
    exact .pure _ rfl
  · rw [if_neg hname]
    split
    · rw [if_neg hname]
      exact .pure _ rfl
    · exact .pure _ rfl

/-- The least integer is looked for before a sign is turned. -/
theorem negated_ends (e : Expr) (s : Stream) (d : Nat) : Ends (·, s) (negated e) s d (.ok e.negated) := by
  cases e with
  | literal value =>
    cases value with
    | int n =>
      rw [negated, Expr.negated]
      by_cases hn : n = Int64.minValue
      · rw [if_pos hn, if_pos hn]
        exact .pure _ rfl
      · rw [if_neg hn, if_neg hn, negate, if_neg hn]
        exact .pure _ rfl
    | _ => exact .pure _ rfl
  | _ => exact .pure _ rfl

section Operands

variable {operand : OperandParser} {program : Nat → Descent ParseError Stream (Expr × Nat)} {d n : Nat}
  (ho : ∀ (power : Nat) (s : Stream), s.rest.length < n → Ends Parsed.view (program power) s d (operand.run power s))
include ho

theorem moreArguments_ends (openedAt : Nat) (tokens : List Token) {s : Stream} (hs : s.rest = tokens)
    (hn : tokens.length ≤ n) {rounds : Nat} (hr : tokens.length < rounds) {args : List Expr} (ha : args ≠ [])
    (height : Nat) :
    Ends (fun list : Arguments => ((args ++ list.args, max height list.height), list.stream))
      (moreArguments program openedAt rounds args height) s d (Filter.moreArguments operand openedAt tokens) := by
  obtain ⟨rounds, rfl⟩ := Nat.exists_eq_succ_of_ne_zero (Nat.ne_zero_of_lt hr)
  fun_induction Filter.moreArguments operand openedAt tokens generalizing s rounds args height with
  | case1 =>
    rw [moreArguments]
    exact .bind_ok (peek_nil hs) (.throw _ _)
  | case2 t rest hclose =>
    rw [moreArguments]
    refine .bind_ok (peek_cons hs) ?_
    dsimp only [id]
    rw [if_pos hclose]
    exact .bind_ok (next_cons hs) (.pure _ (by simp))
  | case3 t rest hclose hcomma cause hp =>
    exact moreArguments_comma hs hclose hcomma ha (.bind_error (hp ▸ ho 0 ⟨t.start, rest⟩ hn))
  | case4 t rest hclose hcomma p hp cause hmore ih =>
    have hlt := operand.shorter hp
    have hr' := Nat.lt_trans hlt (Nat.lt_of_succ_lt_succ hr)
    obtain ⟨rounds, rfl⟩ := Nat.exists_eq_succ_of_ne_zero (Nat.ne_zero_of_lt hr')
    refine moreArguments_comma hs hclose hcomma ha (.bind_ok (hp ▸ ho 0 ⟨t.start, rest⟩ hn) ?_)
    have hlater := ih rfl (Nat.le_of_lt (Nat.lt_trans hlt hn))
      (List.append_ne_nil_of_right_ne_nil args (List.cons_ne_nil p.expr [])) (max height p.height) rounds hr'
    rw [hmore] at hlater
    exact hlater.view_error
  | case5 t rest hclose hcomma p hp later hmore ih =>
    have hlt := operand.shorter hp
    have hr' := Nat.lt_trans hlt (Nat.lt_of_succ_lt_succ hr)
    obtain ⟨rounds, rfl⟩ := Nat.exists_eq_succ_of_ne_zero (Nat.ne_zero_of_lt hr')
    refine moreArguments_comma hs hclose hcomma ha (.bind_ok (hp ▸ ho 0 ⟨t.start, rest⟩ hn) ?_)
    have hlater := ih rfl (Nat.le_of_lt (Nat.lt_trans hlt hn))
      (List.append_ne_nil_of_right_ne_nil args (List.cons_ne_nil p.expr [])) (max height p.height) rounds hr'
    rw [hmore] at hlater
    exact hlater.view_ok (by simp [Nat.max_assoc])
  | case6 t rest hclose hcomma =>
    rw [moreArguments]
    refine .bind_ok (peek_cons hs) ?_
    dsimp only [id]
    rw [if_neg hclose, if_neg (by simpa using ha), if_neg hcomma]
    exact .throw _ _

theorem arguments_ends {s : Stream} (hn : s.rest.length ≤ n) {rounds : Nat} (hr : s.rest.length ≤ rounds) :
    Ends (fun list : Arguments => ((list.args, list.height), list.stream)) (arguments program rounds) s d
      (Filter.arguments operand s) := by
  rw [arguments, Filter.arguments]
  split
  · next hs => exact .bind_error (expectNext_nil hs)
  · next t rest hs =>
    rw [hs] at hn hr
    obtain ⟨rounds, rfl⟩ := Nat.exists_eq_succ_of_ne_zero (Nat.ne_zero_of_lt hr)
    refine .bind_ok (expectNext_cons hs) ?_
    dsimp only [id]
    split
    · rw [moreArguments]
      cases rest with
      | nil => exact .bind_ok (peek_nil rfl) (.throw _ _)
      | cons u later =>
        refine .bind_ok (peek_cons rfl) ?_
        dsimp only [id]
        split
        · exact .bind_ok (next_cons rfl) (.pure _ rfl)
        · refine .bind (ho 0 ⟨t.start, u :: later⟩ hn) fun p hp => ?_
          have hlt := operand.shorter hp
          have hmore := moreArguments_ends ho t.start p.stream.rest rfl (Nat.le_of_lt (Nat.lt_trans hlt hn))
            (Nat.lt_of_lt_of_le hlt (Nat.le_of_succ_le_succ hr)) (List.cons_ne_nil p.expr []) (max 0 p.height)
          exact hmore.map fun list => by simp
    · exact .throw _ _

theorem literalList_ends {s : Stream} (hn : s.rest.length ≤ n) {rounds : Nat} (hr : s.rest.length ≤ rounds) :
    Ends id (literalList program rounds) s d (Filter.literalList operand s) := by
  obtain ⟨last, tokens⟩ := s
  rw [literalList, Filter.literalList]
  cases tokens <;>
    exact .bind_ok (.look rfl) (.bind (arguments_ends ho hn hr) fun list hlist => .map (.lift _) fun values => rfl)

theorem methodCall_ends {name : String} {position : Nat} {s : Stream} (hn : s.rest.length ≤ n) {rounds : Nat}
    (hr : s.rest.length ≤ rounds) :
    Ends Parsed.view (methodCall program rounds name position) s d (Filter.methodCall operand name position s) := by
  rw [methodCall, Filter.methodCall]
  cases hmethod : Method.ofFilterName? name with
  | none => exact .throw _ _
  | some method =>
    refine .bind (arguments_ends ho hn hr) fun list hlist => ?_
    dsimp only
    split
    · next hadmits => exact .bind_ok (orderArguments_ends hmethod hadmits) (.pure Parsed.view rfl)
    · exact .throw _ _

theorem primary_ends {t : Token} {rest : List Token} (hn : rest.length < n) {rounds : Nat} (hr : rest.length ≤ rounds)
    {s : Stream} (hs : s.rest = t :: rest) :
    Ends Parsed.view (primary program rounds t) ⟨t.start, rest⟩ d (Filter.primary operand s) := by
  rw [primary, Filter.primary, hs]
  dsimp only
  cases t.lexeme with
  | punctuation p =>
    cases p with
    | parenOpen =>
      refine .bind (ho 0 ⟨t.start, rest⟩ hn) fun p hp => ?_
      split
      · next u later hu =>
        refine .bind_ok (next_cons hu) ?_
        dsimp only [id]
        split
        · exact .pure Parsed.view rfl
        · exact .throw _ _
      · next hnil => exact .bind_ok (next_nil hnil) (.throw _ _)
    | minus =>
      refine .bind (ho minusPower ⟨t.start, rest⟩ hn) fun p hp => ?_
      exact .bind_ok (negated_ends p.expr p.stream d) (.pure Parsed.view rfl)
    | _ => exact .throw _ _
  | literal value => exact .pure Parsed.view rfl
  | word name =>
    dsimp only
    split
    · exact .bind (ho notPower ⟨t.start, rest⟩ hn) fun p hp => .pure Parsed.view rfl
    · split
      · exact .throw _ _
      · refine .bind_ok (.look rfl) ?_
        dsimp only [id]
        rw [wordOperand]
        split
        · exact methodCall_ends ho (Nat.le_of_lt hn) hr
        · exact .bind (.read rfl) fun r hr => .pure Parsed.view rfl

theorem operation_ends (op : BinaryOp) (left : Expr) (height : Nat) {s : Stream} (hn : s.rest.length < n) {rounds : Nat}
    (hr : s.rest.length ≤ rounds) :
    Ends Parsed.view (operation program rounds op left height) s d (Filter.operation operand op left height s) := by
  cases op with
  | membership =>
    rw [operation, Filter.operation]
    exact .bind (literalList_ends ho (Nat.le_of_lt hn) hr) fun r hr => .pure Parsed.view rfl
  | logical lop =>
    rw [operation, Filter.operation]
    exact .bind (ho _ s hn) fun p hp => .pure Parsed.view rfl
  | comparison cop =>
    rw [operation, Filter.operation]
    exact .bind (ho _ s hn) fun p hp => .pure Parsed.view rfl
  | arithmetic aop =>
    rw [operation, Filter.operation]
    exact .bind (ho _ s hn) fun p hp => .pure Parsed.view rfl

theorem operators_ends (minPower : Nat) (left : Expr) (height : Nat) {s : Stream} (hn : s.rest.length ≤ n)
    {rounds : Nat} (hr : s.rest.length < rounds) :
    Ends Parsed.view (operators program minPower rounds left height) s d
      (operations operand minPower left height s) := by
  obtain ⟨rounds, rfl⟩ := Nat.exists_eq_succ_of_ne_zero (Nat.ne_zero_of_lt hr)
  rw [operators]
  fun_induction operations operand minPower left height s generalizing rounds with
  | case1 left height s hop =>
    exact .bind_ok (nextOperator_none hop) (.pure Parsed.view rfl)
  | case2 left height s op after hop cause hp =>
    have hlt := nextOperator?_shorter hop
    have hop' := operation_ends ho op left height (Nat.lt_of_lt_of_le hlt hn) (Nat.le_of_lt_succ (Nat.lt_trans hlt hr))
    exact .bind_ok (nextOperator_some hop) (.bind_error (hp ▸ hop'))
  | case3 left height s op after hop p hp hcheck =>
    have hlt := nextOperator?_shorter hop
    have hop' := operation_ends ho op left height (Nat.lt_of_lt_of_le hlt hn) (Nat.le_of_lt_succ (Nat.lt_trans hlt hr))
    refine .bind_ok (nextOperator_some hop) (.bind_ok (hp ▸ hop') ?_)
    dsimp only [Parsed.view]
    rw [if_pos hcheck]
    exact tooDeep_ends _ _
  | case4 left height s op after hop p hp hcheck ih =>
    have hlt := nextOperator?_shorter hop
    have hop' := operation_ends ho op left height (Nat.lt_of_lt_of_le hlt hn) (Nat.le_of_lt_succ (Nat.lt_trans hlt hr))
    have hshorter := Nat.lt_trans (operation_shorter hp) hlt
    have hr' := Nat.lt_of_lt_of_le hshorter (Nat.le_of_lt_succ hr)
    obtain ⟨rounds, rfl⟩ := Nat.exists_eq_succ_of_ne_zero (Nat.ne_zero_of_lt hr')
    refine .bind_ok (nextOperator_some hop) (.bind_ok (hp ▸ hop') ?_)
    dsimp only [Parsed.view]
    rw [if_neg hcheck, operators]
    exact ih (Nat.le_of_lt (Nat.lt_of_lt_of_le hshorter hn)) rounds hr'

end Operands

/-- With more rounds than there are tokens, a program gives what the reader of the levels that are left gives, and
leaves the counter as it was. -/
theorem expression_ends (minPower : Nat) {s : Stream} (d : Nat) {rounds : Nat} (hr : s.rest.length < rounds) :
    Ends Parsed.view (expression rounds minPower) s d ((Filter.expression (Expr.maxHeight - d)).run minPower s) := by
  induction rounds generalizing minPower s d with
  | zero => exact absurd hr (Nat.not_lt_zero _)
  | succ rounds ih =>
  rw [expression]
  refine .descend ?_
  rw [guarded]
  refine .bind_ok .depth ?_
  dsimp only [id]
  by_cases hd : Expr.maxHeight < d + 1
  · rw [if_pos hd, Nat.sub_eq_zero_of_le (Nat.le_of_lt_succ hd)]
    exact tooDeep_ends s (d + 1)
  · obtain ⟨levels, hlevels⟩ : ∃ levels, Expr.maxHeight - d = levels + 1 := ⟨Expr.maxHeight - d - 1, by omega⟩
    have ho : ∀ (power : Nat) (s : Stream), s.rest.length < rounds →
        Ends Parsed.view (expression rounds power) s (d + 1) ((Filter.expression levels).run power s) := by
      intro power s hlt
      obtain rfl : levels = Expr.maxHeight - (d + 1) := by omega
      exact ih power (d + 1) hlt
    rw [if_neg hd, hlevels]
    show Ends _ _ _ _ (do
      let p ← Filter.primary (Filter.expression levels) s
      operations (Filter.expression levels) minPower p.expr p.height p.stream)
    cases hs : s.rest with
    | nil =>
      have hprimary : Filter.primary (Filter.expression levels) s = .error .unexpectedEnd := by
        rw [Filter.primary, hs]
      rw [hprimary]
      exact .bind_error (expectNext_nil hs)
    | cons t rest =>
      have hlt : rest.length < rounds := by
        rw [hs] at hr
        exact Nat.lt_of_succ_lt_succ hr
      have hprimary := primary_ends ho hlt (Nat.le_succ_of_le (Nat.le_of_lt hlt)) hs
      refine .bind_ok (expectNext_cons hs) (.bind hprimary fun p hp => ?_)
      have hshorter := primary_shorter hp
      exact operators_ends ho minPower p.expr p.height (Nat.le_of_lt_succ (Nat.lt_trans hshorter hr))
        (Nat.lt_trans hshorter hr)

end Program

end SqlQuery.Filter
