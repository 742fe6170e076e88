import SqlQuery.Closure.Grammar
import SqlQuery.Proofs.Descent

/-!
# Closures read with a counter

The grammar of closures as programs of a cursor, which take members, elements and arguments one by one and enter a level
for each operand. With more rounds than there are tokens, each gives what the reader with the levels that are left gives
(`Program.expression_ends`). The lists differ in what an item is and in what they gather (`gather_ends`).
-/

namespace SqlQuery.Closure

open Descent (Ends descend depth lift look read stop)

namespace Program

/-- Reads a token. -/
def next : Descent ClosureError Stream Token := read Stream.next

/-- Reads a token of some kind. -/
def expect (kind : TokenKind) (what : String) : Descent ClosureError Stream Token := read (Stream.expect kind what)

/-- Reads a token if it is of some kind. -/
def accept (kind : TokenKind) : Descent ClosureError Stream Bool := read fun s => do
  let after? ← s.accept kind
  return (after?.isSome, after?.getD s)

/-- Whether the next token is of some kind. -/
def startsWith (kind : TokenKind) : Descent ClosureError Stream Bool := look (Stream.startsWith kind)

/-- Reads an operator that binds at least so strongly. -/
def nextOperator (minPower : Nat) : Descent ClosureError Stream (Option BinaryOp) := read fun s => do
  let next? ← Closure.nextOperator minPower s
  return (next?.map Prod.fst, (next?.map Prod.snd).getD s)

/-- The tree or the nesting is too deep, behind the last token read. -/
def tooDeep : Descent ClosureError Stream Sized := do
  let position ← look fun s => .ok s.position
  throw (.nestingTooDeep position)

/-- Gathers the items of a list up to the token that closes it. -/
def gather {α γ : Type} (item : Descent ClosureError Stream α) (close : TokenKind) (separators : List TokenKind)
    (what : String) (step : γ → α → γ) : Nat → γ → Descent ClosureError Stream γ
  | 0, _ => stop
  | rounds + 1, acc => do
    let closed ← accept close
    if closed then return acc
    else
      let a ← item
      let t ← next
      if t.kind = close then return step acc a
      else if t.kind ∈ separators then gather item close separators what step rounds (step acc a)
      else throw (expected what t)

section Operands

variable (operand : Nat → Descent ClosureError Stream Sized)

/-- A member of an object: its name and its value. -/
def member : Descent ClosureError Stream (String × Sized) := do
  let key ← next
  let name ← lift (memberName key)
  let _ ← expect .colon "':'"
  let o ← operand 0
  return (name, o)

/-- An object, of which the brace has been read. A later member takes the place of one of the same name. -/
def object (rounds : Nat) : Descent ClosureError Stream Sized := do
  let (entries, height) ← gather (member operand) .braceRight [.comma] "',' or '\x7d'"
    (fun acc m => (Entries.insert m.1 m.2.expr acc.1, max acc.2 m.2.height)) rounds ([], 0)
  return ⟨.object entries, height + 1⟩

/-- A literal, which is all that an array can hold. -/
def element : Descent ClosureError Stream (Value × Nat) := do
  let o ← operand 0
  match o.expr with
  | .literal value => return (value, o.height)
  | e => throw (.unsupported ("array element " ++ e.kind))

/-- An array, of which the bracket has been read. -/
def array (rounds : Nat) : Descent ClosureError Stream Sized := do
  let (values, height) ← gather (element operand) .bracketRight [.comma] "',' or ']'"
    (fun acc e => (acc.1 ++ [e.1], max acc.2 e.2)) rounds ([], 0)
  return ⟨.literal (.array values), height + 1⟩

/-- The arguments of a call, in parentheses, with the greatest of their heights. -/
def arguments (rounds : Nat) : Descent ClosureError Stream (List Expr × Nat) := do
  let _ ← expect .parenLeft "'('"
  gather (operand 0) .parenRight [.comma] "',' or ')'" (fun acc o => (acc.1 ++ [o.expr], max acc.2 o.height)) rounds
    ([], 0)

/-- A path on the parameter or on a collection, of which the part after that name is given. -/
def ownedPath (rounds : Nat) (owner path : List String) (whole : String) : Descent ClosureError Stream Sized := do
  let called ← startsWith .parenLeft
  match path.getLast? with
  | none => throw (.unsupported whole)
  | some last =>
    if called then
      if path.dropLast.isEmpty then throw (.unsupported whole)
      else
        let (args, height) ← arguments operand rounds
        let e ← lift (receiverCall last (.member (Text.joinWith "." (owner ++ path.dropLast))) args)
        return ⟨e, max height 1 + 1⟩
    else if last = "length" ∧ !path.dropLast.isEmpty then
      return ⟨lengthOf (.member (Text.joinWith "." (owner ++ path.dropLast))), 2⟩
    else return ⟨.member (Text.joinWith "." (owner ++ path)), 1⟩

/-- The call of a function by its path. -/
def freePath (rounds : Nat) (path : List String) : Descent ClosureError Stream Sized := do
  let called ← startsWith .parenLeft
  if called then
    let (args, height) ← arguments operand rounds
    let m ← lift (functionMethod path)
    return ⟨.call m.name args, height + 1⟩
  else throw (.unknownName (Text.joinWith "." path))

/-- What a path stands for, by the name that it starts with. -/
def pathOperand (scope : Scope) (rounds : Nat) (first : String) (segments : List String) :
    Descent ClosureError Stream Sized :=
  match scope.owner? first with
  | some owner => ownedPath operand rounds owner segments (Text.joinWith "." (first :: segments))
  | none => freePath operand rounds (first :: segments)

/-- A method or the length of an operand, after the dot. -/
def link (rounds : Nat) (receiver : Sized) : Descent ClosureError Stream Sized := do
  let word ← expect .word "method name"
  let called ← startsWith .parenLeft
  if called then
    let (args, height) ← arguments operand rounds
    let e ← lift (receiverCall word.text receiver.expr args)
    return ⟨e, max receiver.height height + 1⟩
  else if word.text = "length" then return ⟨lengthOf receiver.expr, receiver.height + 1⟩
  else throw (.unsupported ("property '" ++ word.text ++ "' of a " ++ receiver.expr.kind))

/-- The methods called one after the other on an operand. -/
def chain : Nat → Sized → Descent ClosureError Stream Sized
  | 0, _ => stop
  | rounds + 1, receiver => do
    let dotted ← accept .dot
    if dotted then
      let o ← link operand rounds receiver
      if Expr.maxHeight < o.height then tooDeep else chain rounds o
    else return receiver

/-- An operand without the operators that follow it. -/
def primary (scope : Scope) (rounds : Nat) : Descent ClosureError Stream Sized := do
  let t ← next
  match t.kind with
  | .number =>
    let e ← lift (number t)
    return ⟨e, 1⟩
  | .doubleQuoted => return ⟨.literal (.string t.value), 1⟩
  | .singleQuoted => return ⟨.literal (.string t.value), 1⟩
  | .parenLeft =>
    let o ← operand 0
    let _ ← expect .parenRight "')'"
    return o
  | .braceLeft => object operand rounds
  | .bracketLeft => array operand rounds
  | .minus =>
    let o ← operand signPower
    return ⟨o.expr.negated, o.height + 1⟩
  | .bang =>
    let o ← operand signPower
    return ⟨.logical .not [o.expr], o.height + 1⟩
  | .word =>
    match wordLiteral? t.text with
    | some value => return ⟨.literal value, 1⟩
    | none =>
      let segments ← read pathSegments
      let o ← pathOperand operand scope rounds t.text segments
      chain operand rounds o
  | _ => throw (expected "expression" t)

/-- Applies the operators that follow a left operand, as long as they bind strongly enough. -/
def operators (minPower : Nat) : Nat → Sized → Descent ClosureError Stream Sized
  | 0, _ => stop
  | rounds + 1, left => do
    match ← nextOperator minPower with
    | none => return left
    | some op =>
      let right ← operand (op.power + 1)
      if Expr.maxHeight < (op.apply left right).height then tooDeep
      else operators minPower rounds (op.apply left right)

/-- An operand and the operators that bind at least so strongly, if the level is not too deep. -/
def guarded (scope : Scope) (rounds minPower : Nat) : Descent ClosureError Stream Sized := do
  let d ← depth
  if Expr.maxHeight < d then tooDeep
  else
    let left ← primary operand scope rounds
    operators operand minPower rounds left

end Operands

/-- An operand and the operators that bind at least so strongly, one level down. -/
def expression (scope : Scope) : Nat → Nat → Descent ClosureError Stream Sized
  | 0, _ => stop
  | rounds + 1, minPower => descend (guarded (expression scope rounds) scope (rounds + 1) minPower)

/-! ### What the programs give -/

section Tokens

variable {s after : Stream} {kind : TokenKind} {d : Nat}

theorem tooDeep_ends (s : Stream) (d : Nat) : Ends id tooDeep s d (.error (.nestingTooDeep s.position)) :=
  .bind_ok (.look rfl) (.throw _ _)

theorem accept_some (h : s.accept kind = .ok (some after)) : Ends id (accept kind) s d (.ok (true, after)) :=
  .read (by rw [h]; rfl)

theorem accept_none (h : s.accept kind = .ok none) : Ends id (accept kind) s d (.ok (false, s)) :=
  .read (by rw [h]; rfl)

theorem accept_error {cause : ClosureError} (h : s.accept kind = .error cause) :
    Ends id (accept kind) s d (.error cause) :=
  .read (by rw [h]; rfl)

theorem startsWith_ends (s : Stream) (kind : TokenKind) (d : Nat) :
    Ends (·, s) (startsWith kind) s d (s.startsWith kind) := .look rfl

theorem nextOperator_some {minPower : Nat} {op : BinaryOp}
    (h : Closure.nextOperator minPower s = .ok (some (op, after))) :
    Ends id (nextOperator minPower) s d (.ok (some op, after)) :=
  .read (by rw [h]; rfl)

theorem nextOperator_none {minPower : Nat} (h : Closure.nextOperator minPower s = .ok none) :
    Ends id (nextOperator minPower) s d (.ok (none, s)) :=
  .read (by rw [h]; rfl)

theorem nextOperator_error {minPower : Nat} {cause : ClosureError}
    (h : Closure.nextOperator minPower s = .error cause) : Ends id (nextOperator minPower) s d (.error cause) :=
  .read (by rw [h]; rfl)

end Tokens

section Items

variable {α γ : Type} {item : Reader α} {program : Descent ClosureError Stream α} {close : TokenKind}
  {separators : List TokenKind} {what : String} {d n : Nat}

/-- A program that gathers items one by one gives what is gathered from the list of them. -/
theorem gather_ends (step : γ → α → γ) (hitem : ∀ s, s.rest.length < n → Ends id program s d (item.run s)) {s : Stream}
    (hn : s.rest.length < n) {rounds : Nat} (hr : s.rest.length < rounds) (acc : γ) :
    Ends (fun r : List α × Stream => (r.1.foldl step acc, r.2)) (gather program close separators what step rounds acc)
      s d (items item close separators what s) := by
  obtain ⟨rounds, rfl⟩ := Nat.exists_eq_succ_of_ne_zero (Nat.ne_zero_of_lt hr)
  rw [gather]
  fun_induction items item close separators what s generalizing rounds acc with
  | case1 s cause h => exact .bind_error (accept_error h)
  | case2 s after h => exact .bind_ok (accept_some h) (.pure _ rfl)
  | case3 s h cause ha => exact .bind_ok (accept_none h) (.bind_error (ha ▸ hitem s hn))
  | case4 s h a s₁ ha cause ht =>
    exact .bind_ok (accept_none h) (.bind_ok (ha ▸ hitem s hn) (.bind_error (.read ht)))
  | case5 s h a s₁ ha t s₂ ht hclose =>
    refine .bind_ok (accept_none h) (.bind_ok (ha ▸ hitem s hn) (.bind_ok (.read ht) ?_))
    dsimp only [id]
    rw [if_pos hclose]
    exact .pure _ rfl
  | case6 s h a s₁ ha t s₂ ht hclose hsep cause hmore ih =>
    have hlt := Nat.lt_trans (Stream.next_shorter ht) (item.shorter ha)
    have hr' := Nat.lt_of_lt_of_le hlt (Nat.le_of_lt_succ hr)
    obtain ⟨rounds, rfl⟩ := Nat.exists_eq_succ_of_ne_zero (Nat.ne_zero_of_lt hr')
    refine .bind_ok (accept_none h) (.bind_ok (ha ▸ hitem s hn) (.bind_ok (.read ht) ?_))
    dsimp only [id]
    rw [if_neg hclose, if_pos hsep, gather]
    exact (hmore ▸ ih (Nat.lt_trans hlt hn) (step acc a) rounds hr').view_error
  | case7 s h a s₁ ha t s₂ ht hclose hsep more rest hmore ih =>
    have hlt := Nat.lt_trans (Stream.next_shorter ht) (item.shorter ha)
    have hr' := Nat.lt_of_lt_of_le hlt (Nat.le_of_lt_succ hr)
    obtain ⟨rounds, rfl⟩ := Nat.exists_eq_succ_of_ne_zero (Nat.ne_zero_of_lt hr')
    refine .bind_ok (accept_none h) (.bind_ok (ha ▸ hitem s hn) (.bind_ok (.read ht) ?_))
    dsimp only [id]
    rw [if_neg hclose, if_pos hsep, gather]
    exact (hmore ▸ ih (Nat.lt_trans hlt hn) (step acc a) rounds hr').view_ok rfl
  | case8 s h a s₁ ha t s₂ ht hclose hsep =>
    refine .bind_ok (accept_none h) (.bind_ok (ha ▸ hitem s hn) (.bind_ok (.read ht) ?_))
    dsimp only [id]
    rw [if_neg hclose, if_neg hsep]
    exact .throw _ _

end Items

/-- What is gathered from a list along with the greatest of its heights. -/
theorem foldl_gather {α β : Type} (f : β → α → β) (g : α → Nat) (as : List α) (b : β) (n : Nat) :
    as.foldl (fun acc a => (f acc.1 a, max acc.2 (g a))) (b, n) =
      (as.foldl f b, max n (as.foldr (fun a h => max (g a) h) 0)) := by
  induction as generalizing b n with
  | nil => simp
  | cons a as ih => rw [List.foldl_cons, List.foldl_cons, List.foldr_cons, ih, Nat.max_assoc]

theorem foldl_concat {α β : Type} (f : α → β) (as : List α) (bs : List β) :
    as.foldl (fun acc a => acc ++ [f a]) bs = bs ++ as.map f := by
  induction as generalizing bs with
  | nil => simp
  | cons a as ih => rw [List.foldl_cons, ih, List.append_assoc, List.map_cons, List.singleton_append]

section Operands

variable {operand : OperandParser} {program : Nat → Descent ClosureError Stream Sized} {d n : Nat}
  (ho : ∀ (power : Nat) (s : Stream), s.rest.length < n → Ends id (program power) s d ((operand power).run s))
include ho

theorem member_ends {s : Stream} (hn : s.rest.length < n) :
    Ends id (member program) s d ((Closure.member operand).run s) := by
  rw [member]
  refine .bind (.read rfl) fun k hk => .bind (.lift _) fun name hname => .bind (.read rfl) fun colon hcolon => ?_
  have hlt : colon.2.rest.length < n :=
    Nat.lt_trans (Nat.lt_trans (Stream.expect_shorter hcolon) (Stream.next_shorter hk)) hn
  exact .bind (ho 0 colon.2 hlt) fun o _ => .pure id rfl

theorem object_ends {s : Stream} (hn : s.rest.length < n) {rounds : Nat} (hr : s.rest.length < rounds) :
    Ends id (object program rounds) s d (Closure.object operand s) := by
  rw [object, Closure.object]
  refine .bind (gather_ends _ (fun s hs => member_ends ho hs) hn hr ([], 0)) fun r _ => ?_
  have hgather := foldl_gather (fun entries m => Entries.insert m.1 m.2.expr entries) (fun m => m.2.height) r.1 [] 0
  dsimp only
  rw [hgather, tallest, List.foldr_map, Nat.zero_max, Entries.ofList, Entries.insertAll, List.foldl_map]
  exact .pure id rfl

theorem element_ends {s : Stream} (hn : s.rest.length < n) :
    Ends id (element program) s d ((Closure.element operand).run s) := by
  rw [element]
  refine .bind (ho 0 s hn) fun r _ => ?_
  dsimp only [id]
  cases r.1.expr with
  | literal value => exact .pure id rfl
  | _ => exact .throw _ _

theorem array_ends {s : Stream} (hn : s.rest.length < n) {rounds : Nat} (hr : s.rest.length < rounds) :
    Ends id (array program rounds) s d (Closure.array operand s) := by
  rw [array, Closure.array]
  refine .bind (gather_ends _ (fun s hs => element_ends ho hs) hn hr ([], 0)) fun r _ => ?_
  have hgather := foldl_gather (fun values e => values ++ [e.1]) Prod.snd r.1 [] 0
  dsimp only
  rw [hgather, foldl_concat, Nat.zero_max]
  exact .pure id rfl

theorem arguments_ends {s : Stream} (hn : s.rest.length ≤ n) {rounds : Nat} (hr : s.rest.length ≤ rounds) :
    Ends (fun r : List Sized × Stream => ((r.1.map Sized.expr, tallest r.1), r.2)) (arguments program rounds) s d
      (Closure.arguments operand s) := by
  have hgather : ∀ as : List Sized, as.foldl (fun acc o => (acc.1 ++ [o.expr], max acc.2 o.height)) ([], 0) =
      (as.map Sized.expr, tallest as) := by
    intro as
    rw [foldl_gather (fun args o => args ++ [Sized.expr o]) Sized.height, foldl_concat, Nat.zero_max]
    rfl
  rw [arguments]
  refine .bind (.read rfl) fun r hp => ?_
  have hlt := Stream.expect_shorter hp
  simp only [← hgather]
  exact gather_ends _ (fun s hs => ho 0 s hs) (Nat.lt_of_lt_of_le hlt hn) (Nat.lt_of_lt_of_le hlt hr) ([], 0)

theorem ownedPath_ends (owner path : List String) (whole : String) {s : Stream} (hn : s.rest.length ≤ n) {rounds : Nat}
    (hr : s.rest.length ≤ rounds) :
    Ends id (ownedPath program rounds owner path whole) s d (Closure.ownedPath operand owner path whole s) := by
  rw [ownedPath, Closure.ownedPath]
  refine .bind (startsWith_ends s _ d) fun called _ => ?_
  dsimp only
  cases path.getLast? with
  | none => exact .throw _ _
  | some last =>
    dsimp only
    split
    · split
      · exact .throw _ _
      · exact .bind (arguments_ends ho hn hr) fun r _ => .bind (.lift _) fun e _ => .pure id rfl
    · split <;> exact .pure id rfl

theorem freePath_ends (path : List String) {s : Stream} (hn : s.rest.length ≤ n) {rounds : Nat}
    (hr : s.rest.length ≤ rounds) :
    Ends id (freePath program rounds path) s d (Closure.freePath operand path s) := by
  rw [freePath, Closure.freePath]
  refine .bind (startsWith_ends s _ d) fun called _ => ?_
  dsimp only
  split
  · exact .bind (arguments_ends ho hn hr) fun r _ => .bind (.lift _) fun m _ => .pure id rfl
  · exact .throw _ _

theorem pathOperand_ends (scope : Scope) (first : String) (segments : List String) {s : Stream} (hn : s.rest.length ≤ n)
    {rounds : Nat} (hr : s.rest.length ≤ rounds) :
    Ends id (pathOperand program scope rounds first segments) s d
      (Closure.pathOperand scope operand first segments s) := by
  rw [pathOperand, Closure.pathOperand]
  cases scope.owner? first with
  | some owner => exact ownedPath_ends ho _ _ _ hn hr
  | none => exact freePath_ends ho _ hn hr

theorem link_ends (receiver : Sized) {s : Stream} (hn : s.rest.length ≤ n) {rounds : Nat}
    (hr : s.rest.length ≤ rounds) :
    Ends id (link program rounds receiver) s d (Closure.link operand receiver s) := by
  rw [link, Closure.link]
  refine .bind (.read rfl) fun r hp => .bind (startsWith_ends r.2 _ d) fun called _ => ?_
  have hle := Nat.le_of_lt (Stream.expect_shorter hp)
  dsimp only [id]
  split
  · refine .bind (arguments_ends ho (Nat.le_trans hle hn) (Nat.le_trans hle hr)) fun a _ => ?_
    exact .bind (.lift _) fun e _ => .pure id rfl
  · split
    · exact .pure id rfl
    · exact .throw _ _

theorem chain_ends (receiver : Sized) {s : Stream} (hn : s.rest.length ≤ n) {rounds : Nat}
    (hr : s.rest.length < rounds) :
    Ends id (chain program rounds receiver) s d (Closure.chain operand receiver s) := by
  obtain ⟨rounds, rfl⟩ := Nat.exists_eq_succ_of_ne_zero (Nat.ne_zero_of_lt hr)
  rw [chain]
  fun_induction Closure.chain operand receiver s generalizing rounds with
  | case1 receiver s cause hd => exact .bind_error (accept_error hd)
  | case2 receiver s hd => exact .bind_ok (accept_none hd) (.pure id rfl)
  | case3 receiver s s₁ hd cause hl =>
    have hle := Nat.le_of_lt (Stream.accept_shorter hd)
    have hlink := link_ends ho receiver (Nat.le_trans hle hn) (Nat.le_trans hle (Nat.le_of_lt_succ hr))
    exact .bind_ok (accept_some hd) (.bind_error (hl ▸ hlink))
  | case4 receiver s s₁ hd o s₂ hl hcheck =>
    have hle := Nat.le_of_lt (Stream.accept_shorter hd)
    have hlink := link_ends ho receiver (Nat.le_trans hle hn) (Nat.le_trans hle (Nat.le_of_lt_succ hr))
    refine .bind_ok (accept_some hd) (.bind_ok (hl ▸ hlink) ?_)
    dsimp only [id]
    rw [if_pos hcheck]
    exact tooDeep_ends _ _
  | case5 receiver s s₁ hd o s₂ hl hcheck ih =>
    have hle := Nat.le_of_lt (Stream.accept_shorter hd)
    have hlink := link_ends ho receiver (Nat.le_trans hle hn) (Nat.le_trans hle (Nat.le_of_lt_succ hr))
    have hlt := Nat.lt_of_lt_of_le (link_shorter hl) hle
    have hr' := Nat.lt_of_lt_of_le hlt (Nat.le_of_lt_succ hr)
    obtain ⟨rounds, rfl⟩ := Nat.exists_eq_succ_of_ne_zero (Nat.ne_zero_of_lt hr')
    refine .bind_ok (accept_some hd) (.bind_ok (hl ▸ hlink) ?_)
    dsimp only [id]
    rw [if_neg hcheck, chain]
    exact ih (Nat.le_of_lt (Nat.lt_of_lt_of_le hlt hn)) rounds hr'

theorem primary_ends (scope : Scope) {s : Stream} (hn : s.rest.length ≤ n) {rounds : Nat}
    (hr : s.rest.length ≤ rounds) :
    Ends id (primary program scope rounds) s d (Closure.primary scope operand s) := by
  rw [primary, Closure.primary]
  refine .bind (.read rfl) fun r hp => ?_
  have hlt : r.2.rest.length < n := Nat.lt_of_lt_of_le (Stream.next_shorter hp) hn
  have hlt' : r.2.rest.length < rounds := Nat.lt_of_lt_of_le (Stream.next_shorter hp) hr
  dsimp only [id]
  cases r.1.kind with
  | number => exact .bind (.lift _) fun e _ => .pure id rfl
  | doubleQuoted | singleQuoted => exact .pure id rfl
  | parenLeft => exact .bind (ho 0 r.2 hlt) fun o _ => .bind (.read rfl) fun t _ => .pure id rfl
  | braceLeft => exact object_ends ho hlt hlt'
  | bracketLeft => exact array_ends ho hlt hlt'
  | minus | bang => exact .bind (ho signPower r.2 hlt) fun o _ => .pure id rfl
  | word =>
    dsimp only
    cases wordLiteral? r.1.text with
    | some value => exact .pure id rfl
    | none =>
      refine .bind (.read rfl) fun p hsegments => ?_
      have hle := pathSegments_length_le hsegments
      refine .bind (pathOperand_ends ho scope _ _ (Nat.le_of_lt (Nat.lt_of_le_of_lt hle hlt))
        (Nat.le_of_lt (Nat.lt_of_le_of_lt hle hlt'))) fun o hop => ?_
      have hle := Nat.le_trans (pathOperand_length_le hop) hle
      exact chain_ends ho o.1 (Nat.le_of_lt (Nat.lt_of_le_of_lt hle hlt)) (Nat.lt_of_le_of_lt hle hlt')
  | _ => exact .throw _ _

theorem operators_ends (minPower : Nat) (left : Sized) {s : Stream} (hn : s.rest.length ≤ n) {rounds : Nat}
    (hr : s.rest.length < rounds) :
    Ends id (operators program minPower rounds left) s d (operations operand minPower left s) := by
  obtain ⟨rounds, rfl⟩ := Nat.exists_eq_succ_of_ne_zero (Nat.ne_zero_of_lt hr)
  rw [operators]
  fun_induction operations operand minPower left s generalizing rounds with
  | case1 left s cause hop => exact .bind_error (nextOperator_error hop)
  | case2 left s hop => exact .bind_ok (nextOperator_none hop) (.pure id rfl)
  | case3 left s op s₁ hop cause hp =>
    have hlt := Nat.lt_of_lt_of_le (nextOperator_shorter hop) hn
    exact .bind_ok (nextOperator_some hop) (.bind_error (hp ▸ ho (op.power + 1) s₁ hlt))
  | case4 left s op s₁ hop right s₂ hp o hcheck =>
    have hlt := Nat.lt_of_lt_of_le (nextOperator_shorter hop) hn
    refine .bind_ok (nextOperator_some hop) (.bind_ok (hp ▸ ho (op.power + 1) s₁ hlt) ?_)
    dsimp only [id]
    rw [if_pos hcheck]
    exact tooDeep_ends _ _
  | case5 left s op s₁ hop right s₂ hp o hcheck ih =>
    have hlt := Nat.lt_of_lt_of_le (nextOperator_shorter hop) hn
    have hshorter := Nat.lt_trans ((operand _).shorter hp) (nextOperator_shorter hop)
    have hr' := Nat.lt_of_lt_of_le hshorter (Nat.le_of_lt_succ hr)
    obtain ⟨rounds, rfl⟩ := Nat.exists_eq_succ_of_ne_zero (Nat.ne_zero_of_lt hr')
    refine .bind_ok (nextOperator_some hop) (.bind_ok (hp ▸ ho (op.power + 1) s₁ hlt) ?_)
    dsimp only [id]
    rw [if_neg hcheck, operators]
    exact ih (Nat.le_of_lt (Nat.lt_of_lt_of_le hshorter hn)) rounds hr'

end Operands

/-- With more rounds than there are tokens, a program gives what the reader of the levels that are left gives, and
leaves the counter as it was. -/
theorem expression_ends (scope : Scope) (minPower : Nat) {s : Stream} (d : Nat) {rounds : Nat}
    (hr : s.rest.length < rounds) :
    Ends id (expression scope rounds minPower) s d
      ((Closure.expression scope (Expr.maxHeight - d) minPower).run s) := by
  induction rounds generalizing minPower s d with
  | zero => exact absurd hr (Nat.not_lt_zero _)
  | succ rounds ih =>
  rw [expression]
  refine .descend ?_
  rw [guarded]
  refine .bind_ok .depth ?_
  dsimp only [id]
  by_cases hd : Expr.maxHeight < d + 1
  · rw [if_pos hd, Nat.sub_eq_zero_of_le (Nat.le_of_lt_succ hd)]
    exact tooDeep_ends s (d + 1)
  · obtain ⟨levels, hlevels⟩ : ∃ levels, Expr.maxHeight - d = levels + 1 := ⟨Expr.maxHeight - d - 1, by omega⟩
    have ho : ∀ (power : Nat) (s : Stream), s.rest.length < rounds →
        Ends id (expression scope rounds power) s (d + 1) ((Closure.expression scope levels power).run s) := by
      intro power s hlt
      obtain rfl : levels = Expr.maxHeight - (d + 1) := by omega
      exact ih power (d + 1) hlt
    rw [if_neg hd, hlevels]
    refine .bind (primary_ends ho scope (Nat.le_of_lt_succ hr) (Nat.le_of_lt hr)) fun o hop => ?_
    have hlt := Nat.lt_trans (primary_shorter hop) hr
    exact operators_ends ho minPower o.1 (Nat.le_of_lt_succ hlt) hlt

end Program

end SqlQuery.Closure
