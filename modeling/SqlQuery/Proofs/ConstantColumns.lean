import Mathlib
import SqlQuery.Proofs.ClosureLiterals
import SqlQuery.Proofs.ClosureTrees
import SqlQuery.Proofs.EntryLookup
import SqlQuery.Proofs.FieldFragments

/-!
# The columns of constants

A closure that gives an object of literals is a select of constants. Its text is read token by token, whatever blanks
stand between them, and its keys are distinct, so that nothing is replaced. Two things do not become constants: the
integer one, which is how an entry says that its key is a field, and everything in an object that starts with the word
`return` (`constant_columns_iff`).
-/

namespace SqlQuery

namespace Closure

/-! ### Objects of literals -/

/-- A member of an object: a word and a literal. -/
structure Member where
  key : String
  literal : Literal
  isWord_key : isWord key = true

namespace Member

def lexemes (m : Member) : List Lexeme := (.word, m.key.toList) :: (.colon, [':']) :: m.literal.lexemes

/-- The constant that a member is meant to be. -/
def constant (m : Member) : Column := .constant m.key m.literal.value

/-- The column that a member is: the integer one makes a field of its key. -/
def column (m : Member) : Column :=
  match m.literal.value with
  | .int n => if n = 1 then .field (Field.ofName m.key) else .constant m.key (.int n)
  | value => .constant m.key value

end Member

/-- The tokens after a member, up to the closing brace. -/
def laterMembers : List Member → List Lexeme
  | [] => [(.braceRight, ['\x7d'])]
  | m :: members => (.comma, [',']) :: (m.lexemes ++ laterMembers members)

/-- The tokens after the opening brace. -/
def objectLexemes : List Member → List Lexeme
  | [] => [(.braceRight, ['\x7d'])]
  | m :: members => m.lexemes ++ laterMembers members

/-- The tokens of a closure without parameter that gives an object. -/
def projection (members : List Member) : List Lexeme :=
  (.orOr, ['|', '|']) :: (.braceLeft, ['\x7b']) :: objectLexemes members

/-! ### Scanning -/

theorem laterMembers_eq (members : List Member) : ∃ next later, laterMembers members = next :: later ∧
    ∀ kind rest, MayFollow kind (bytes next.2 ++ rest) := by
  cases members with
  | nil => exact ⟨_, _, rfl, fun kind rest => mayFollow_cons (b := 0x7D) (by decide) (by decide) (by decide) kind rest⟩
  | cons m members =>
    exact ⟨_, _, rfl, fun kind rest => mayFollow_cons (b := 0x2C) (by decide) (by decide) (by decide) kind rest⟩

theorem whole_colon : Whole (.colon, [':']) := by
  intro rest hr
  have hlexeme : lexeme 0x3A rest = oneOrTwo ':' rest .doubleColon .colon := rfl
  have hscans : Scans [0x3A] [(.colon, [0x3A])] rest := by
    refine scans_token (by decide) ?_
    rw [List.nil_append, hlexeme, oneOrTwo, follows_of_head_ne (c := ':') hr]
    rfl
  exact hscans

theorem tiled_member (m : Member) {next : Lexeme} {later : List Lexeme}
    (hn : ∀ kind rest, MayFollow kind (bytes next.2 ++ rest)) (h : Tiled (next :: later)) :
    Tiled (m.lexemes ++ next :: later) := by
  obtain ⟨first, more, hliteral, hfirst⟩ := m.literal.exists_apart
  have htiled := tiled_literal m.literal hn h
  rw [hliteral] at htiled
  have hkey : Whole (.word, m.key.toList) := fun rest hr => scans_word m.isWord_key hr
  have hbeside : Apart (.word, m.key.toList) (.colon, [':']) := fun rest => .cons (b := 0x3A) (by decide) (by decide) _
  rw [Member.lexemes, hliteral]
  exact .cons hkey hbeside (.cons whole_colon hfirst htiled)

theorem tiled_laterMembers (members : List Member) : Tiled (laterMembers members) := by
  induction members with
  | nil => exact .single fun rest _ => scans_token (by decide) rfl
  | cons m members ih =>
    obtain ⟨next, later, hlater, hnext⟩ := laterMembers_eq members
    rw [laterMembers, hlater]
    rw [hlater] at ih
    exact .cons (fun rest _ => scans_token (by decide) rfl) (fun _ => trivial) (tiled_member m hnext ih)

theorem tiled_projection (members : List Member) : Tiled (projection members) := by
  have horOr : Whole (.orOr, ['|', '|']) := fun rest _ => scans_token (by decide) rfl
  have hbrace : Whole (.braceLeft, ['\x7b']) := fun rest _ => scans_token (by decide) rfl
  cases members with
  | nil => exact .cons horOr (fun _ => trivial) (.cons hbrace (fun _ => trivial) (tiled_laterMembers []))
  | cons m members =>
    obtain ⟨next, later, hlater, hnext⟩ := laterMembers_eq members
    have htiled := tiled_member m hnext (hlater ▸ tiled_laterMembers members)
    rw [projection, objectLexemes, hlater]
    exact .cons horOr (fun _ => trivial) (.cons hbrace (fun _ => trivial) htiled)

/-! ### Reading -/

section Reading

variable (scope : Scope) (depth position : Nat)

/-- A member is read as its key and the value of its literal, up to a token that is no operator. -/
theorem member_run (m : Member) {front rest : List Token} {u : Token} (hf : front.map Token.lexeme = inBytes m.lexemes)
    (hu : BinaryOp.ofKind? u.kind = none) :
    ∃ height position', (member (expression scope (depth + 2))).run ⟨position, front ++ u :: rest, none⟩ =
      .ok ((m.key, ⟨.literal m.literal.value, height⟩), ⟨position', u :: rest, none⟩) := by
  obtain ⟨key, front, rfl, hkey, hf⟩ := List.map_eq_cons_iff.1 hf
  obtain ⟨colon, front, rfl, hcolon, hf⟩ := List.map_eq_cons_iff.1 hf
  have hliteral : ∃ height position', (expression scope (depth + 2) 0).run ⟨colon.stop, front ++ u :: rest, none⟩ =
      .ok (⟨.literal m.literal.value, height⟩, ⟨position', u :: rest, none⟩) := run_literal m.literal hf hu
  obtain ⟨height, position', hrun⟩ := hliteral
  refine ⟨height, position', ?_⟩
  have hkind : key.kind = .word := kind_of_lexeme hkey
  have htext : key.text = m.key := text_of_lexeme hkey
  have hmark : colon.kind = .colon := kind_of_lexeme hcolon
  simp [member, memberName, hkind, htext, Stream.expect_of_kind hmark, hrun, bind, Except.bind, pure, Except.pure]

/-- What is read of a member. -/
def Member.entry (m : Member) : String × Expr := (m.key, .literal m.literal.value)

theorem accept_braceRight (m : Member) {front : List Token} (hf : front.map Token.lexeme = inBytes m.lexemes)
    (later : List Token) : Stream.accept .braceRight ⟨position, front ++ later, none⟩ = .ok none := by
  obtain ⟨key, front, rfl, hkey, -⟩ := List.map_eq_cons_iff.1 hf
  have hkind : key.kind = .word := kind_of_lexeme hkey
  exact Stream.accept_of_ne (by rw [hkind]; decide) position _

theorem items_members (m : Member) (members : List Member) (what : String) {tokens : List Token}
    (hf : tokens.map Token.lexeme = inBytes (m.lexemes ++ laterMembers members)) :
    ∃ read position',
      items (member (expression scope (depth + 2))) .braceRight [.comma] what ⟨position, tokens, none⟩ =
        .ok (read, ⟨position', [], none⟩) ∧
      read.map (fun r => (r.1, r.2.expr)) = (m :: members).map Member.entry := by
  induction members generalizing m tokens position with
  | nil =>
    rw [inBytes, List.map_append] at hf
    obtain ⟨front, later, rfl, hfront, hlater⟩ := List.map_eq_append_iff.1 hf
    obtain ⟨close, rfl, hclose⟩ := List.map_eq_singleton_iff.1 hlater
    have hkind : close.kind = .braceRight := kind_of_lexeme hclose
    obtain ⟨height, position', hrun⟩ := member_run scope depth position m hfront (by rw [hkind]; rfl)
    exact ⟨_, _, items_last (accept_braceRight position m hfront _) hrun hkind, rfl⟩
  | cons m' members ih =>
    -- the token after the member is the comma, and the next member starts behind it
    rw [inBytes, List.map_append] at hf
    obtain ⟨front, later, rfl, hfront, hlater⟩ := List.map_eq_append_iff.1 hf
    obtain ⟨comma, later, rfl, hcomma, hlater⟩ := List.map_eq_cons_iff.1 hlater
    have hkind : comma.kind = .comma := kind_of_lexeme hcomma
    obtain ⟨height, position', hrun⟩ := member_run scope depth position m hfront (by rw [hkind]; rfl)
    obtain ⟨read, position'', hread, hentries⟩ := ih comma.stop m' hlater
    refine ⟨(m.key, ⟨.literal m.literal.value, height⟩) :: read, position'', ?_, ?_⟩
    · exact items_more (accept_braceRight position m hfront _) hrun (by rw [hkind]; decide) (by rw [hkind]; decide)
        hread
    · rw [List.map_cons, hentries]
      rfl

theorem object_members {m : Member} {members : List Member} (hd : ((m :: members).map Member.key).Nodup)
    {tokens : List Token} (hf : tokens.map Token.lexeme = inBytes (objectLexemes (m :: members))) :
    ∃ height position', object (expression scope (depth + 2)) ⟨position, tokens, none⟩ =
      .ok (⟨.object ((m :: members).map Member.entry), height⟩, ⟨position', [], none⟩) := by
  obtain ⟨read, position', hitems, hread⟩ := items_members scope depth position m members "',' or '\x7d'" hf
  have hentries : Entries.ofList (read.map fun r => (r.1, r.2.expr)) = (m :: members).map Member.entry := by
    rw [hread]
    refine Entries.ofList_of_nodup ?_
    rw [Entries.keys, List.map_map]
    exact hd
  refine ⟨tallest (read.map (·.2)) + 1, position', ?_⟩
  simp [object, hitems, hentries, bind, Except.bind, pure, Except.pure]

/-- The tree of an object of literals; without any it is an empty sequence. -/
def tree (members : List Member) : Expr :=
  if members.isEmpty then .sequence [] else .object (members.map Member.entry)

theorem block_members {members : List Member} (hd : (members.map Member.key).Nodup)
    (hr : members.head?.map Member.key ≠ some "return") {tokens : List Token}
    (hf : tokens.map Token.lexeme = inBytes (objectLexemes members)) :
    ∃ position', block (expression scope (depth + 2)) ⟨position, tokens, none⟩ =
      .ok (tree members, ⟨position', [], none⟩) := by
  cases members with
  | nil =>
    -- without a key and a colon the block is no object
    obtain ⟨close, rfl, hclose⟩ := List.map_eq_singleton_iff.1 hf
    have hkind : close.kind = .braceRight := kind_of_lexeme hclose
    have hitems : items (expression scope (depth + 2) 0) .braceRight [.comma, .semicolon] "',' or '\x7d'"
        ⟨position, [close], none⟩ = .ok ([], ⟨close.stop, [], none⟩) := by
      rw [items]
      simp only [Stream.accept_of_kind hkind]
    refine ⟨close.stop, ?_⟩
    simp [block, Stream.peek, hkind, opensObject, hitems, tree, bind, Except.bind, pure, Except.pure]
  | cons m members =>
    obtain ⟨height, position', hobject⟩ := object_members scope depth position hd hf
    obtain ⟨key, rest, rfl, hkey, hf⟩ := List.map_eq_cons_iff.1 hf
    obtain ⟨colon, rest, rfl, hcolon, -⟩ := List.map_eq_cons_iff.1 hf
    have hkind : key.kind = .word := kind_of_lexeme hkey
    have htext : key.text = m.key := text_of_lexeme hkey
    have hmark : colon.kind = .colon := kind_of_lexeme hcolon
    have hne : m.key ≠ "return" := by simpa using hr
    refine ⟨position', ?_⟩
    simp [block, Stream.peek, hkind, htext, hne, hmark, opensObject, hobject, tree, bind, Except.bind, pure,
      Except.pure]

/-- The word `return` is the keyword, and no expression starts with the colon after it. -/
theorem block_return {m : Member} {members : List Member} (hm : m.key = "return") {tokens : List Token}
    (hf : tokens.map Token.lexeme = inBytes (objectLexemes (m :: members))) :
    ∃ position', block (expression scope (depth + 2)) ⟨position, tokens, none⟩ =
      .error (.expected "expression" ":" position') := by
  obtain ⟨key, rest, rfl, hkey, hf⟩ := List.map_eq_cons_iff.1 hf
  obtain ⟨colon, rest, rfl, hcolon, -⟩ := List.map_eq_cons_iff.1 hf
  have hkind : key.kind = .word := kind_of_lexeme hkey
  have htext : key.text = "return" := (text_of_lexeme hkey).trans hm
  have hmark : colon.kind = .colon := kind_of_lexeme hcolon
  have hspelled : colon.text = ":" := text_of_bytes hcolon
  have hrun : (expression scope (depth + 2) 0).run ⟨key.stop, colon :: rest, none⟩ =
      .error (.expected "expression" ":" colon.start) := by
    simp [expression, level, primary, hmark, expected, hspelled, bind, Except.bind]
  refine ⟨colon.start, ?_⟩
  simp [block, Stream.peek, hkind, htext, hrun, bind, Except.bind]

/-- The closure is translated to the tree of its members, or to nothing if the first is called `return`. -/
theorem translate_members (c : Closure) (members : List Member) (hl : Laid (projection members) c.source.toList)
    (hd : (members.map Member.key).Nodup) :
    (members.head?.map Member.key ≠ some "return" → c.translate = .ok (tree members)) ∧
    (members.head?.map Member.key = some "return" →
      ∃ position, c.translate = .error (.expected "expression" ":" position)) := by
  obtain ⟨tokens, htokens, hlex⟩ := ofText_laid hl (tiled_projection members)
  obtain ⟨bars, tokens, rfl, hbars, hlex⟩ := List.map_eq_cons_iff.1 hlex
  obtain ⟨brace, tokens, rfl, hbrace, hlex⟩ := List.map_eq_cons_iff.1 hlex
  have hkind : bars.kind = .orOr := kind_of_lexeme hbars
  have hopen : brace.kind = .braceLeft := kind_of_lexeme hbrace
  have hheader : header (Stream.ofText c.source) = .ok (none, ⟨bars.stop, brace :: tokens, none⟩) := by
    rw [htokens]
    simp [header, hkind, bind, Except.bind, pure, Except.pure]
  have hbody : body (expression ⟨none, c.collections⟩ Expr.maxHeight) ⟨bars.stop, brace :: tokens, none⟩ =
      block (expression ⟨none, c.collections⟩ Expr.maxHeight) ⟨brace.stop, tokens, none⟩ := by
    simp [body, Stream.accept_of_kind hopen, bind, Except.bind]
  constructor
  · intro hr
    -- a literal with its sign takes two of the levels that expressions may have
    obtain ⟨position, hblock⟩ := block_members ⟨none, c.collections⟩ 254 brace.stop hd hr hlex
    have hblock : block (expression ⟨none, c.collections⟩ Expr.maxHeight) ⟨brace.stop, tokens, none⟩ = _ := hblock
    simp [translate, parse, hheader, hbody, hblock, Stream.peek, bind, Except.bind, pure, Except.pure]
  · intro hr
    cases members with
    | nil => cases hr
    | cons m members =>
      obtain ⟨position, hblock⟩ := block_return ⟨none, c.collections⟩ 254 brace.stop (Option.some.inj hr) hlex
      have hblock : block (expression ⟨none, c.collections⟩ Expr.maxHeight) ⟨brace.stop, tokens, none⟩ = _ := hblock
      exact ⟨position, by simp [translate, parse, hheader, hbody, hblock, bind, Except.bind]⟩

end Reading

/-! ### Columns -/

def document (members : List Member) : Document := members.map fun m => (m.key, m.literal.value)

theorem render_tree {members : List Member} (hd : (members.map Member.key).Nodup) :
    (tree members).render = .ok (.object (document members)) := by
  have hrender : ∀ members : List Member, Expr.renderMembers (members.map Member.entry) = .ok (document members) := by
    intro members
    induction members with
    | nil => rfl
    | cons m members ih => simp [Expr.renderMembers, Member.entry, Expr.render, ih, document, bind, Except.bind, pure,
        Except.pure]
  have hentries : Entries.ofList (document members) = document members := by
    refine Entries.ofList_of_nodup ?_
    rw [Entries.keys, document, List.map_map]
    exact hd
  cases members with
  | nil => rfl
  | cons m members =>
    have htree : tree (m :: members) = .object ((m :: members).map Member.entry) := rfl
    rw [htree, Expr.render, hrender]
    dsimp only [bind, Except.bind, pure, Except.pure]
    rw [hentries]

theorem isOperatorKey_of_isWord {name : String} (h : isWord name = true) : isOperatorKey name = false := by
  unfold isWord at h
  split at h
  · next c cs hname =>
    refine decide_eq_false ?_
    rw [hname, List.head?_cons]
    rintro hc
    cases hc
    cases h
  · cases h

theorem Literal.isLiteral_value (lit : Literal) : Filter.isLiteral lit.value = true := by
  cases lit with
  | word name value h => exact isLiteral_of_wordLiteral? h
  | integer negative digits h => cases negative <;> rfl
  | decimal negative whole places => cases negative <;> rfl
  | string q parts => rfl

theorem ofEntry_member (m : Member) : Column.ofEntry m.key m.literal.value = .ok m.column := by
  have hkey := isOperatorKey_of_isWord m.isWord_key
  have hliteral := m.literal.isLiteral_value
  unfold Column.ofEntry Member.column
  rw [hkey]
  cases hv : m.literal.value with
  | int n => rfl
  | array | object | ref =>
    rw [hv] at hliteral
    cases hliteral
  | _ => rfl

theorem ofDocument_document (members : List Member) :
    Column.ofDocument (document members) = .ok (members.map Member.column) := by
  induction members with
  | nil => rfl
  | cons m members ih =>
    have hcons : document (m :: members) = (m.key, m.literal.value) :: document members := rfl
    rw [hcons, Column.ofDocument, ofEntry_member, ih]
    rfl

theorem column_eq_constant_iff (m : Member) : m.column = m.constant ↔ m.literal.value ≠ .int 1 := by
  unfold Member.column Member.constant
  split
  · next n hn =>
    rw [hn]
    split
    · next h => simp [h]
    · next h => simp [h]
  · next h => exact iff_of_true rfl (h 1)

end Closure

open Closure (Member Laid projection)

/-- What becomes of an object of literals with distinct keys, whatever blanks stand between its tokens. All of its
members are constants, in order, just where the first is not called `return` and none is the integer one. The integer
one makes a field of its key, and after `return` an expression is expected. -/
theorem constant_columns_iff (c : Closure) (members : List Member) (hl : Laid (projection members) c.source.toList)
    (hd : (members.map Member.key).Nodup) :
    (Column.ofClosure c = .ok (members.map Member.constant) ↔
      members.head?.map Member.key ≠ some "return" ∧ ∀ m ∈ members, m.literal.value ≠ .int 1) ∧
    (members.head?.map Member.key ≠ some "return" → Column.ofClosure c = .ok (members.map Member.column)) ∧
    (members.head?.map Member.key = some "return" →
      ∃ position, Column.ofClosure c = .error (.closure (.expected "expression" ":" position))) := by
  obtain ⟨htree, hfault⟩ := Closure.translate_members c members hl hd
  have hcolumns : members.head?.map Member.key ≠ some "return" →
      Column.ofClosure c = .ok (members.map Member.column) := by
    intro hr
    rw [Column.ofClosure_of_render (htree hr) (Closure.render_tree hd)]
    exact mapError_eq_ok.2 (Closure.ofDocument_document members)
  have hreturn : members.head?.map Member.key = some "return" →
      ∃ position, Column.ofClosure c = .error (.closure (.expected "expression" ":" position)) := by
    intro hr
    obtain ⟨position, hposition⟩ := hfault hr
    refine ⟨position, ?_⟩
    rw [Column.ofClosure, hposition]
    rfl
  refine ⟨⟨fun h => ?_, fun h => ?_⟩, hcolumns, hreturn⟩
  · have hr : members.head?.map Member.key ≠ some "return" := by
      intro hr
      obtain ⟨position, herror⟩ := hreturn hr
      cases herror.symm.trans h
    refine ⟨hr, fun m hm => (Closure.column_eq_constant_iff m).1 ?_⟩
    have hmaps : members.map Member.column = members.map Member.constant := Except.ok.inj ((hcolumns hr).symm.trans h)
    exact List.map_inj_left.1 hmaps m hm
  · rw [hcolumns h.1]
    refine congrArg Except.ok (List.map_congr_left fun m hm => ?_)
    exact (Closure.column_eq_constant_iff m).2 (h.2 m hm)

/-- Blanks in odd places, a name outside of ASCII, characters after a backslash, and a sign apart from its digits. -/
theorem constant_columns_iff_mixed :
    Column.ofClosure ⟨"||\t\x7bnée: 'Ch\\ai\\n',price : - 1_050,\nrate: 2.50, ProductID: 1 \x7d", []⟩ =
      .ok [.constant "née" (.string "Chai\n"), .constant "price" (.int (-1050)),
        .constant "rate" (.float (Decimal.roundToFloat 250 (-2))), .field (Field.ofName "ProductID")] := by
  have h := constant_columns_iff ⟨"||\t\x7bnée: 'Ch\\ai\\n',price : - 1_050,\nrate: 2.50, ProductID: 1 \x7d", []⟩
    [⟨"née", .string .single [.plain 'C' (by decide), .plain 'h' (by decide), .escaped 'a', .plain 'i' (by decide),
        .escaped 'n'], by decide⟩,
      ⟨"price", .integer true ⟨'1', ['_', '0', '5', '0'], rfl, rfl⟩ (by decide), by decide⟩,
      ⟨"rate", .decimal false ⟨'2', [], rfl, rfl⟩ ⟨'5', ['0'], rfl, rfl⟩, by decide⟩,
      ⟨"ProductID", .integer false ⟨'1', [], rfl, rfl⟩ (by decide), by decide⟩]
    (Eq.mp (congrArg (Laid _) (by decide +kernel)) <|
      .token [] rfl _ <| .token ['\t'] rfl _ <| .token [] rfl _ <| .token [] rfl _ <| .token [' '] rfl _ <|
        .token [] rfl _ <| .token [] rfl _ <| .token [' '] rfl _ <| .token [' '] rfl _ <| .token [' '] rfl _ <|
        .token [] rfl _ <| .token ['\n'] rfl _ <| .token [] rfl _ <| .token [' '] rfl _ <| .token [] rfl _ <|
        .token [' '] rfl _ <| .token [] rfl _ <| .token [' '] rfl _ <| .token [' '] rfl _ <| .blank [] rfl)
    (by decide)
  exact h.2.1 (by decide)

/-- The integer one under a key is the field of that name. -/
theorem one_taken_for_field :
    Column.ofClosure ⟨"|| \x7b ProductID: 1, ProductName: \"Chai\" \x7d", []⟩ =
      .ok [.field (Field.ofName "ProductID"), .constant "ProductName" (.string "Chai")] := by
  have ht : Closure.translate ⟨"|| \x7b ProductID: 1, ProductName: \"Chai\" \x7d", []⟩ =
      .ok (.object [("ProductID", .literal (.int 1)), ("ProductName", .literal (.string "Chai"))]) := by
    with_unfolding_all rfl
  exact Column.ofClosure_of_render ht rfl

end SqlQuery
