import Mathlib
import SqlQuery.Proofs.ClosureLiterals
import SqlQuery.Proofs.TokenSpacing

/-!
# Integers at the limits

A filter reads the sign of an integer with its digits, so that every integer of 64 bits is one literal. A closure reads
the digits alone and the sign as an operator on them: the digits have to fit first, and those of the least integer do
not. Integers that do not fit are refused, with no other value in their place (`Filter.parse_signed`,
`Closure.translate_signed`).
-/

namespace SqlQuery

open SqlQuery.Filter (signedDigits signedInt signedInt_natAbs readInt?_signedDigits toList_intText)

/-! ### Integers as they are written -/

/-- The integers of 64 bits. -/
def FitsInt64 (n : Int) : Prop := -2 ^ 63 ≤ n ∧ n < 2 ^ 63

instance (n : Int) : Decidable (FitsInt64 n) := inferInstanceAs (Decidable (_ ∧ _))

theorem FitsInt64.toInt_ofInt {n : Int} (h : FitsInt64 n) : (Int64.ofInt n).toInt = n := by
  rw [FitsInt64] at h
  exact Int64.toInt_ofInt_of_le (by omega) (by omega)

/-- An integer is read exactly or not at all. -/
theorem readInt64?_signedDigits (negative : Bool) (m : Nat) : Decimal.readInt64? (signedDigits negative m) =
    if FitsInt64 (signedInt negative m) then some (Int64.ofInt (signedInt negative m)) else none := by
  rw [Decimal.readInt64?, readInt?_signedDigits, Option.bind_some, Decimal.fitInt64?]
  refine if_congr ?_ rfl rfl
  rw [Int64.toInt_minValue, Int64.toInt_maxValue, Int.le_sub_one_iff, FitsInt64]

/-- The comparison of a member with an integer. -/
def above (n : Int) : Expr := .comparison .gt (.member "a") (some (.literal (.int (Int64.ofInt n))))

theorem negated_literal {m : Nat} (hm : m < 2 ^ 63) :
    (Expr.literal (.int (Int64.ofInt m))).negated = .literal (.int (Int64.ofInt (-m))) := by
  rw [Int64.ofInt_neg, Int64.ofInt_eq_ofNat]
  exact Closure.negated_ofNat hm

/-! ### Filters -/

namespace Filter

theorem scanAll_fitting {negative : Bool} {m : Nat} (h : FitsInt64 (signedInt negative m)) (position : Nat) :
    ∃ stop kind, Cursor.scanAll ⟨position, signedDigits negative m⟩ =
      ⟨[⟨position, stop, .literal (.int (Int64.ofInt (signedInt negative m))) kind .plain⟩], none, []⟩ := by
  obtain ⟨c, cs, htext, hc, hscan⟩ := scanLexeme_signedDigits negative m .nil position
  rw [intLiteral, readInt64?_signedDigits, if_pos h] at hscan
  have htoken := Cursor.scan_eq_token cs [] hc hscan
  rw [List.append_nil, ← htext] at htoken
  rw [scanAll_of_token htoken, scanAll_nil]
  exact ⟨_, _, rfl⟩

theorem scanAll_exceeding {negative : Bool} {m : Nat} (h : ¬FitsInt64 (signedInt negative m)) (position : Nat) :
    ∃ rest, Cursor.scanAll ⟨position, signedDigits negative m⟩ =
      ⟨[], some (.invalidLiteral .long (String.ofList (signedDigits negative m)) position), rest⟩ := by
  obtain ⟨c, cs, htext, hc, hscan⟩ := scanLexeme_signedDigits negative m .nil position
  rw [intLiteral, readInt64?_signedDigits, if_neg h, List.append_nil] at hscan
  obtain ⟨after, hfailed⟩ := scan_of_failure hc hscan
  rw [← htext] at hfailed
  exact ⟨_, scanAll_of_failed hfailed⟩

/-- The text of a comparison with a right side. -/
def comparisonText (right : List Char) : String := "a gt " ++ String.ofList right

/-- The tokens of a comparison are those of its right side after two words. -/
theorem scanText_comparison (right : List Char) : scanText (comparisonText right) =
    ⟨⟨0, 1, .word "a"⟩ :: ⟨2, 4, .word "gt"⟩ :: (Cursor.scanAll ⟨5, right⟩).tokens, (Cursor.scanAll ⟨5, right⟩).failure,
      (Cursor.scanAll ⟨5, right⟩).rest⟩ := by
  have htext : (comparisonText right).toList = 'a' :: ' ' :: 'g' :: 't' :: ' ' :: right := by
    rw [comparisonText, String.toList_append]
    exact congrArg ("a gt ".toList ++ ·) String.toList_ofList
  have hname (name : String) (h : isName name = true) : (Symbol.word name).Readable := h
  have hmember : Cursor.scan ⟨0, 'a' :: ' ' :: 'g' :: 't' :: ' ' :: right⟩ =
      .token ⟨0, 1, .word "a"⟩ ⟨1, ' ' :: 'g' :: 't' :: ' ' :: right⟩ :=
    scan_symbol (s := .word "a") rfl (hname _ (by decide)) (fun _ => .cons (by decide)) 0
  have hoperator : Cursor.scan ⟨2, 'g' :: 't' :: ' ' :: right⟩ = .token ⟨2, 4, .word "gt"⟩ ⟨4, ' ' :: right⟩ :=
    scan_symbol (s := .word "gt") rfl (hname _ (by decide)) (fun _ => .cons (by decide)) 2
  rw [scanText, htext, scanAll_of_token hmember, scanAll_congr (scan_blank 1 _), scanAll_of_token hoperator,
    scanAll_congr (scan_blank 4 right)]

/-- A comparison is read once its right side is. -/
theorem parse_comparison {right rest : List Char} {tokens : List Token} {e : Expr} {height last : Nat}
    (hscan : Cursor.scanAll ⟨5, right⟩ = ⟨tokens, none, rest⟩)
    (hrun : (expression 255).run 41 ⟨2, tokens⟩ = .ok ⟨e, height, ⟨last, []⟩⟩) (hh : height ≤ 100) :
    parse (comparisonText right) = .ok (.comparison .gt (.member "a") (some e)) := by
  have htokens : tokenize (comparisonText right) = .ok (⟨0, 1, .word "a"⟩ :: ⟨2, 4, .word "gt"⟩ :: tokens) := by
    rw [tokenize, scanText_comparison, hscan]
  have hprimary : primary (expression 255) ⟨0, ⟨0, 1, .word "a"⟩ :: ⟨2, 4, .word "gt"⟩ :: tokens⟩ =
      .ok ⟨.member "a", 1, ⟨0, ⟨2, 4, .word "gt"⟩ :: tokens⟩⟩ := by
    cases tokens <;> rfl
  have hoperation : operation (expression 255) (.comparison .gt) (.member "a") 1 ⟨2, tokens⟩ =
      .ok ⟨.comparison .gt (.member "a") (some e), max 1 height + 1, ⟨last, []⟩⟩ := by
    change ((expression 255).run 41 ⟨2, tokens⟩ >>= _) = _
    rw [hrun]
    rfl
  have hmax : Expr.maxHeight = 256 := rfl
  have hlevel : (level (expression 255)).run 0 ⟨0, ⟨0, 1, .word "a"⟩ :: ⟨2, 4, .word "gt"⟩ :: tokens⟩ =
      .ok ⟨.comparison .gt (.member "a") (some e), max 1 height + 1, ⟨last, []⟩⟩ := by
    rw [level_run_of_primary hprimary,
      operations_of_operation rfl (show BinaryOp.comparison .gt ∈ _ by decide) (Nat.zero_le _) hoperation
        (show max 1 height + 1 ≤ _ by omega)]
    exact operations_of_closes .nil
  exact parse_of_run htokens hlevel

theorem parse_comparison_failure {right rest : List Char} {tokens : List Token} {cause : LexError}
    (hscan : Cursor.scanAll ⟨5, right⟩ = ⟨tokens, some cause, rest⟩) :
    parse (comparisonText right) = .error (.lexical cause) := by
  rw [parse, tokenize, scanText_comparison, hscan]

theorem run_literal (depth minPower last start stop : Nat) (value : Value) (kind : LiteralKind) :
    (expression (depth + 1)).run minPower ⟨last, [⟨start, stop, .literal value kind .plain⟩]⟩ =
      .ok ⟨.literal value, 1, ⟨start, []⟩⟩ := by
  change (level (expression depth)).run minPower _ = _
  rw [level_run_of_primary rfl]
  exact operations_of_closes .nil

theorem run_minus_literal (depth minPower last start stop start' stop' : Nat) (value : Value) (kind : LiteralKind) :
    (expression (depth + 2)).run minPower
        ⟨last, [⟨start, stop, .punctuation .minus⟩, ⟨start', stop', .literal value kind .plain⟩]⟩ =
      .ok ⟨(Expr.literal value).negated, 2, ⟨start', []⟩⟩ := by
  have hprimary : primary (expression (depth + 1))
      ⟨last, [⟨start, stop, .punctuation .minus⟩, ⟨start', stop', .literal value kind .plain⟩]⟩ =
        .ok ⟨(Expr.literal value).negated, 2, ⟨start', []⟩⟩ := by
    change ((expression (depth + 1)).run minusPower _ >>= _) = _
    rw [run_literal]
    rfl
  change (level (expression (depth + 1))).run minPower _ = _
  rw [level_run_of_primary hprimary]
  exact operations_of_closes .nil

/-- A filter reads every integer of 64 bits, and refuses the others. -/
theorem parse_signed (negative : Bool) (m : Nat) :
    parse (comparisonText (signedDigits negative m)) =
      if FitsInt64 (signedInt negative m) then .ok (above (signedInt negative m))
      else .error (.lexical (.invalidLiteral .long (String.ofList (signedDigits negative m)) 5)) := by
  split_ifs with h
  · obtain ⟨stop, kind, hscan⟩ := scanAll_fitting h 5
    exact parse_comparison hscan (run_literal ..) (by decide)
  · obtain ⟨rest, hscan⟩ := scanAll_exceeding h 5
    exact parse_comparison_failure hscan

/-- A minus sign apart from the digits is read as an operator on them, to the same effect. -/
theorem parse_spaced {m : Nat} (hm : m < 2 ^ 63) :
    parse (comparisonText ('-' :: ' ' :: Nat.toDigits 10 m)) = .ok (above (-m)) := by
  have hfits : FitsInt64 (signedInt false m) := ⟨by rw [signedInt]; omega, by rw [signedInt]; omega⟩
  obtain ⟨stop, kind, hscan⟩ := scanAll_fitting hfits 7
  have hminus : Cursor.scan ⟨5, ['-'] ++ ' ' :: Nat.toDigits 10 m⟩ =
      .token ⟨5, 6, .punctuation .minus⟩ ⟨6, ' ' :: Nat.toDigits 10 m⟩ :=
    Cursor.scan_eq_token [] _ (by decide) rfl
  have hall : Cursor.scanAll ⟨5, '-' :: ' ' :: Nat.toDigits 10 m⟩ = ⟨[⟨5, 6, .punctuation .minus⟩,
      ⟨7, stop, .literal (.int (Int64.ofInt (signedInt false m))) kind .plain⟩], none, []⟩ := by
    have hdigits : Cursor.scanAll ⟨7, Nat.toDigits 10 m⟩ = _ := hscan
    refine (scanAll_of_token hminus).trans ?_
    rw [scanAll_congr (scan_blank 6 _), hdigits]
  have hparse := parse_comparison hall (run_minus_literal ..) (by decide)
  rw [above, ← negated_literal hm]
  exact hparse

end Filter

/-! ### Closures -/

namespace Closure

/-- The text of a closure that compares with a right side. -/
def comparisonText (right : List Char) : String := "|x| x.a > " ++ String.ofList right

/-- What a comparison is written as before its right side. -/
def comparisonFront : List Symbol := [.header, .word parameterName, .segment "a", .operator (.comparison .gt)]

/-- The tokens of a comparison are those of its right side after the ones in front. -/
theorem scans_comparison {right : List Char} {lexemes : List (TokenKind × List UInt8)}
    (h : Scans (bytes right) lexemes []) :
    Scans (bytes (comparisonText right).toList) (spelled comparisonFront ++ lexemes) [] := by
  have hword : (Symbol.word parameterName).Readable := show isIdentifier parameterName = true by decide
  have hsegment : (Symbol.segment "a").Readable := show isIdentifier "a" = true by decide
  have hgt : (Symbol.operator (.comparison .gt)).Readable := show _ ∈ operators by decide
  have htext : (comparisonText right).toList = Symbol.header.text ++ ((Symbol.word parameterName).text ++
      ((Symbol.segment "a").text ++ ((Symbol.operator (.comparison .gt)).text ++ right))) := by
    rw [comparisonText, String.toList_append]
    exact congrArg ("|x| x.a > ".toList ++ ·) String.toList_ofList
  have hoperator : Scans (bytes (Symbol.operator (.comparison .gt)).text) (spelled [.operator (.comparison .gt)])
      (bytes right ++ []) := by
    rw [bytes_operator]
    exact (scans_blank _).append ((scans_operator hgt _).append (scans_blank _))
  have hmember : Scans (bytes (Symbol.segment "a").text) (spelled [.segment "a"])
      (bytes (Symbol.operator (.comparison .gt)).text ++ bytes right ++ []) := by
    rw [List.append_assoc]
    exact scans_symbol hsegment (fun _ => delimited_symbol hgt rfl _) (head_ne_equal hgt _)
  have hparameter : Scans (bytes (Symbol.word parameterName).text) (spelled [.word parameterName])
      (bytes (Symbol.segment "a").text ++ (bytes (Symbol.operator (.comparison .gt)).text ++ bytes right) ++ []) := by
    rw [List.append_assoc]
    exact scans_symbol hword (fun _ => delimited_symbol hsegment rfl _) (head_ne_equal hsegment _)
  rw [htext, bytes_append, bytes_append, bytes_append, bytes_append]
  exact (scans_header _).append (hparameter.append (hmember.append (hoperator.append h)))

/-- A sign and digits are scanned apart, with or without blanks between them. -/
theorem scans_signedDigits (negative : Bool) {gap : List Char} (hgap : gap.all blanks.contains = true) (m : Nat) :
    Scans (bytes (if negative then '-' :: (gap ++ Nat.toDigits 10 m) else Nat.toDigits 10 m))
      (inBytes (sign negative ++ [(.number, Nat.toDigits 10 m)])) [] := by
  have hend : Delimited [] := ⟨by simp, by simp⟩
  cases negative with
  | false => exact scans_digits m hend
  | true =>
    have hminus (rest : List UInt8) : Scans (bytes ['-']) (inBytes [(.minus, ['-'])]) rest :=
      scans_token (by decide) rfl
    have hdigits := (scans_gap hgap (bytes (Nat.toDigits 10 m) ++ [])).append (scans_digits m hend)
    rw [if_pos rfl, ← List.singleton_append, bytes_append, bytes_append]
    exact (hminus _).append hdigits

/-! ### Reading the right side -/

/-- What a sign and digits are read as: the digits have to fit, whatever the sign is. -/
def signedLiteral (negative : Bool) (m : Nat) : Except ClosureError Expr :=
  if m < 2 ^ 63 then .ok (.literal (.int (Int64.ofInt (signedInt negative m))))
  else .error (.invalidNumber (Decimal.natText m))

theorem number_toDigits {t : Token} {m : Nat} (h : t.lexeme = (.number, bytes (Nat.toDigits 10 m))) :
    number t = signedLiteral false m := by
  have hread : Decimal.readInt64? (Nat.toDigits 10 m) = if m < 2 ^ 63 then some (Int64.ofInt m) else none := by
    refine (readInt64?_signedDigits false m).trans (if_congr ?_ rfl rfl)
    rw [FitsInt64, signedInt, if_neg Bool.false_ne_true]
    omega
  rw [number_of_digits h (Filter.toDigits_all_isDigit m), hread, signedLiteral]
  split_ifs <;> rfl

/-- The sign is applied to digits that fit, and then none is out of range. -/
theorem negated_signedLiteral (m : Nat) : (signedLiteral false m).map Expr.negated = signedLiteral true m := by
  unfold signedLiteral
  split_ifs with hm
  · exact congrArg Except.ok (negated_literal hm)
  · rfl

section Reading

variable {scope : Scope} {operand : OperandParser} {position : Nat}

/-- An operator whose operand fails, fails as that does. -/
theorem operations_of_failure {t : Token} {op : BinaryOp} {minPower : Nat} {left : Sized} {rest : List Token}
    {cause : ClosureError} (ht : t.kind = op.kind) (ho : op ∈ operators) (hm : minPower ≤ op.power)
    (hr : (operand (op.power + 1)).run ⟨t.stop, rest, none⟩ = .error cause) :
    operations operand minPower left ⟨position, t :: rest, none⟩ = .error cause := by
  have hnext : nextOperator minPower ⟨position, t :: rest, none⟩ = .ok (some (op, ⟨t.stop, rest, none⟩)) := by
    simp [nextOperator, ht, ofKind?_kind op ho, hm, Stream.after]
  rw [operations]
  split
  · next cause hc => simp [hnext] at hc
  · next hn => simp [hnext] at hn
  · next op' s₁ hop =>
    obtain ⟨rfl, rfl⟩ : op = op' ∧ (⟨t.stop, rest, none⟩ : Stream) = s₁ := by simpa [hnext] using hop
    split
    · next cause' hc => exact hc.symm.trans hr
    · next right s₂ hr' => simp [hr] at hr'

/-- What is read up to the end is what stands there, and its failure is the operand's. -/
theorem level_run_of_end {s : Stream} {minPower height stop : Nat} {result : Except ClosureError Expr}
    (h : primary scope operand s = result.map fun e => (⟨e, height⟩, ⟨stop, [], none⟩)) :
    (level scope operand minPower).run s = result.map fun e => (⟨e, height⟩, ⟨stop, [], none⟩) := by
  cases result with
  | ok e =>
    rw [level_run_of_primary h]
    exact operations_of_closes .nil
  | error cause =>
    change (primary scope operand s >>= _) = _
    rw [h]
    rfl

theorem run_number {t : Token} (ht : t.kind = .number) (minPower depth : Nat) :
    (expression scope (depth + 1) minPower).run ⟨position, [t], none⟩ =
      (number t).map fun e => (⟨e, 1⟩, ⟨t.stop, [], none⟩) := by
  refine level_run_of_end ?_
  cases hn : number t <;> simp [primary, ht, hn, bind, Except.bind, pure, Except.pure] <;> rfl

/-- The sign is an operator on the number. -/
theorem run_minus {minus t : Token} (hminus : minus.kind = .minus) (ht : t.kind = .number) (minPower depth : Nat) :
    (expression scope (depth + 2) minPower).run ⟨position, [minus, t], none⟩ =
      ((number t).map Expr.negated).map fun e => (⟨e, 2⟩, ⟨t.stop, [], none⟩) := by
  have hprimary : primary scope (expression scope (depth + 1)) ⟨position, [minus, t], none⟩ =
      ((expression scope (depth + 1) signPower).run ⟨minus.stop, [t], none⟩ >>=
        fun r => pure (⟨r.1.expr.negated, r.1.height + 1⟩, r.2)) := by
    simp [primary, hminus, bind, Except.bind]
  refine level_run_of_end ?_
  rw [hprimary, run_number ht]
  cases number t <;> rfl

theorem run_signedDigits (negative : Bool) {front : List Token} {m : Nat}
    (hf : front.map Token.lexeme = inBytes (sign negative ++ [(.number, Nat.toDigits 10 m)])) (minPower depth : Nat) :
    ∃ height ≤ 2, ∃ stop, (expression scope (depth + 2) minPower).run ⟨position, front, none⟩ =
      (signedLiteral negative m).map fun e => (⟨e, height⟩, ⟨stop, [], none⟩) := by
  cases negative with
  | false =>
    obtain ⟨t, rfl, ht⟩ := List.map_eq_singleton_iff.1 hf
    refine ⟨1, by decide, t.stop, ?_⟩
    rw [run_number (kind_of_lexeme ht), number_toDigits ht]
  | true =>
    obtain ⟨minus, inner, rfl, hminus, hinner⟩ := List.map_eq_cons_iff.1 hf
    obtain ⟨t, rfl, ht⟩ := List.map_eq_singleton_iff.1 hinner
    refine ⟨2, by decide, t.stop, ?_⟩
    rw [run_minus (kind_of_lexeme hminus) (kind_of_lexeme ht), number_toDigits ht, negated_signedLiteral]

/-- A comparison of a member is read once its right side is, and fails as that does. -/
theorem run_comparison {path right : List Token} {gt : Token} {height stop : Nat} {result : Except ClosureError Expr}
    (hp : scope.parameter = some parameterName)
    (hpath : path.map Token.lexeme = spelled (.word parameterName :: ["a"].map Symbol.segment))
    (hgt : gt.kind = (BinaryOp.comparison .gt).kind) (hh : height ≤ 2)
    (hright : (expression scope 255 41).run ⟨gt.stop, right, none⟩ =
      result.map fun e => (⟨e, height⟩, ⟨stop, [], none⟩)) :
    (expression scope 256 0).run ⟨position, path ++ gt :: right, none⟩ =
      (result.map fun e => .comparison .gt (.member "a") (some e)).map
        fun e => (⟨e, max 1 height + 1⟩, ⟨stop, [], none⟩) := by
  have hmem : BinaryOp.comparison .gt ∈ operators := by decide
  have hcloses : Closes 41 (gt :: right) := .operator hgt hmem (by decide)
  obtain ⟨position', hprimary⟩ := primary_parameter (expression scope 255) position (gt :: right) hp hpath
    fun t ht => by
      obtain rfl : gt = t := by simpa using ht
      exact ⟨hcloses.not_link.1, hcloses.not_link.2.1⟩
  have hmember : primary scope (expression scope 255) ⟨position, path ++ gt :: right, none⟩ =
      .ok (⟨.member "a", 1⟩, ⟨position', gt :: right, none⟩) := by
    rw [hprimary, ownedPath_member (List.cons_ne_nil _ _) (by decide) (hcloses.startsWith_parenLeft position')]
    exact chain_of_closes hcloses
  have hmax : Expr.maxHeight = 256 := rfl
  refine (level_run_of_primary hmember).trans ?_
  cases result with
  | ok e =>
    rw [operations_of_operator hgt hmem (Nat.zero_le _) hright (show max 1 height + 1 ≤ _ by omega)]
    exact operations_of_closes .nil
  | error cause => exact operations_of_failure hgt hmem (Nat.zero_le _) hright

end Reading

/-- A closure whose body is read up to the end is that body, or fails as it does. -/
theorem translate_of_run {collections : Entries Collection} {text : String} {front rest : List Token} {first : Token}
    {result : Except ClosureError Expr} {height stop : Nat}
    (htokens : Stream.ofText text = ⟨0, front ++ first :: rest, none⟩)
    (hfront : front.map Token.lexeme = spelled [.header]) (hfirst : first.kind ≠ .braceLeft)
    (hrun : ∀ position, (expression ⟨some parameterName, collections⟩ 256 0).run ⟨position, first :: rest, none⟩ =
      result.map fun e => (⟨e, height⟩, ⟨stop, [], none⟩)) :
    Closure.translate ⟨text, collections⟩ = result := by
  obtain ⟨position, hheader⟩ := header_eq (first :: rest) hfront
  have hbrace := Stream.accept_of_ne hfirst position rest
  cases result with
  | ok e =>
    have hread : (expression ⟨some parameterName, collections⟩ Expr.maxHeight 0).run ⟨position, first :: rest, none⟩ =
      .ok (⟨e, height⟩, ⟨stop, [], none⟩) := hrun position
    have hbody : body (expression ⟨some parameterName, collections⟩ Expr.maxHeight) ⟨position, first :: rest, none⟩ =
        .ok (e, ⟨stop, [], none⟩) := by
      simp [body, hbrace, hread, bind, Except.bind, pure, Except.pure]
    simp [translate, parse, htokens, hheader, hbody, Stream.peek, bind, Except.bind, pure, Except.pure]
  | error cause =>
    have hread : (expression ⟨some parameterName, collections⟩ Expr.maxHeight 0).run ⟨position, first :: rest, none⟩ =
      .error cause := hrun position
    have hbody : body (expression ⟨some parameterName, collections⟩ Expr.maxHeight) ⟨position, first :: rest, none⟩ =
        .error cause := by
      simp [body, hbrace, hread, bind, Except.bind]
    simp [translate, parse, htokens, hheader, hbody, bind, Except.bind]

/-- A closure reads an integer if its digits fit without the sign, and refuses the others. -/
theorem translate_signed (collections : Entries Collection) (negative : Bool) {gap : List Char}
    (hgap : gap.all blanks.contains = true) (m : Nat) :
    Closure.translate ⟨comparisonText (if negative then '-' :: (gap ++ Nat.toDigits 10 m) else Nat.toDigits 10 m),
        collections⟩ =
      (signedLiteral negative m).map fun e => .comparison .gt (.member "a") (some e) := by
  obtain ⟨tokens, htokens, hlex⟩ := ofText_of_scans (scans_comparison (scans_signedDigits negative hgap m))
  have hsplit : spelled comparisonFront = spelled [.header] ++
      (spelled (.word parameterName :: ["a"].map Symbol.segment) ++ spelled [.operator (.comparison .gt)]) := rfl
  rw [hsplit, List.append_assoc, List.append_assoc] at hlex
  obtain ⟨front, rest, rfl, hfront, hlex⟩ := List.map_eq_append_iff.1 hlex
  obtain ⟨path, rest, rfl, hpath, hlex⟩ := List.map_eq_append_iff.1 hlex
  obtain ⟨gt, right, rfl, hgt, hright⟩ := List.map_eq_cons_iff.1 hlex
  obtain ⟨first, later, rfl, hfirst, -⟩ := List.map_eq_cons_iff.1 hpath
  have hword : first.kind = .word := kind_of_lexeme hfirst
  obtain ⟨height, hh, stop, hrun⟩ : ∃ height ≤ 2, ∃ stop,
      (expression ⟨some parameterName, collections⟩ 255 41).run ⟨gt.stop, right, none⟩ =
        (signedLiteral negative m).map fun e => (⟨e, height⟩, ⟨stop, [], none⟩) :=
    run_signedDigits negative hright 41 253
  exact translate_of_run htokens hfront (by rw [hword]; decide) fun _ =>
    run_comparison rfl hpath (kind_of_lexeme hgt) hh hrun

end Closure

/-! ### Both readers -/

theorem ofList_signedDigits (n : Int) : String.ofList (signedDigits (n < 0) n.natAbs) = Decimal.intText n := by
  rw [← toList_intText, String.ofList_toList]

/-- A sign goes with the digits after it as with the text in front of it. -/
theorem append_natText (front : String) (sign : List Char) (m : Nat) :
    (front ++ String.ofList sign) ++ Decimal.natText m = front ++ String.ofList (sign ++ Nat.toDigits 10 m) := by
  rw [String.append_assoc, String.ofList_append, Decimal.natText]

theorem Filter.parse_intText (n : Int) : Filter.parse ("a gt " ++ Decimal.intText n) =
    if FitsInt64 n then .ok (above n) else .error (.lexical (.invalidLiteral .long (Decimal.intText n) 5)) := by
  have h := Filter.parse_signed (n < 0) n.natAbs
  rwa [signedInt_natAbs, Filter.comparisonText, ofList_signedDigits] at h

theorem Closure.translate_minus (collections : Entries Collection) {gap : List Char}
    (hgap : gap.all blanks.contains = true) {m : Nat} (hm : m < 2 ^ 63) :
    Closure.translate ⟨comparisonText ('-' :: (gap ++ Nat.toDigits 10 m)), collections⟩ = .ok (above (-m)) := by
  refine (translate_signed collections true hgap m).trans ?_
  rw [signedLiteral, if_pos hm]
  rfl

theorem Closure.translate_intText (collections : Entries Collection) (n : Int) :
    Closure.translate ⟨"|x| x.a > " ++ Decimal.intText n, collections⟩ =
      if FitsInt64 n ∧ n ≠ -2 ^ 63 then .ok (above n) else .error (.invalidNumber (Decimal.natText n.natAbs)) := by
  have hfits : FitsInt64 n ∧ n ≠ -2 ^ 63 ↔ n.natAbs < 2 ^ 63 := by
    rw [FitsInt64]
    omega
  have htext : (if decide (n < 0) = true then '-' :: ([] ++ Nat.toDigits 10 n.natAbs) else Nat.toDigits 10 n.natAbs) =
      signedDigits (n < 0) n.natAbs := by
    cases decide (n < 0) <;> rfl
  have h := translate_signed collections (n < 0) List.all_nil n.natAbs
  rw [htext, signedLiteral, signedInt_natAbs, comparisonText, ofList_signedDigits] at h
  rw [h, if_congr hfits rfl rfl]
  split_ifs <;> rfl

/-- Integers as the right side of a comparison. A filter reads every integer of 64 bits as itself, a closure every one
but the least, and all others are refused: no other integer is ever read. A blank after the minus sign changes nothing
for the digits that fit without it. -/
theorem integer_literals_exact (collections : Entries Collection) :
    (∀ n : Int, (FitsInt64 n → (Int64.ofInt n).toInt = n) ∧
      Filter.parse ("a gt " ++ Decimal.intText n) =
        (if FitsInt64 n then .ok (above n)
          else .error (.lexical (.invalidLiteral .long (Decimal.intText n) 5))) ∧
      Closure.translate ⟨"|x| x.a > " ++ Decimal.intText n, collections⟩ =
        (if FitsInt64 n ∧ n ≠ -2 ^ 63 then .ok (above n)
          else .error (.invalidNumber (Decimal.natText n.natAbs)))) ∧
    ∀ m : Nat, m < 2 ^ 63 →
      Filter.parse ("a gt -" ++ Decimal.natText m) = .ok (above (-m)) ∧
      Filter.parse ("a gt - " ++ Decimal.natText m) = .ok (above (-m)) ∧
      Closure.translate ⟨"|x| x.a > -" ++ Decimal.natText m, collections⟩ = .ok (above (-m)) ∧
      Closure.translate ⟨"|x| x.a > - " ++ Decimal.natText m, collections⟩ = .ok (above (-m)) := by
  refine ⟨fun n => ⟨FitsInt64.toInt_ofInt, Filter.parse_intText n, Closure.translate_intText collections n⟩,
    fun m hm => ⟨?_, ?_, ?_, ?_⟩⟩
  · have hfits : FitsInt64 (signedInt true m) := ⟨by rw [signedInt]; omega, by rw [signedInt]; omega⟩
    have h := Filter.parse_signed true m
    rw [if_pos hfits] at h
    exact (congrArg Filter.parse (append_natText "a gt " ['-'] m)).trans h
  · exact (congrArg Filter.parse (append_natText "a gt " ['-', ' '] m)).trans (Filter.parse_spaced hm)
  · exact (congrArg (Closure.translate ⟨·, collections⟩) (append_natText "|x| x.a > " ['-'] m)).trans
      (Closure.translate_minus collections List.all_nil hm)
  · have hblank : [' '].all Closure.blanks.contains = true := by decide
    exact (congrArg (Closure.translate ⟨·, collections⟩) (append_natText "|x| x.a > " ['-', ' '] m)).trans
      (Closure.translate_minus collections hblank hm)

theorem integer_literals_exact_near_least :
    (Int64.ofInt (-2 ^ 63)).toInt = -2 ^ 63 ∧
    Filter.parse ("a gt " ++ Decimal.intText (-2 ^ 63)) = .ok (above (-2 ^ 63)) ∧
    Closure.translate ⟨"|x| x.a > - " ++ Decimal.natText (2 ^ 63 - 1), []⟩ = .ok (above (-(2 ^ 63 - 1 : Nat))) := by
  have hfits : FitsInt64 (-2 ^ 63) := by decide
  obtain ⟨hexact, hfilter, -⟩ := (integer_literals_exact []).1 (-2 ^ 63)
  obtain ⟨-, -, -, hspaced⟩ := (integer_literals_exact []).2 (2 ^ 63 - 1) (by decide)
  exact ⟨hexact hfits, hfilter.trans (if_pos hfits), hspaced⟩

/-- The least integer is read by a filter, and refused by a closure for its digits. -/
theorem least_integer_refused :
    FitsInt64 (-9223372036854775808) ∧
    Filter.parse "a gt -9223372036854775808" = .ok (above (-9223372036854775808)) ∧
    Closure.translate ⟨"|x| x.a > -9223372036854775808", []⟩ = .error (.invalidNumber "9223372036854775808") := by
  have htext : Decimal.intText (-9223372036854775808) = "-9223372036854775808" := rfl
  have hfilter := Filter.parse_intText (-9223372036854775808)
  have hclosure := Closure.translate_intText [] (-9223372036854775808)
  rw [htext, if_pos (by decide)] at hfilter
  rw [htext, if_neg (by decide)] at hclosure
  exact ⟨by decide, hfilter, hclosure⟩

end SqlQuery
