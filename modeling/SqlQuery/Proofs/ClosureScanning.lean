import SqlQuery.Proofs.ClosureLexemes
import SqlQuery.Proofs.ClosurePrinter

/-!
# Printed closures are scanned into their tokens

Each symbol scans, if what follows a word or a number is no part of it (`scans_symbol`); in printed closures a delimiter
stands there (`Scannable`).
-/

namespace SqlQuery.Closure

/-- The tokens of symbols, with their bytes. -/
def spelled (symbols : List Symbol) : List (TokenKind × List UInt8) := (lexemes symbols).map fun l => (l.1, bytes l.2)

@[simp] theorem spelled_nil : spelled [] = [] := rfl

@[simp] theorem spelled_append (xs ys : List Symbol) : spelled (xs ++ ys) = spelled xs ++ spelled ys := by
  rw [spelled, lexemes, List.flatMap_append, List.map_append]
  rfl

@[simp] theorem spelled_word (name : String) (ss : List Symbol) :
    spelled (.word name :: ss) = (.word, bytes name.toList) :: spelled ss := rfl

@[simp] theorem spelled_segment (name : String) (ss : List Symbol) :
    spelled (.segment name :: ss) = (.dot, bytes ['.']) :: (.word, bytes name.toList) :: spelled ss := rfl

@[simp] theorem spelled_number (n : Int64) (ss : List Symbol) :
    spelled (.number n :: ss) = (.number, bytes (Decimal.intText n.toInt).toList) :: spelled ss := rfl

@[simp] theorem spelled_string (s : String) (ss : List Symbol) :
    spelled (.string s :: ss) = (.doubleQuoted, bytes (quoted s)) :: spelled ss := rfl

@[simp] theorem spelled_operator (op : BinaryOp) (ss : List Symbol) :
    spelled (.operator op :: ss) = (op.kind, bytes op.kind.spelling.toList) :: spelled ss := rfl

@[simp] theorem spelled_mark (kind : TokenKind) (ss : List Symbol) :
    spelled (.mark kind :: ss) = (kind, bytes kind.spelling.toList) :: spelled ss := rfl

@[simp] theorem spelled_comma (ss : List Symbol) :
    spelled (.comma :: ss) = (.comma, bytes [',']) :: spelled ss := rfl

/-! ### Names, numbers and strings -/

theorem isWord_of_isIdentifier {name : String} (h : isIdentifier name = true) : isWord name = true := by
  cases hname : name.toList with
  | nil =>
    rw [isIdentifier, hname] at h
    cases h
  | cons c cs =>
    rw [isIdentifier, hname] at h
    obtain ⟨hc, hcs⟩ := Bool.and_eq_true_iff.1 h
    rw [isWord, hname]
    refine Bool.and_eq_true_iff.2 ⟨Bool.or_eq_true_iff.2 (.inl hc), List.all_eq_true.2 fun d hd => ?_⟩
    exact Bool.or_eq_true_iff.2 (.inl (List.all_eq_true.1 hcs d hd))

theorem bytes_toDigits (n : Nat) : ∃ b more, bytes (Nat.toDigits 10 n) = b :: more ∧ leads b = true ∧
    isDigit b = true ∧ more.all isNumberByte = true := by
  obtain ⟨d, ds, hn, hd, hds⟩ := Filter.exists_toDigits_eq_cons n
  obtain ⟨hleads, hdigit, -⟩ := isNumberByte_byte hd
  refine ⟨byte d, bytes ds, by rw [hn, bytes_cons_of_ascii (isDigit_lt hd)], hleads, hdigit, ?_⟩
  clear hn
  induction ds with
  | nil => rfl
  | cons d ds ih =>
    rw [List.all_cons, Bool.and_eq_true] at hds
    rw [bytes_cons_of_ascii (isDigit_lt hds.1), List.all_cons, (isNumberByte_byte hds.1).2.2, ih hds.2, Bool.and_self]

theorem scans_digits {rest : List UInt8} (m : Nat) (hr : Delimited rest) :
    Scans (bytes (Nat.toDigits 10 m)) [(.number, bytes (Nat.toDigits 10 m))] rest := by
  obtain ⟨b, more, hbytes, hleads, hdigit, hmore⟩ := bytes_toDigits m
  rw [hbytes]
  exact scans_numeral hleads hdigit (numberLength_append hmore hr)

theorem scans_number {n : Int64} {rest : List UInt8} (hn : 0 ≤ n.toInt) (hr : Delimited rest) :
    Scans (bytes (Decimal.intText n.toInt).toList) [(.number, bytes (Decimal.intText n.toInt).toList)] rest := by
  obtain ⟨m, hm⟩ := Int.eq_ofNat_of_zero_le hn
  have htext : (Decimal.intText n.toInt).toList = Nat.toDigits 10 m := by
    rw [hm]
    exact String.toList_ofList
  rw [htext]
  exact scans_digits m hr

theorem quoted_eq (s : String) : quoted s = StringPart.quoted (s.toList.map (StringPart.ofChar .double)) := by
  rw [quoted, StringPart.quoted, List.flatMap_map]
  simp only [StringPart.text_ofChar]
  rfl

/-- A token of a string that is printed says the string. -/
theorem value_of_quoted {t : Token} {s : String} (h : t.lexeme = (.doubleQuoted, bytes (quoted s))) : t.value = s := by
  rw [quoted_eq] at h
  have hparts : t.value = String.ofList ((s.toList.map (StringPart.ofChar .double)).map StringPart.value) :=
    value_of_parts h
  have hvalues : (s.toList.map (StringPart.ofChar .double)).map StringPart.value = s.toList := by
    simp [StringPart.value_ofChar, Function.comp_def]
  rw [hparts, hvalues, String.ofList_toList]

/-! ### Symbols -/

namespace Symbol

/-- The symbol is scanned into its tokens. -/
def Readable : Symbol → Prop
  | .word name | .segment name => isIdentifier name = true
  | .number n => 0 ≤ n.toInt
  | .operator op => op ∈ operators
  | .mark kind => kind ∈ [.parenLeft, .parenRight, .minus, .bang]
  | _ => True

/-- Words and numbers need a delimiter after them. -/
def isOpen : Symbol → Bool
  | .word _ | .segment _ | .number _ => true
  | _ => false

/-- The symbol starts with a character that belongs to no word and to no number. -/
def isDelimiter : Symbol → Bool
  | .segment _ | .operator _ | .comma => true
  | .mark kind => kind = .parenLeft || kind = .parenRight
  | _ => false

end Symbol

theorem bytes_operator {op : BinaryOp} :
    bytes (Symbol.operator op).text = 0x20 :: (bytes op.kind.spelling.toList ++ [0x20]) := by
  rw [Symbol.text, ← List.singleton_append, bytes_append, bytes_append]
  rfl

theorem delimited_symbol {s : Symbol} (hr : s.Readable) (hs : s.isDelimiter = true) (rest : List UInt8) :
    Delimited (bytes s.text ++ rest) := by
  cases s with
  | segment name =>
    obtain ⟨b, more, hbytes, -, -, hdigit, -⟩ := bytes_of_isWord (isWord_of_isIdentifier hr)
    have htext : bytes (Symbol.segment name).text = 0x2E :: b :: more := by
      rw [Symbol.text, bytes_cons_of_ascii (by decide), hbytes]
      rfl
    rw [htext]
    constructor
    · intro b' hb'
      cases hb'
      decide
    · intro b' d later heq _
      cases heq
      exact hdigit
  | operator op =>
    rw [bytes_operator]
    exact .cons (by decide) (by decide) _
  | comma => exact .cons (show isWordByte 0x2C = false by decide) (by decide) _
  | mark kind =>
    simp only [Symbol.isDelimiter, Bool.or_eq_true, decide_eq_true_eq] at hs
    rcases hs with rfl | rfl
    · exact .cons (show isWordByte 0x28 = false by decide) (by decide) _
    · exact .cons (show isWordByte 0x29 = false by decide) (by decide) _
  | _ => cases hs

theorem scans_operator {op : BinaryOp} (ho : op ∈ operators) (rest : List UInt8) :
    Scans (bytes op.kind.spelling.toList) [(op.kind, bytes op.kind.spelling.toList)] (0x20 :: rest) := by
  simp only [operators, List.mem_cons, List.not_mem_nil, or_false] at ho
  rcases ho with rfl | rfl | rfl | rfl | rfl | rfl | rfl | rfl | rfl | rfl | rfl | rfl | rfl <;>
    exact scans_token (by decide) rfl

theorem scans_header (rest : List UInt8) :
    Scans (bytes Symbol.header.text) (Symbol.header.lexemes.map fun l => (l.1, bytes l.2)) rest := by
  have hpipe : ∀ rest, Scans [0x7C] [(.pipe, [0x7C])] (0x78 :: rest) := fun _ => scans_token (by decide) rfl
  have hname : Scans [0x78] [(.word, [0x78])] (0x7C :: 0x20 :: rest) :=
    scans_word (show isWord "x" = true by decide) (.cons (by decide) (by decide) _)
  have hpipe' : Scans [0x7C] [(.pipe, [0x7C])] (0x20 :: rest) := scans_token (by decide) rfl
  exact (hpipe _).append (hname.append (hpipe'.append (scans_blank rest)))

theorem scans_mark {kind : TokenKind} {rest : List UInt8} (hk : (Symbol.mark kind).Readable)
    (he : rest.head? ≠ some 0x3D) :
    Scans (bytes kind.spelling.toList) [(kind, bytes kind.spelling.toList)] rest := by
  simp only [Symbol.Readable, List.mem_cons, List.not_mem_nil, or_false] at hk
  rcases hk with rfl | rfl | rfl | rfl
  · exact scans_token (by decide) rfl
  · exact scans_token (by decide) rfl
  · exact scans_token (by decide) rfl
  · have hbang : lexeme 0x21 rest = if follows '=' rest = 1 then .token .notEqual (1 + follows '=' (rest.drop 1))
        else .token .bang 0 := rfl
    have hbytes : bytes TokenKind.bang.spelling.toList = [0x21] := by decide
    rw [hbytes]
    refine scans_token (by decide) ?_
    rw [List.nil_append, hbang, follows_of_head_ne (c := '=') he]
    rfl

/-- A symbol is scanned into its tokens, if a word or a number is delimited and no sign becomes an operator. -/
theorem scans_symbol {s : Symbol} {rest : List UInt8} (hs : s.Readable) (ho : s.isOpen = true → Delimited rest)
    (he : rest.head? ≠ some 0x3D) :
    Scans (bytes s.text) (s.lexemes.map fun l => (l.1, bytes l.2)) rest := by
  cases s with
  | header => exact scans_header rest
  | word name => exact scans_word (isWord_of_isIdentifier hs) (ho rfl)
  | segment name =>
    have hdot : Scans [0x2E] [(.dot, [0x2E])] (bytes name.toList ++ rest) := scans_token (by decide) rfl
    exact hdot.append (scans_word (isWord_of_isIdentifier hs) (ho rfl))
  | number n => exact scans_number hs (ho rfl)
  | string s =>
    rw [Symbol.text, Symbol.lexemes, quoted_eq]
    exact scans_string _ rest
  | operator op =>
    rw [bytes_operator]
    exact (scans_blank _).append ((scans_operator hs rest).append (scans_blank rest))
  | mark kind => exact scans_mark hs he
  | comma =>
    have hcomma : Scans [0x2C] [(.comma, [0x2C])] ([0x20] ++ rest) := scans_token (by decide) rfl
    exact hcomma.append (scans_blank rest)

/-- No symbol starts with an equals sign, because operators have a blank before them. -/
theorem head_ne_equal {s : Symbol} (hs : s.Readable) (rest : List UInt8) :
    (bytes s.text ++ rest).head? ≠ some 0x3D := by
  have hleads : ∀ {b : UInt8} {more : List UInt8}, bytes s.text = b :: more → b ≠ 0x3D →
      (bytes s.text ++ rest).head? ≠ some 0x3D := by
    intro b more hbytes hb
    rw [hbytes]
    simpa using hb
  cases s with
  | header => exact hleads rfl (by decide)
  | word name =>
    obtain ⟨b, more, hbytes, -, hstart, -⟩ := bytes_of_isWord (isWord_of_isIdentifier hs)
    refine hleads hbytes ?_
    rintro rfl
    exact absurd hstart (by decide)
  | segment name => exact hleads (bytes_cons_of_ascii (by decide) _) (by decide)
  | number n =>
    obtain ⟨m, hm⟩ := Int.eq_ofNat_of_zero_le hs
    obtain ⟨b, more, hbytes, -, hdigit, -⟩ := bytes_toDigits m
    have htext : bytes (Symbol.number n).text = b :: more := by
      rw [Symbol.text, hm, ← hbytes]
      exact congrArg bytes String.toList_ofList
    refine hleads htext ?_
    rintro rfl
    exact absurd hdigit (by decide)
  | string s => exact hleads (bytes_cons_of_ascii (by decide) _) (by decide)
  | operator op => exact hleads bytes_operator (by decide)
  | mark kind =>
    simp only [Symbol.Readable, List.mem_cons, List.not_mem_nil, or_false] at hs
    rcases hs with rfl | rfl | rfl | rfl <;> exact hleads rfl (by decide)
  | comma => exact hleads rfl (by decide)

/-! ### Texts -/

/-- Each symbol is scanned, and words and numbers are delimited. -/
structure Scannable (symbols : List Symbol) : Prop where
  readable : ∀ s ∈ symbols, s.Readable
  separated : symbols.IsChain fun a b => a.isOpen = true → b.isDelimiter = true

theorem bytes_symbolsText_cons (s : Symbol) (ss : List Symbol) :
    bytes (symbolsText (s :: ss)) = bytes s.text ++ bytes (symbolsText ss) := by
  rw [symbolsText, List.flatMap_cons, bytes_append]
  rfl

theorem scans_symbols {symbols : List Symbol} (h : Scannable symbols) :
    Scans (bytes (symbolsText symbols)) (spelled symbols) [] := by
  induction symbols with
  | nil => exact scans_nil []
  | cons s ss ih =>
    obtain ⟨hs, hss⟩ := List.forall_mem_cons.1 h.readable
    have hopen : s.isOpen = true → Delimited (bytes (symbolsText ss) ++ []) := by
      intro ho
      cases ss with
      | nil => exact ⟨by simp [symbolsText, bytes], by simp [symbolsText, bytes]⟩
      | cons b ss =>
        have hb : b.isDelimiter = true := (List.isChain_cons_cons.1 h.separated).1 ho
        rw [bytes_symbolsText_cons, List.append_assoc]
        exact delimited_symbol (hss b (by simp)) hb _
    have hequal : (bytes (symbolsText ss) ++ []).head? ≠ some 0x3D := by
      cases ss with
      | nil => simp [symbolsText, bytes]
      | cons b ss =>
        rw [bytes_symbolsText_cons, List.append_assoc]
        exact head_ne_equal (hss b (by simp)) _
    rw [bytes_symbolsText_cons, spelled, lexemes, List.flatMap_cons, List.map_append]
    exact (scans_symbol hs hopen hequal).append (ih ⟨hss, h.separated.tail⟩)

/-- The stream of a printed text holds the tokens of its symbols. -/
theorem ofText_symbols {symbols : List Symbol} (h : Scannable symbols) :
    ∃ tokens, Stream.ofText (String.ofList (symbolsText symbols)) = ⟨0, tokens, none⟩ ∧
      tokens.map Token.lexeme = spelled symbols := by
  refine ofText_of_scans ?_
  rw [String.toList_ofList]
  exact scans_symbols h

namespace Scannable

variable {xs ys : List Symbol} {y : Symbol}

theorem nil : Scannable [] := ⟨by simp, .nil⟩

theorem single (h : y.Readable) : Scannable [y] := ⟨by simpa using h, .singleton y⟩

/-- Anything can follow a symbol that needs no delimiter. -/
theorem cons (hr : y.Readable) (ho : y.isOpen = false) (h : Scannable ys) : Scannable (y :: ys) := by
  refine ⟨by simpa using ⟨hr, h.readable⟩, List.isChain_cons.2 ⟨fun z _ hy => ?_, h.separated⟩⟩
  rw [ho] at hy
  cases hy

/-- A delimiter can follow anything. -/
theorem append (hx : Scannable xs) (hy : Scannable (y :: ys)) (hd : y.isDelimiter = true) :
    Scannable (xs ++ y :: ys) := by
  refine ⟨fun s hs => ?_, List.isChain_append.2 ⟨hx.separated, hy.separated, fun a _ b hb _ => ?_⟩⟩
  · rcases List.mem_append.1 hs with hs | hs
    · exact hx.readable s hs
    · exact hy.readable s hs
  · obtain rfl : y = b := by simpa using hb
    exact hd

theorem enclosed (h : Scannable xs) : Scannable (enclosed xs) := by
  have hclose : Scannable [.mark .parenRight] := .single (by simp [Symbol.Readable])
  exact .cons (by simp [Symbol.Readable]) rfl (h.append hclose rfl)

theorem operator {op : BinaryOp} (ho : op ∈ operators) (hx : Scannable xs) (hy : Scannable ys) :
    Scannable (xs ++ .operator op :: ys) :=
  hx.append (.cons ho rfl hy) rfl

theorem segments {names : List String} (hx : Scannable xs) (hn : names.all isIdentifier = true) :
    Scannable (xs ++ names.map Symbol.segment) := by
  induction names generalizing xs with
  | nil => simpa using hx
  | cons name names ih =>
    rw [List.all_cons, Bool.and_eq_true] at hn
    have hname : Scannable [.segment name] := .single hn.1
    have := ih (hx.append hname rfl) hn.2
    rwa [List.append_assoc, List.singleton_append] at this

end Scannable

/-! ### Printed expressions -/

theorem logical_mem_operators {op : LogicalOp} (h : op = .and ∨ op = .or) : .logical op ∈ operators := by
  rcases h with rfl | rfl <;> decide

theorem comparison_mem_operators {op : ComparisonOp} (h : op ≠ .isIn ∧ op ≠ .notIn) : .comparison op ∈ operators := by
  revert h
  cases op <;> decide

theorem arithmetic_mem_operators {op : ArithmeticOp} (h : op ≠ .bit) : .arithmetic op ∈ operators := by
  revert h
  cases op <;> decide

theorem toInt_neg_nonneg {n : Int64} (hn : n < 0) (hm : n ≠ Int64.minValue) : 0 ≤ (-n).toInt := by
  have hlt : n.toInt < 0 := Int64.lt_iff_toInt_lt.1 hn
  have hle := n.le_toInt
  have hne : n.toInt ≠ -2 ^ 63 := fun h => hm (Int64.toInt_inj.1 (h.trans Int64.toInt_minValue.symm))
  have hbmod : (-n.toInt).bmod (2 ^ 64) = -n.toInt := Int.bmod_eq_of_le (by omega) (by omega)
  rw [Int64.toInt_neg, hbmod]
  omega

theorem scannable_literal {value : Value} (hv : Filter.isPlain value = true) (hm : value ≠ .int Int64.minValue) :
    Scannable (literalSymbols value) := by
  cases value with
  | null => exact .single (show isIdentifier "null" = true by decide)
  | bool b =>
    cases b
    · exact .single (show isIdentifier "false" = true by decide)
    · exact .single (show isIdentifier "true" = true by decide)
  | int n =>
    rw [literalSymbols]
    split
    · next hn =>
      have hnumber : Scannable [.number (-n)] := .single (toInt_neg_nonneg hn fun h => hm (congrArg Value.int h))
      exact .cons (by simp [Symbol.Readable]) rfl hnumber
    · next hn =>
      have hle : 0 ≤ n.toInt := Int.not_lt.1 fun h => hn (Int64.lt_iff_toInt_lt.2 h)
      exact .single hle
  | string s => exact .single trivial
  | _ => cases hv

theorem scannable_printOperands {spelling : Spelling} {op : LogicalOp} {args : List Expr} {xs : List Symbol}
    (ho : op = .and ∨ op = .or) (hx : Scannable xs) (ha : ∀ e ∈ args, Scannable (print spelling e)) :
    Scannable (xs ++ printOperands spelling op args) := by
  induction args generalizing xs with
  | nil => simpa [printOperands] using hx
  | cons e args ih =>
    obtain ⟨he, hargs⟩ := List.forall_mem_cons.1 ha
    have := ih (Scannable.operator (logical_mem_operators ho) hx he) hargs
    rwa [List.append_assoc, List.cons_append] at this

theorem scannable_printArguments {spelling : Spelling} {args : List Expr}
    (ha : ∀ e ∈ args, Scannable (print spelling e)) : Scannable (printArguments spelling args) := by
  have hmore : ∀ {args : List Expr} {xs : List Symbol}, (∀ e ∈ args, Scannable (print spelling e)) → Scannable xs →
      Scannable (xs ++ printMoreArguments spelling args) := by
    intro args xs ha hx
    induction args generalizing xs with
    | nil => simpa [printMoreArguments] using hx
    | cons e args ih =>
      obtain ⟨he, hargs⟩ := List.forall_mem_cons.1 ha
      have hcomma : Scannable (.comma :: print spelling e) := .cons trivial rfl he
      have := ih hargs (hx.append hcomma rfl)
      rwa [List.append_assoc, List.cons_append] at this
  cases args with
  | nil => exact .nil
  | cons e args =>
    obtain ⟨he, hargs⟩ := List.forall_mem_cons.1 ha
    exact hmore hargs he

theorem scannable_print (spelling : Spelling) {e : Expr} (h : Shared e) : Scannable (print spelling e) := by
  induction h with
  | member hi _ _ _ =>
    have hparameter : Scannable [.word parameterName] := .single (show isIdentifier "x" = true by decide)
    exact hparameter.segments hi
  | literal hv hm => exact scannable_literal hv hm
  | arithmetic ho _ _ ihl ihr => exact (Scannable.operator (arithmetic_mem_operators ho) ihl ihr).enclosed
  | comparison ho _ _ ihl ihr =>
    rw [print]
    exact (Scannable.operator (comparison_mem_operators ho) ihl ihr).enclosed
  | @chain op _ _ _ ho _ _ iha =>
    obtain ⟨hfirst, hrest⟩ := List.forall_mem_cons.1 iha
    have hnot : op ≠ .not := by rcases ho with rfl | rfl <;> decide
    rw [print_chain hnot]
    exact (scannable_printOperands ho hfirst hrest).enclosed
  | @negation arg _ iha =>
    have hbang : Scannable (.mark .bang :: print spelling arg) := .cons (by simp [Symbol.Readable]) rfl iha
    exact hbang.enclosed
  | @call c _ _ hm _ _ _ iha =>
    obtain ⟨hreceiver, hargs⟩ := List.forall_mem_cons.1 iha
    have hname : Scannable [.segment (spelling.word c.name)] := .single (spelling.known c hm).1
    have hcall := hname.append (scannable_printArguments hargs).enclosed rfl
    rw [print]
    exact hreceiver.append hcall rfl

end SqlQuery.Closure
