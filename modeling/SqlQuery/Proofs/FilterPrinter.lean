import SqlQuery.Filter.Grammar
import SqlQuery.Sql.Expression

/-!
# Filters as text

`print` writes an expression in the syntax of filters, as symbols: the lexemes of the text and the blanks
between them. An operand is put in parentheses where its operator binds less tightly than its place
requires, and a `Parens` may ask for more of them. `Printable` are the trees that filters are written for:
those that hold nothing but what the syntax has a form for.
-/

namespace SqlQuery.Filter

open SqlQuery.Sql (Formatter)

/-! ### Symbols -/

/-- A lexeme that is written, or a blank. -/
inductive Symbol where
  | word (name : String)
  | literal (value : Value)
  | punctuation (p : Punctuation)
  | blank

/-- A literal is written as the constant of the default dialect. -/
def literalText (value : Value) : String :=
  match Formatter.constant {} value with
  | .ok text => text
  | .error _ => ""

/-- The type that a literal is read in. -/
def literalKind : Value → LiteralKind
  | .null => .null
  | .bool _ => .boolean
  | .int n => if fitsInt32 n then .int else .long
  | _ => .string

namespace Symbol

/-- The characters of a symbol. -/
def text : Symbol → List Char
  | .word name => name.toList
  | .literal value => (literalText value).toList
  | .punctuation p => [p.char]
  | .blank => [' ']

/-- The lexeme of a symbol; a blank is none. -/
def lexeme? : Symbol → Option Lexeme
  | .word name => some (.word name)
  | .literal value => some (plainLiteral value (literalKind value))
  | .punctuation p => some (.punctuation p)
  | .blank => none

end Symbol

/-- The characters of symbols in order. -/
def symbolsText (symbols : List Symbol) : List Char := symbols.flatMap Symbol.text

/-- The lexemes of symbols in order. -/
def lexemes (symbols : List Symbol) : List Lexeme := symbols.filterMap Symbol.lexeme?

@[simp] theorem lexemes_nil : lexemes [] = [] := rfl

@[simp] theorem lexemes_append (xs ys : List Symbol) : lexemes (xs ++ ys) = lexemes xs ++ lexemes ys :=
  List.filterMap_append

@[simp] theorem lexemes_word (name : String) (ss : List Symbol) :
    lexemes (.word name :: ss) = .word name :: lexemes ss := rfl

@[simp] theorem lexemes_literal (value : Value) (ss : List Symbol) :
    lexemes (.literal value :: ss) = plainLiteral value (literalKind value) :: lexemes ss := rfl

@[simp] theorem lexemes_punctuation (p : Punctuation) (ss : List Symbol) :
    lexemes (.punctuation p :: ss) = .punctuation p :: lexemes ss := rfl

@[simp] theorem lexemes_blank (ss : List Symbol) : lexemes (.blank :: ss) = lexemes ss := rfl

/-! ### The syntax -/

namespace BinaryOp

/-- The word that an operator is written as. -/
def word : BinaryOp → String
  | .logical .or => "or"
  | .logical .and => "and"
  | .comparison .eq => "eq"
  | .comparison .ne => "ne"
  | .comparison .gt => "gt"
  | .comparison .gte => "ge"
  | .comparison .lt => "lt"
  | .comparison .lte => "le"
  | .membership => "in"
  | .arithmetic .add => "add"
  | .arithmetic .subtract => "sub"
  | .arithmetic .multiply => "mul"
  | .arithmetic .divide => "div"
  | .arithmetic .mod => "mod"
  | _ => ""

/-- The order in which operators bind: `or` is the weakest, then `and`, the comparisons, `add` and `sub`,
and last `mul`, `div` and `mod`. -/
def strength : BinaryOp → Nat
  | .logical .or => 1
  | .logical _ => 2
  | .comparison _ | .membership => 4
  | .arithmetic .add | .arithmetic .subtract => 5
  | .arithmetic _ => 6

/-- The operator of a comparison. -/
def ofComparison : ComparisonOp → BinaryOp
  | .isIn => .membership
  | op => .comparison op

end BinaryOp

/-- `not` binds more tightly than `and` and less than the comparisons. -/
def notStrength : Nat := 3

/-- The words that are no names of members. -/
def keywords : List String :=
  ["or", "and", "not", "eq", "ne", "gt", "ge", "lt", "le", "in", "add", "sub", "mul", "div", "mod"]

/-- A method that filters can call. -/
structure Callable where
  name : String
  word : String
  arity : Arity
  deriving DecidableEq

/-- The methods of the syntax. -/
def vocabulary : List Callable :=
  [⟨"startsWith", "startswith", .exactly 2⟩, ⟨"endsWith", "endswith", .exactly 2⟩,
   ⟨"contains", "contains", .exactly 2⟩, ⟨"length", "length", .exactly 1⟩,
   ⟨"indexOfBytes", "indexof", .orOneMore 2⟩, ⟨"substr", "substring", .orOneMore 2⟩,
   ⟨"toLower", "tolower", .exactly 1⟩, ⟨"toUpper", "toupper", .exactly 1⟩, ⟨"trim", "trim", .exactly 1⟩,
   ⟨"concat", "concat", .atLeast 2⟩, ⟨"year", "year", .exactly 1⟩, ⟨"month", "month", .exactly 1⟩,
   ⟨"dayOfMonth", "day", .exactly 1⟩, ⟨"hour", "hour", .exactly 1⟩, ⟨"minute", "minute", .exactly 1⟩,
   ⟨"second", "second", .exactly 1⟩, ⟨"date", "date", .exactly 1⟩, ⟨"round", "round", .orOneMore 1⟩,
   ⟨"floor", "floor", .exactly 1⟩, ⟨"ceil", "ceiling", .exactly 1⟩, ⟨"count", "count", .exactly 1⟩,
   ⟨"min", "min", .exactly 1⟩, ⟨"max", "max", .exactly 1⟩, ⟨"sum", "sum", .exactly 1⟩,
   ⟨"avg", "avg", .exactly 1⟩]

/-- The word of the method that is called by a name. -/
def methodWord (name : String) : String :=
  ((vocabulary.find? fun c => c.name = name).map Callable.word).getD ""

/-! ### Parentheses -/

/-- How tightly an expression binds: as its last operator does, or more tightly than any. -/
def strength : Expr → Nat
  | .arithmetic op _ _ => (BinaryOp.arithmetic op).strength
  | .comparison op _ _ => (BinaryOp.ofComparison op).strength
  | .logical .not _ => notStrength
  | .logical op _ => (BinaryOp.logical op).strength
  | _ => 7

/-- Where operands are put in parentheses, by the strength that their place requires and their own. -/
structure Parens where
  wraps : (required own : Nat) → Bool
  wraps_of_lt : ∀ {required own : Nat}, own < required → wraps required own = true

/-- Parentheses only where an operand binds less tightly than its place requires. -/
def Parens.minimal : Parens := ⟨fun required own => own < required, by simp⟩

/-- Symbols in parentheses, if they are asked for. -/
def wrapped : Bool → List Symbol → List Symbol
  | true, ss => .punctuation .parenOpen :: (ss ++ [.punctuation .parenClose])
  | false, ss => ss

/-! ### Expressions -/

/-- The segments of a member's path. -/
def segments (path : String) : List String := (Text.splitOn '.' path.toList).map String.ofList

/-- The segments of a path with a slash between each two. -/
def pathSymbols : List String → List Symbol
  | [] => []
  | name :: names => .word name :: names.flatMap fun name => [.punctuation .slash, .word name]

/-- The literals of a list with a comma between each two. -/
def literalSymbols : List Value → List Symbol
  | [] => []
  | value :: values => .literal value :: values.flatMap fun value => [.punctuation .comma, .blank, .literal value]

/-- An operator with a blank on either side. -/
def operatorSymbols (op : BinaryOp) : List Symbol := [.blank, .word op.word, .blank]

mutual

/-- An expression as symbols. The right operand of an operator has to bind more tightly than the
operator, the left one as tightly. -/
def print (style : Parens) : Expr → List Symbol
  | .member path => pathSymbols (segments path)
  | .literal value => [.literal value]
  | .arithmetic op left right =>
    let required := (BinaryOp.arithmetic op).strength
    wrapped (style.wraps required (strength left)) (print style left) ++ operatorSymbols (.arithmetic op) ++
      wrapped (style.wraps (required + 1) (strength right)) (print style right)
  | .comparison op left (some right) =>
    let required := (BinaryOp.ofComparison op).strength
    wrapped (style.wraps required (strength left)) (print style left) ++ operatorSymbols (.ofComparison op) ++
      match op, right with
      | .isIn, .literal (.array values) => wrapped true (literalSymbols values)
      | _, _ => wrapped (style.wraps (required + 1) (strength right)) (print style right)
  | .logical .not [arg] =>
    .word "not" :: .blank :: wrapped (style.wraps notStrength (strength arg)) (print style arg)
  | .logical op (arg :: args) =>
    let required := (BinaryOp.logical op).strength
    wrapped (style.wraps required (strength arg)) (print style arg) ++ printOperands style op args
  | .call name args => .word (methodWord name) :: wrapped true (printArguments style args)
  | _ => []

/-- The operands of a chain after the first, each with the operator before it. -/
def printOperands (style : Parens) (op : LogicalOp) : List Expr → List Symbol
  | [] => []
  | arg :: args =>
    let required := (BinaryOp.logical op).strength
    operatorSymbols (.logical op) ++ wrapped (style.wraps (required + 1) (strength arg)) (print style arg) ++
      printOperands style op args

/-- Arguments with a comma between each two. -/
def printArguments (style : Parens) : List Expr → List Symbol
  | [] => []
  | arg :: args => wrapped (style.wraps 0 (strength arg)) (print style arg) ++ printMoreArguments style args

/-- The arguments after the first, each with a comma before it. -/
def printMoreArguments (style : Parens) : List Expr → List Symbol
  | [] => []
  | arg :: args =>
    .punctuation .comma :: .blank ::
      (wrapped (style.wraps 0 (strength arg)) (print style arg) ++ printMoreArguments style args)

end

theorem print_comparison {style : Parens} {op : ComparisonOp} {left right : Expr} (h : op ≠ .isIn) :
    print style (.comparison op left (some right)) =
      wrapped (style.wraps (BinaryOp.ofComparison op).strength (strength left)) (print style left) ++
        operatorSymbols (.ofComparison op) ++
        wrapped (style.wraps ((BinaryOp.ofComparison op).strength + 1) (strength right)) (print style right) := by
  cases op <;> first | exact absurd rfl h | simp [print]

theorem print_chain {style : Parens} {op : LogicalOp} {arg : Expr} {args : List Expr} (h : op ≠ .not) :
    print style (.logical op (arg :: args)) =
      wrapped (style.wraps (BinaryOp.logical op).strength (strength arg)) (print style arg) ++
        printOperands style op args := by
  cases op <;> first | exact absurd rfl h | simp [print]

theorem literalSymbols_eq (values : List Value) :
    literalSymbols values = printArguments .minimal (values.map Expr.literal) := by
  have hmore : ∀ values : List Value, printMoreArguments .minimal (values.map Expr.literal) =
      values.flatMap fun value => [.punctuation .comma, .blank, .literal value] := by
    intro values
    induction values with
    | nil => simp [printMoreArguments]
    | cons value values ih => simp [printMoreArguments, print, wrapped, Parens.minimal, ← ih]
  cases values with
  | nil => simp [literalSymbols, printArguments]
  | cons value values => simp [literalSymbols, printArguments, print, wrapped, Parens.minimal, ← hmore]

/-- The text of an expression as a filter. -/
def printText (style : Parens) (e : Expr) : String := String.ofList (symbolsText (print style e))

/-! ### Printable trees -/

/-- A word that is read as a name, and not as one of the literals that are words. -/
def isName (name : String) : Bool :=
  match name.toList, wordLexeme name with
  | c :: cs, .word _ => isWordStart c && cs.all isWordChar
  | _, _ => false

/-- A name that can start a path. -/
def isFree (name : String) : Bool := name ∉ keywords

/-- The literals that are written: null, booleans, integers and strings. -/
def isPlain : Value → Bool
  | .null | .bool _ | .int _ | .string _ => true
  | _ => false

/-- The trees that filters are written for. -/
inductive Printable : Expr → Prop where
  | member {path : String} (hn : (segments path).all isName = true) (hf : (segments path).head?.any isFree = true) :
    Printable (.member path)
  | literal {value : Value} (hv : isPlain value = true) : Printable (.literal value)
  | arithmetic {op : ArithmeticOp} {left right : Expr} (ho : op ≠ .bit) (hl : Printable left)
    (hr : Printable right) : Printable (.arithmetic op left right)
  | comparison {op : ComparisonOp} {left right : Expr} (ho : op ≠ .isIn ∧ op ≠ .notIn) (hl : Printable left)
    (hr : Printable right) : Printable (.comparison op left (some right))
  | membership {left : Expr} {values : List Value} (hl : Printable left) (hv : values.all isPlain = true) :
    Printable (.comparison .isIn left (some (.literal (.array values))))
  | chain {op : LogicalOp} {first second : Expr} {rest : List Expr} (ho : op = .and ∨ op = .or)
    (hf : first.absorbs op = false) (ha : ∀ e ∈ first :: second :: rest, Printable e) :
    Printable (.logical op (first :: second :: rest))
  | negation {arg : Expr} (ha : Printable arg) : Printable (.logical .not [arg])
  | call {c : Callable} {args : List Expr} (hm : c ∈ vocabulary) (hc : c.arity.admits args.length = true)
    (ha : ∀ e ∈ args, Printable e) : Printable (.call c.name args)

/-! ### Words and the grammar -/

/-- Operators have words, and those are read as the operators. -/
theorem word_of_mem_words : ∀ op ∈ BinaryOp.words.map Prod.snd,
    isName op.word = true ∧ BinaryOp.ofWord? op.word = some op := by
  decide

theorem arithmetic_mem_words {op : ArithmeticOp} (h : op ≠ .bit) :
    .arithmetic op ∈ BinaryOp.words.map Prod.snd := by
  cases op <;> first | exact absurd rfl h | decide

theorem ofComparison_mem_words {op : ComparisonOp} (h : op ≠ .notIn) :
    BinaryOp.ofComparison op ∈ BinaryOp.words.map Prod.snd := by
  cases op <;> first | exact absurd rfl h | decide

theorem logical_mem_words {op : LogicalOp} (h : op = .and ∨ op = .or) :
    .logical op ∈ BinaryOp.words.map Prod.snd := by
  rcases h with rfl | rfl <;> decide

/-- A name that can start a path is no operator. -/
theorem ofWord?_eq_none {name : String} (h : isFree name = true) :
    name ≠ "not" ∧ BinaryOp.ofWord? name = none := by
  have hwords : ∀ entry ∈ BinaryOp.words, entry.1 ∈ keywords := by decide
  have hfree : name ∉ keywords := by simpa [isFree] using h
  refine ⟨?_, List.lookup_eq_none_iff.2 fun entry he => bne_iff_ne.2 ?_⟩
  · rintro rfl
    exact hfree (by decide)
  · rintro rfl
    exact hfree (hwords entry he)

/-- Methods have words, which are no keywords, are read as the methods and keep their arguments in order. -/
theorem methodWord_of_mem : ∀ c ∈ vocabulary,
    isName (methodWord c.name) = true ∧ isFree (methodWord c.name) = true ∧
      (Method.ofFilterName? (methodWord c.name)).map (fun m => (m.name, arity m)) = some (c.name, c.arity) ∧
      Text.lowerCase (methodWord c.name) ≠ "substringof" := by
  decide

end SqlQuery.Filter
