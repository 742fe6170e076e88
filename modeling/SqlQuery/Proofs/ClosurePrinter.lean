import SqlQuery.Closure.Basic
import SqlQuery.Proofs.FilterPrinter

/-!
# Closures as text

`print` writes an expression as the body of a closure: members are paths on the parameter, methods are called on their
first argument, and every operator stands in parentheses with its operands. `Shared` are the trees that both filters
and closures are written for.
-/

namespace SqlQuery.Closure

/-! ### Symbols -/

/-- A name of letters, digits and underscores, as ASCII has them. -/
def isIdentifier (name : String) : Bool :=
  match name.toList with
  | c :: cs => (c.isAlpha || c = '_') && cs.all fun c => c.isAlphanum || c = '_'
  | [] => false

/-- The parameter of the closures that are written. -/
def parameterName : String := "x"

/-- What a closure is written of. An operator has a blank on either side and a comma has one after it. -/
inductive Symbol where
  | header
  | word (name : String)
  /-- A name after a dot. -/
  | segment (name : String)
  | number (n : Int64)
  | string (s : String)
  | operator (op : BinaryOp)
  | mark (kind : TokenKind)
  | comma

/-- The characters of a token that is always written alike. -/
def TokenKind.spelling : TokenKind → String
  | .parenLeft => "("
  | .parenRight => ")"
  | .bang => "!"
  | .orOr => "||"
  | .andAnd => "&&"
  | .equal => "=="
  | .notEqual => "!="
  | .less => "<"
  | .lessEqual => "<="
  | .greater => ">"
  | .greaterEqual => ">="
  | .plus => "+"
  | .minus => "-"
  | .asterisk => "*"
  | .slash => "/"
  | .percent => "%"
  | _ => ""

/-- The token of an operator. -/
def BinaryOp.kind : BinaryOp → TokenKind
  | .logical .or => .orOr
  | .logical _ => .andAnd
  | .comparison .eq => .equal
  | .comparison .ne => .notEqual
  | .comparison .lt => .less
  | .comparison .lte => .lessEqual
  | .comparison .gt => .greater
  | .comparison _ => .greaterEqual
  | .arithmetic .add => .plus
  | .arithmetic .subtract => .minus
  | .arithmetic .multiply => .asterisk
  | .arithmetic .divide => .slash
  | .arithmetic _ => .percent

/-- The operators that are written. -/
def operators : List BinaryOp :=
  [.logical .or, .logical .and, .comparison .eq, .comparison .ne, .comparison .lt, .comparison .lte, .comparison .gt,
   .comparison .gte, .arithmetic .add, .arithmetic .subtract, .arithmetic .multiply, .arithmetic .divide,
   .arithmetic .mod]

/-- A character of a string: a quote and a backslash stand after a backslash. -/
def escape (c : Char) : List Char := if c = '\\' ∨ c = '"' then ['\\', c] else [c]

/-- A string between quotes. -/
def quoted (s : String) : List Char := '"' :: (s.toList.flatMap escape ++ ['"'])

namespace Symbol

/-- The characters of a symbol. -/
def text : Symbol → List Char
  | .header => ['|', 'x', '|', ' ']
  | .word name => name.toList
  | .segment name => '.' :: name.toList
  | .number n => (Decimal.intText n.toInt).toList
  | .string s => quoted s
  | .operator op => ' ' :: (op.kind.spelling.toList ++ [' '])
  | .mark kind => kind.spelling.toList
  | .comma => [',', ' ']

/-- The tokens of a symbol, with their characters. -/
def lexemes : Symbol → List (TokenKind × List Char)
  | .header => [(.pipe, ['|']), (.word, parameterName.toList), (.pipe, ['|'])]
  | .word name => [(.word, name.toList)]
  | .segment name => [(.dot, ['.']), (.word, name.toList)]
  | .number n => [(.number, (Decimal.intText n.toInt).toList)]
  | .string s => [(.doubleQuoted, quoted s)]
  | .operator op => [(op.kind, op.kind.spelling.toList)]
  | .mark kind => [(kind, kind.spelling.toList)]
  | .comma => [(.comma, [','])]

end Symbol

/-- The characters of symbols in order. -/
def symbolsText (symbols : List Symbol) : List Char := symbols.flatMap Symbol.text

/-- The tokens of symbols in order. -/
def lexemes (symbols : List Symbol) : List (TokenKind × List Char) := symbols.flatMap Symbol.lexemes

/-! ### Expressions -/

/-- A name by which closures call each method that filters have. -/
structure Spelling where
  word : String → String
  known : ∀ c ∈ Filter.vocabulary, isIdentifier (word c.name) = true ∧
    ((Method.ofInstanceName? (word c.name)).or (Method.ofFallback? (word c.name))).map Method.name = some c.name

/-- The methods under their usual names. -/
def Spelling.usual : Spelling where
  word name :=
    match name with
    | "toLower" => "toLowerCase"
    | "toUpper" => "toUpperCase"
    | "indexOfBytes" => "indexOf"
    | "dayOfMonth" => "getDate"
    | name => name
  known := by decide

/-- Symbols in parentheses. -/
def enclosed (symbols : List Symbol) : List Symbol := .mark .parenLeft :: (symbols ++ [.mark .parenRight])

/-- A literal as symbols. A negative number is a sign and a number. -/
def literalSymbols : Value → List Symbol
  | .null => [.word "null"]
  | .bool b => [.word (if b then "true" else "false")]
  | .int n => if n < 0 then [.mark .minus, .number (-n)] else [.number n]
  | .string s => [.string s]
  | _ => []

mutual

/-- An expression as symbols. -/
def print (spelling : Spelling) : Expr → List Symbol
  | .member path => .word parameterName :: (Filter.segments path).map Symbol.segment
  | .literal value => literalSymbols value
  | .arithmetic op left right =>
    enclosed (print spelling left ++ .operator (.arithmetic op) :: print spelling right)
  | .comparison op left (some right) =>
    enclosed (print spelling left ++ .operator (.comparison op) :: print spelling right)
  | .logical .not [arg] => enclosed (.mark .bang :: print spelling arg)
  | .logical op (arg :: args) => enclosed (print spelling arg ++ printOperands spelling op args)
  | .call name (receiver :: args) =>
    print spelling receiver ++ .segment (spelling.word name) :: enclosed (printArguments spelling args)
  | _ => []

/-- The operands of a chain after the first, each with the operator before it. -/
def printOperands (spelling : Spelling) (op : LogicalOp) : List Expr → List Symbol
  | [] => []
  | arg :: args => .operator (.logical op) :: (print spelling arg ++ printOperands spelling op args)

/-- Arguments with a comma between each two. -/
def printArguments (spelling : Spelling) : List Expr → List Symbol
  | [] => []
  | arg :: args => print spelling arg ++ printMoreArguments spelling args

/-- The arguments after the first, each with a comma before it. -/
def printMoreArguments (spelling : Spelling) : List Expr → List Symbol
  | [] => []
  | arg :: args => .comma :: (print spelling arg ++ printMoreArguments spelling args)

end

theorem print_chain {spelling : Spelling} {op : LogicalOp} {arg : Expr} {args : List Expr} (h : op ≠ .not) :
    print spelling (.logical op (arg :: args)) =
      enclosed (print spelling arg ++ printOperands spelling op args) := by
  cases op <;> first | exact absurd rfl h | simp [print]

/-- The text of a closure with an expression as its body. -/
def printText (spelling : Spelling) (e : Expr) : String :=
  String.ofList (symbolsText (.header :: print spelling e))

/-! ### Trees of both languages -/

/-- Whether a method can be called on an expression without parentheses around it. -/
def isReceiver : Expr → Bool
  | .member _ | .call .. => true
  | _ => false

open SqlQuery.Filter (segments isName isFree isPlain Callable vocabulary) in
/-- The trees that both filters and closures are written for. The length of a member is no member of it. -/
inductive Shared : Expr → Prop where
  | member {path : String} (hi : (segments path).all isIdentifier = true) (hn : (segments path).all isName = true)
    (hf : (segments path).head?.any isFree = true)
    (hl : (segments path).getLast? = some "length" → (segments path).length = 1) : Shared (.member path)
  | literal {value : Value} (hv : isPlain value = true) (hm : value ≠ .int Int64.minValue) : Shared (.literal value)
  | arithmetic {op : ArithmeticOp} {left right : Expr} (ho : op ≠ .bit) (hl : Shared left) (hr : Shared right) :
    Shared (.arithmetic op left right)
  | comparison {op : ComparisonOp} {left right : Expr} (ho : op ≠ .isIn ∧ op ≠ .notIn) (hl : Shared left)
    (hr : Shared right) : Shared (.comparison op left (some right))
  | chain {op : LogicalOp} {first second : Expr} {rest : List Expr} (ho : op = .and ∨ op = .or)
    (hf : first.absorbs op = false) (ha : ∀ e ∈ first :: second :: rest, Shared e) :
    Shared (.logical op (first :: second :: rest))
  | negation {arg : Expr} (ha : Shared arg) : Shared (.logical .not [arg])
  | call {c : Callable} {receiver : Expr} {args : List Expr} (hm : c ∈ vocabulary)
    (hc : c.arity.admits (args.length + 1) = true) (hr : isReceiver receiver = true)
    (ha : ∀ e ∈ receiver :: args, Shared e) : Shared (.call c.name (receiver :: args))

theorem Shared.printable {e : Expr} (h : Shared e) : Filter.Printable e := by
  induction h with
  | member hi hn hf hl => exact .member hn hf
  | literal hv hm => exact .literal hv
  | arithmetic ho _ _ ihl ihr => exact .arithmetic ho ihl ihr
  | comparison ho _ _ ihl ihr => exact .comparison ho ihl ihr
  | chain ho hf _ iha => exact .chain ho hf iha
  | negation _ iha => exact .negation iha
  | call hm hc _ _ iha => exact .call hm hc iha

end SqlQuery.Closure
