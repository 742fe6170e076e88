import SqlQuery.Text.CharClass

/-!
# Methods

The operators that a call or a computed field stands for. Filters, closures and fields spell them
differently, so that `tolower`, `toLowerCase` and `to_lowercase` are all `toLower`; each way to
spell them is a table here.
-/

namespace SqlQuery

/-- An operator that is applied to a value and further arguments. -/
inductive Method where
  | count | min | max | sum | avg
  | dayOfMonth | date | dayOfWeek | month | year | hour | minute | second
  | length | trim | toLower | toUpper | substr | indexOfBytes | concat
  | startsWith | endsWith | contains
  | floor | ceil | round
  | add | subtract | multiply | divide | mod | bit
  deriving DecidableEq, Repr

/-- The part of a moment that a date method takes. -/
inductive DatePart where
  | day | weekday | month | year | hour | minute | second | date
  deriving DecidableEq, Repr

namespace Method

def name : Method → String
  | .count => "count"
  | .min => "min"
  | .max => "max"
  | .sum => "sum"
  | .avg => "avg"
  | .dayOfMonth => "dayOfMonth"
  | .date => "date"
  | .dayOfWeek => "dayOfWeek"
  | .month => "month"
  | .year => "year"
  | .hour => "hour"
  | .minute => "minute"
  | .second => "second"
  | .length => "length"
  | .trim => "trim"
  | .toLower => "toLower"
  | .toUpper => "toUpper"
  | .substr => "substr"
  | .indexOfBytes => "indexOfBytes"
  | .concat => "concat"
  | .startsWith => "startsWith"
  | .endsWith => "endsWith"
  | .contains => "contains"
  | .floor => "floor"
  | .ceil => "ceil"
  | .round => "round"
  | .add => "add"
  | .subtract => "subtract"
  | .multiply => "multiply"
  | .divide => "divide"
  | .mod => "mod"
  | .bit => "bit"

def key (m : Method) : String := "$" ++ m.name

def all : List Method :=
  [.count, .min, .max, .sum, .avg, .dayOfMonth, .date, .dayOfWeek, .month, .year, .hour, .minute,
   .second, .length, .trim, .toLower, .toUpper, .substr, .indexOfBytes, .concat, .startsWith,
   .endsWith, .contains, .floor, .ceil, .round, .add, .subtract, .multiply, .divide, .mod, .bit]

def ofKey? (key : String) : Option Method := all.find? fun m => m.key = key

/-- Methods that make one value of many rows. -/
def isAggregate : Method → Bool
  | .count | .min | .max | .sum | .avg => true
  | _ => false

def datePart? : Method → Option DatePart
  | .dayOfMonth => some .day
  | .dayOfWeek => some .weekday
  | .month => some .month
  | .year => some .year
  | .hour => some .hour
  | .minute => some .minute
  | .second => some .second
  | .date => some .date
  | _ => none

/-- Methods that take no argument besides the value they are applied to. -/
def isUnary : Method → Bool
  | .length | .trim | .toLower | .toUpper | .floor | .ceil => true
  | m => m.isAggregate || m.datePart?.isSome

/-- Names of methods in filters, in lower case. -/
def filterNames : List (String × Method) :=
  [("startswith", .startsWith), ("endswith", .endsWith), ("contains", .contains),
   ("substringof", .contains), ("length", .length), ("indexof", .indexOfBytes),
   ("substring", .substr), ("tolower", .toLower), ("toupper", .toUpper), ("trim", .trim),
   ("concat", .concat), ("year", .year), ("month", .month), ("day", .dayOfMonth), ("hour", .hour),
   ("minute", .minute), ("second", .second), ("date", .date), ("round", .round), ("floor", .floor),
   ("ceiling", .ceil), ("count", .count), ("min", .min), ("max", .max), ("sum", .sum), ("avg", .avg),
   ("average", .avg)]

/-- The method of a name in a filter, in any case. -/
def ofFilterName? (name : String) : Option Method := filterNames.lookup (Text.lowerCase name)

/-- Names of functions in closures; a dot divides a qualified name. -/
def functionNames : List (String × Method) :=
  [("floor", .floor), ("Math.floor", .floor), ("f64.floor", .floor), ("ceil", .ceil),
   ("Math.ceil", .ceil), ("f64.ceil", .ceil), ("round", .round), ("Math.round", .round),
   ("f64.round", .round), ("min", .min), ("Math.min", .min), ("max", .max), ("Math.max", .max),
   ("count", .count), ("sum", .sum), ("avg", .avg), ("average", .avg), ("mean", .avg), ("add", .add),
   ("subtract", .subtract), ("multiply", .multiply), ("divide", .divide), ("mod", .mod),
   ("bitAnd", .bit), ("bit_and", .bit), ("concat", .concat)]

def ofFunction? (name : String) : Option Method := functionNames.lookup name

/-- Names of methods that closures call on a value. -/
def instanceNames : List (String × Method) :=
  [("getDate", .dayOfMonth), ("get_date", .dayOfMonth), ("day", .dayOfMonth),
   ("getDay", .dayOfWeek), ("get_day", .dayOfWeek), ("weekday", .dayOfWeek),
   ("getMonth", .month), ("get_month", .month), ("month", .month),
   ("getFullYear", .year), ("getYear", .year), ("get_full_year", .year), ("get_year", .year),
   ("year", .year),
   ("getHours", .hour), ("get_hours", .hour), ("hour", .hour),
   ("getMinutes", .minute), ("get_minutes", .minute), ("minute", .minute),
   ("getSeconds", .second), ("get_seconds", .second), ("second", .second),
   ("toDate", .date), ("to_date", .date), ("date", .date),
   ("toLowerCase", .toLower), ("toLocaleLowerCase", .toLower), ("to_lowercase", .toLower),
   ("to_lower_case", .toLower),
   ("toUpperCase", .toUpper), ("toLocaleUpperCase", .toUpper), ("to_uppercase", .toUpper),
   ("to_upper_case", .toUpper),
   ("trim", .trim), ("length", .length), ("len", .length), ("substring", .substr), ("substr", .substr),
   ("indexOf", .indexOfBytes), ("index_of", .indexOfBytes), ("find", .indexOfBytes),
   ("concat", .concat), ("startsWith", .startsWith), ("starts_with", .startsWith),
   ("endsWith", .endsWith), ("ends_with", .endsWith), ("includes", .contains),
   ("contains", .contains), ("floor", .floor), ("ceil", .ceil), ("round", .round)]

def ofInstanceName? (name : String) : Option Method := instanceNames.lookup name

/-- Names that are understood after any qualification. -/
def fallbackNames : List (String × Method) :=
  [("count", .count), ("round", .round), ("floor", .floor), ("ceil", .ceil), ("mod", .mod),
   ("add", .add), ("subtract", .subtract), ("multiply", .multiply), ("divide", .divide),
   ("bitAnd", .bit), ("mean", .avg), ("avg", .avg), ("average", .avg), ("sum", .sum), ("min", .min),
   ("max", .max)]

/-- The method of the last segment of a name that is found nowhere else. -/
def ofFallback? (name : String) : Option Method := fallbackNames.lookup name

end Method

end SqlQuery
