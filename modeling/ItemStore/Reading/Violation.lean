/-
  What is wrong with a setting or an option: the place of the value and the rule it breaks.
-/

namespace ItemStore

/-- A rule that a value breaks. -/
inductive Rule where
  | boolParsing
  | boolType
  | intParsing
  | intParsingSize
  | intFromFloat
  | finiteNumber
  | intType
  | floatParsing
  | floatType
  | stringType
  | stringUnicode
  | dictType
  | listType
  | callableType
  | literal
  | choice
  | greaterThan
  | greaterThanEqual
  | lessThanEqual
  | noSuchAttribute
  | worded (text : String)
  deriving DecidableEq, Repr

/-- The code of a rule. -/
def Rule.code : Rule → String
  | boolParsing => "bool_parsing"
  | boolType => "bool_type"
  | intParsing => "int_parsing"
  | intParsingSize => "int_parsing_size"
  | intFromFloat => "int_from_float"
  | finiteNumber => "finite_number"
  | intType => "int_type"
  | floatParsing => "float_parsing"
  | floatType => "float_type"
  | stringType => "string_type"
  | stringUnicode => "string_unicode"
  | dictType => "dict_type"
  | listType => "list_type"
  | callableType => "callable_type"
  | literal => "literal_error"
  | choice => "enum"
  | greaterThan => "greater_than"
  | greaterThanEqual => "greater_than_equal"
  | lessThanEqual => "less_than_equal"
  | noSuchAttribute => "no_such_attribute"
  | worded _ => "value_error"

/-- The text of a rule that has one of its own. -/
def Rule.text? : Rule → Option String
  | worded text => some text
  | _ => none

/-- A broken rule and the place where it is broken. -/
structure Violation where
  place : List String
  rule : Rule
  deriving DecidableEq, Repr

end ItemStore
