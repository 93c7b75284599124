import ShardedSql.Value

/-!
What can be wrong with an expression or a template. Positions are byte offsets. -/

namespace ShardedSql

/-- What the reader could have gone on with. -/
inductive Expectation where
  | lexeme
  | operand
  | colon
  | argumentsEnd
  | groupEnd
  | listEnd
  deriving DecidableEq

def Expectation.text : Expectation → String
  | .lexeme => "literal, identifier, or operator"
  | .operand => "literal, identifier, \x60(\x60, or \x60[\x60"
  | .colon => "\x60:\x60 in conditional expression"
  | .argumentsEnd => "\x60)\x60 after arguments"
  | .groupEnd => "\x60)\x60"
  | .listEnd => "\x60]\x60 after list"

/-- How many arguments a function takes. -/
inductive Arity where
  | one
  | twoOrThree
  deriving DecidableEq

def Arity.text : Arity → String
  | .one => "1"
  | .twoOrThree => "2 or 3"

inductive ExprError where
  | empty
  | tooLarge (limit actual : Nat)
  | tooDeep (limit position : Nat)
  | unexpected (expected : Expectation) (found : String) (position : Nat)
  | unterminatedString (position : Nat)
  | unterminatedPlaceholder (position : Nat)
  | invalidNumber (raw : String) (position : Nat)
  | trailing (position : Nat)
  | unknownVariable (name : String)
  | unknownFunction (name : String)
  | argumentCount (function : String) (expected : Arity) (actual : Nat)
  | typeMismatch (operation : String) (operands : List Value.Kind)
  | divisionByZero
  | overflow (operation : String)
  | notScalar
  | tooManyValues (limit : Nat)
  deriving DecidableEq

namespace ExprError

def message : ExprError → String
  | empty => "expression is empty"
  | tooLarge limit actual =>
    "expression exceeds size limit: " ++ toString actual ++ " bytes (max " ++ toString limit ++ ")"
  | tooDeep limit position =>
    "expression nesting exceeds limit " ++ toString limit ++ " at " ++ toString position
  | unexpected expected found position =>
    "unexpected token \x60" ++ found ++ "\x60 at " ++ toString position ++ ", expected "
      ++ expected.text
  | unterminatedString position =>
    "unterminated string literal starting at " ++ toString position
  | unterminatedPlaceholder position =>
    "unterminated \x60$\x7b\x60 placeholder starting at " ++ toString position
  | invalidNumber raw position => "invalid number \x60" ++ raw ++ "\x60 at " ++ toString position
  | trailing position => "unexpected trailing input at " ++ toString position
  | unknownVariable name => "unknown variable \x60" ++ name ++ "\x60"
  | unknownFunction name => "unknown function \x60" ++ name ++ "\x60"
  | argumentCount function expected actual =>
    "function \x60" ++ function ++ "\x60 expects " ++ expected.text ++ " argument(s), got "
      ++ toString actual
  | typeMismatch operation operands =>
    "cannot apply \x60" ++ operation ++ "\x60 to " ++ " and ".intercalate (operands.map (·.name))
  | divisionByZero => "division by zero"
  | overflow operation => "integer overflow in \x60" ++ operation ++ "\x60"
  | notScalar => "range or list used where a single value is required"
  | tooManyValues limit => "expansion exceeds " ++ toString limit ++ " values"

end ExprError

end ShardedSql
