import ShardedSql.Expr.Error

/-!
Why an algorithm cannot be built from its declaration. -/

namespace ShardedSql

/-- What is wrong with a declaration. -/
inductive InitFault where
  | required (option : String)
  | notBoolean (option : String)
  | notPositive (option : String)
  | notInteger (option : String)
  | badExpression (option : String) (e : ExprError)
  | notOneColumn (count : Nat)
  | noColumn
  | other (reason : String)
  deriving DecidableEq

def InitFault.reason : InitFault → String
  | required option => "\x60" ++ option ++ "\x60 is required"
  | notBoolean option => "\x60" ++ option ++ "\x60 must be true or false"
  | notPositive option => "\x60" ++ option ++ "\x60 must be a positive integer"
  | notInteger option => "\x60" ++ option ++ "\x60 must be an integer"
  | badExpression option e => "invalid \x60" ++ option ++ "\x60: " ++ e.message
  | notOneColumn count => "expected exactly one sharding column, got " ++ toString count
  | noColumn => "at least one sharding column is required"
  | other reason => reason

inductive AlgorithmError where
  | initialization (algorithm : String) (fault : InitFault)
  | unknownType (name : String)
  | duplicateType (name : String)
  deriving DecidableEq

def AlgorithmError.message : AlgorithmError → String
  | initialization algorithm fault =>
    "algorithm \x60" ++ algorithm ++ "\x60 initialization failed: " ++ fault.reason
  | unknownType name => "unknown algorithm type \x60" ++ name ++ "\x60"
  | duplicateType name => "algorithm type \x60" ++ name ++ "\x60 is already registered"

end ShardedSql
