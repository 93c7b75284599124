import ShardedSql.Expr.Error
import ShardedSql.Statement
import ShardedSql.Topology

/-!
Why a statement cannot be routed. -/

namespace ShardedSql

/-- What a statement must not ask for. -/
inductive ValidationFault where
  | keyNotInteger (column : String)
  | rowNotOnOneNode (table : String) (count : Nat)
  | unpairedBinding (partner : String) (node : DataNode)
  | notOneBindingGroup (kind : StatementKind) (tables : List String)
  | limitOverUnits (kind : StatementKind) (count : Nat)
  deriving DecidableEq

def ValidationFault.reason : ValidationFault → String
  | keyNotInteger column => "MOD sharding key \x60" ++ column ++ "\x60 must be an integer"
  | rowNotOnOneNode table count =>
    "insert row on \x60" ++ table ++ "\x60 must route to exactly one data node, got "
      ++ toString count
  | unpairedBinding partner node =>
    "binding table \x60" ++ partner ++ "\x60 has no actual table paired with \x60" ++ node.text
      ++ "\x60"
  | notOneBindingGroup kind tables =>
    kind.keyword ++ " over multiple sharding tables " ++ ", ".intercalate tables
      ++ " requires one binding group"
  | limitOverUnits kind count =>
    kind.keyword ++ " with a row limit cannot span " ++ toString count ++ " route units"

inductive RouteError where
  | unknownHintTarget (name : String)
  | mismatchedColumnCount (expected actual : Nat)
  | nullShardingValue (column : String)
  | mismatchedExpression (source column : String)
  | unsupportedRangeQuery (algorithm : String)
  | parameterOutOfRange (index count : Nat)
  | unknownStorageUnit (name : String)
  | missingTableRule (table : String)
  | validation (fault : ValidationFault)
  /-- A statement without sharding conditions on the tables. -/
  | audit (tables : List String)
  | expression (e : ExprError)
  deriving DecidableEq

def RouteError.message : RouteError → String
  | unknownHintTarget name => "hint data source \x60" ++ name ++ "\x60 does not exist"
  | mismatchedColumnCount expected actual =>
    "sharding columns count " ++ toString expected ++ " does not match sharding values count "
      ++ toString actual
  | nullShardingValue column =>
    "sharding value for column \x60" ++ column ++ "\x60 cannot be null"
  | mismatchedExpression source column =>
    "inline expression \x60" ++ source ++ "\x60 does not match sharding column \x60" ++ column
      ++ "\x60"
  | unsupportedRangeQuery algorithm =>
    "range query is not supported by \x60" ++ algorithm
      ++ "\x60; enable allow-range-query-with-inline-sharding"
  | parameterOutOfRange index count =>
    "parameter index " ++ toString index ++ " out of range for " ++ toString count
      ++ " bound parameters"
  | unknownStorageUnit name => "storage unit \x60" ++ name ++ "\x60 is not registered"
  | missingTableRule table => "no sharding rule for table \x60" ++ table ++ "\x60"
  | validation fault => "statement validation failed: " ++ fault.reason
  | audit tables =>
    "sharding audit failed: not allow DML operation without sharding conditions on "
      ++ ", ".intercalate tables
  | expression e => "inline expression evaluation failed: " ++ e.message

end ShardedSql
