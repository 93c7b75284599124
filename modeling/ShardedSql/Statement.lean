import ShardedSql.Value

/-!
The parsed form of a statement, as far as routing and rendering look at it. -/

namespace ShardedSql

inductive StatementKind where
  | select | insert | update | delete | ddl | other
  deriving DecidableEq

namespace StatementKind

def isDml : StatementKind → Bool
  | select | insert | update | delete => true
  | ddl | other => false

def isWrite : StatementKind → Bool
  | insert | update | delete => true
  | select | ddl | other => false

def keyword : StatementKind → String
  | select => "SELECT"
  | insert => "INSERT"
  | update => "UPDATE"
  | delete => "DELETE"
  | ddl => "DDL"
  | other => "OTHER"

end StatementKind

/-- A value written in the statement, or the index of a bound parameter. -/
inductive Operand where
  | literal (v : Value)
  | parameter (index : Nat)
  deriving DecidableEq

inductive Comparison where
  | equal (o : Operand)
  | oneOf (os : List Operand)
  | between (lower upper : Operand)
  | lessThan (o : Operand)
  | atMost (o : Operand)
  | greaterThan (o : Operand)
  | atLeast (o : Operand)
  deriving DecidableEq

structure Predicate where
  table : String
  column : String
  comparison : Comparison
  deriving DecidableEq

structure InsertData where
  table : String
  columns : List String
  rows : List (List Operand)
  deriving DecidableEq

structure Features where
  subquery : Bool
  join : Bool
  orderBy : Bool
  pagination : Bool
  lock : Bool
  deriving DecidableEq

def Features.none : Features := ⟨false, false, false, false, false⟩

def Features.isPlain (f : Features) : Bool :=
  !(f.subquery || f.join || f.orderBy || f.pagination || f.lock)

/-- The `WHERE` clause is a list of alternatives, each a list of predicates that hold together. -/
structure Statement where
  kind : StatementKind
  tables : List String
  groups : List (List Predicate)
  insert : Option InsertData
  features : Features
  dollarMarkers : Bool
  cursor : Bool
  deriving DecidableEq

namespace Statement

def of (kind : StatementKind) (tables : List String) : Statement :=
  ⟨kind, tables, [], none, .none, false, false⟩

def ofInsert (data : InsertData) : Statement :=
  { of .insert [data.table] with insert := some data }

def withGroup (s : Statement) (group : List Predicate) : Statement :=
  { s with groups := s.groups ++ [group] }

/-- Whether the rows the statement is about matter for where it goes. -/
def needsConditions (s : Statement) : Bool := s.kind.isDml || s.cursor

end Statement

end ShardedSql
