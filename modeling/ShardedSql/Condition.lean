import ShardedSql.Constraint
import ShardedSql.Text.Case

/-!
The conditions a statement puts on sharding columns: alternatives, each of which constrains some
columns. -/

namespace ShardedSql

structure ColumnConstraint where
  table : String
  column : String
  constraint : Constraint
  deriving DecidableEq

/-- One alternative: all its constraints hold together. -/
structure Condition where
  entries : List ColumnConstraint
  deriving DecidableEq

namespace Condition

def find? (c : Condition) (table column : String) : Option ColumnConstraint :=
  c.entries.find? fun e => Text.sameName e.table table && Text.sameName e.column column

def ofTable (c : Condition) (table : String) : List ColumnConstraint :=
  c.entries.filter fun e => Text.sameName e.table table

end Condition

/-- The alternatives of a statement. Without any it is unconstrained, unless it is known that no row
can satisfy it. -/
structure Conditions where
  alternatives : List Condition
  alwaysFalse : Bool
  mergeRequested : Bool
  deriving DecidableEq

namespace Conditions

def unconstrained : Conditions := ⟨[], false, false⟩

def of (alternatives : List Condition) (mergeRequested : Bool) : Conditions :=
  ⟨alternatives, false, mergeRequested⟩

def contradiction : Conditions := ⟨[], true, false⟩

def isEmpty (c : Conditions) : Bool := c.alternatives.isEmpty

def needsMerge (c : Conditions) : Bool := c.mergeRequested && c.alternatives.length > 1

/-- Drops the alternatives that repeat an earlier one. -/
def merge (c : Conditions) : Conditions := { c with alternatives := distinct c.alternatives }

end Conditions

end ShardedSql
