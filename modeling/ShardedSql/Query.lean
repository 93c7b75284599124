import ShardedSql.NameMap
import ShardedSql.Statement
import ShardedSql.Text.Case

/-!
A statement with its text, its bound parameters and the hints that come with it. -/

namespace ShardedSql

/-- Sharding values are kept under the lower-cased names of their tables. -/
structure Hint where
  dataSource : Option String
  writeRouteOnly : Bool
  databaseValues : NameMap (List Value)
  tableValues : NameMap (List Value)
  disabledAuditors : List String

namespace Hint

def none : Hint := ⟨.none, false, ∅, ∅, []⟩

def appendValue (m : NameMap (List Value)) (table : String) (v : Value) : NameMap (List Value) :=
  m.insert (Text.lower table) ((m.get? (Text.lower table)).getD [] ++ [v])

def withDatabaseValue (h : Hint) (table : String) (v : Value) : Hint :=
  { h with databaseValues := appendValue h.databaseValues table v }

def withTableValue (h : Hint) (table : String) (v : Value) : Hint :=
  { h with tableValues := appendValue h.tableValues table v }

def withDisabledAuditor (h : Hint) (name : String) : Hint :=
  { h with disabledAuditors := sortNames (name :: h.disabledAuditors) }

def databaseValuesOf (h : Hint) (table : String) : Option (List Value) :=
  h.databaseValues.get? (Text.lower table)

def tableValuesOf (h : Hint) (table : String) : Option (List Value) :=
  h.tableValues.get? (Text.lower table)

def hasRouting (h : Hint) : Bool :=
  h.writeRouteOnly || h.dataSource.isSome || !h.databaseValues.isEmpty || !h.tableValues.isEmpty

end Hint

structure Query where
  sql : String
  statement : Statement
  params : List Value
  hint : Hint

end ShardedSql
