import ShardedSql.Algorithm.Registry
import ShardedSql.Kernel
import ShardedSql.Route.Readwrite
import ShardedSql.Rule.Basic
import ShardedSql.Topology

/-!
A configuration as it is declared, before anything in it is checked against anything else. -/

namespace ShardedSql

structure StrategySpec where
  columns : List String
  algorithm : String

structure TableSpec where
  nodes : String
  databaseStrategy : Option StrategySpec
  tableStrategy : Option StrategySpec
  keyStrategy : Option KeyStrategy

structure ShardingSpec where
  tables : NameMap TableSpec
  bindingTables : List (List String)
  broadcastTables : List String
  defaultDatabaseStrategy : Option StrategySpec
  defaultTableStrategy : Option StrategySpec
  defaultColumn : Option String
  algorithms : NameMap AlgorithmSpec
  keyGenerators : NameMap AlgorithmSpec
  auditors : NameMap AlgorithmSpec
  audit : Option AuditStrategy
  cache : Option CacheOptions

def ShardingSpec.empty : ShardingSpec := ⟨∅, [], [], none, none, none, ∅, ∅, ∅, none, none⟩

structure DatabaseSpec where
  name : String
  frontend : Dialect
  units : NameMap Dialect

def DatabaseSpec.empty : DatabaseSpec := ⟨"logic_db", .mySql, ∅⟩

structure Configuration where
  props : KernelProps
  database : DatabaseSpec
  sharding : ShardingSpec
  readwriteGroups : List ReadwriteGroup

def Configuration.empty : Configuration := ⟨.default, .empty, .empty, []⟩

end ShardedSql
