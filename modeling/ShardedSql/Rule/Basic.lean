import ShardedSql.Algorithm.Audit
import ShardedSql.Algorithm.KeyGenerator
import ShardedSql.Rule.Table

/-!
The sharding rule: the sharded tables, which of them are bound together, the tables that are the
same everywhere, and the defaults. Tables are known by their lower-cased names. -/

namespace ShardedSql

structure AuditStrategy where
  auditors : List String
  allowHintDisable : Bool
  deriving DecidableEq

structure CacheOptions where
  maxSqlLength : Nat
  maxSize : Nat
  deriving DecidableEq

def CacheOptions.default : CacheOptions := ⟨512, 262144⟩

/-- Declared data source names take the place of those of the data nodes. -/
structure ShardingRule where
  declaredSources : List String
  tables : NameMap TableRule
  bindingGroups : List (List String)
  broadcastTables : List String
  defaultDatabaseStrategy : Strategy
  defaultTableStrategy : Strategy
  generators : KeyCounters
  auditors : NameMap Auditor
  audit : AuditStrategy
  cache : Option CacheOptions
  keyed : ∀ e ∈ tables.entries, e.1 = Text.lower e.2.logicTable

namespace ShardingRule

def empty : ShardingRule :=
  ⟨[], ∅, [], [], .everywhere, .everywhere, ∅, ∅, ⟨[], true⟩, none, fun _ h => nomatch h⟩

def withTable (r : ShardingRule) (t : TableRule) : ShardingRule :=
  { r with
    tables := r.tables.insert (Text.lower t.logicTable) t
    keyed := fun e h => by
      rcases NameMap.mem_place h with rfl | h
      · rfl
      · exact r.keyed e h }

def bindingKey (r : ShardingRule) (table : String) : Except RuleError String :=
  if r.tables.contains (Text.lower table) then .ok (Text.lower table)
  else .error (.unknownTable table)

/-- Adds a group of tables that are sharded alike; each needs a rule. -/
def withBindingGroup (r : ShardingRule) (tables : List String) : Except RuleError ShardingRule := do
  let group ← tables.mapM r.bindingKey
  .ok { r with bindingGroups := r.bindingGroups ++ [distinct group] }

def withBroadcastTable (r : ShardingRule) (table : String) : ShardingRule :=
  { r with broadcastTables := Text.lower table :: r.broadcastTables }

def dataSources (r : ShardingRule) : List String :=
  if r.declaredSources.isEmpty then distinct (r.tables.values.flatMap (·.dataSources))
  else r.declaredSources

def table? (r : ShardingRule) (table : String) : Option TableRule :=
  r.tables.get? (Text.lower table)

def isSharding (r : ShardingRule) (table : String) : Bool := (r.table? table).isSome

def isBroadcast (r : ShardingRule) (table : String) : Bool :=
  r.broadcastTables.contains (Text.lower table)

def allBroadcast (r : ShardingRule) (tables : List String) : Bool :=
  !tables.isEmpty && tables.all r.isBroadcast

/-- The sharded ones of the tables, each once. -/
def shardingTables (r : ShardingRule) (tables : List String) : List String :=
  distinctBy Text.sameName (tables.filter r.isSharding)

def databaseStrategy (r : ShardingRule) (t : TableRule) : Strategy :=
  t.databaseStrategy.getD r.defaultDatabaseStrategy

def tableStrategy (r : ShardingRule) (t : TableRule) : Strategy :=
  t.tableStrategy.getD r.defaultTableStrategy

def isShardingColumn (r : ShardingRule) (table column : String) : Bool :=
  (r.table? table).any fun t =>
    ((r.databaseStrategy t).columns ++ (r.tableStrategy t).columns).any (Text.sameName · column)

def bindingGroup? (r : ShardingRule) (table : String) : Option (List String) :=
  r.bindingGroups.find? (·.contains (Text.lower table))

/-- Whether all tables are in the group of the first one. -/
def allBinding (r : ShardingRule) (tables : List String) : Bool :=
  match tables with
  | [] => false
  | first :: _ =>
    (r.bindingGroup? first).any fun group => tables.all fun t => group.contains (Text.lower t)

/-- The actual table of `partner` at the place that `actual` has among those of `lead`. -/
def partnerTable? (r : ShardingRule) (dataSource lead actual partner : String) : Option String := do
  let index ← (← r.table? lead).indexOn? dataSource actual
  ((← r.table? partner).tablesOn dataSource)[index]?

/-- The auditors that the hint does not, or may not, disable. -/
def activeAuditors (r : ShardingRule) (hint : Hint) : List (String × Auditor) :=
  (r.audit.auditors.filter fun name =>
    !(r.audit.allowHintDisable && hint.disabledAuditors.contains name)).filterMap fun name =>
      (r.auditors.get? name).map (name, ·)

end ShardingRule

end ShardedSql
