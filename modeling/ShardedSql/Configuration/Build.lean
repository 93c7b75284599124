import ShardedSql.Configuration.Basic
import ShardedSql.Configuration.Error

/-!
What a configuration comes to: its references are resolved and its algorithms built, in a fixed
order, and the first fault ends it. -/

namespace ShardedSql

/-- Everything that statements are processed with. -/
structure Deployment where
  props : KernelProps
  topology : Topology
  rule : ShardingRule
  readwrite : Option ReadwriteRule
  conversion : Conversion

namespace Deployment

def router (r : Deployment) : ShardingRouter := ⟨r.rule, [.dml r.rule]⟩

def routers (r : Deployment) : List (Router RoutingState) :=
  .ofSharding r.router 0 :: (r.readwrite.map Router.ofReadwrite).toList

def kernel (r : Deployment) : Kernel RoutingState := ⟨r.routers, r.conversion, r.props⟩

/-- The routing state before the first statement, with the given number of caches. -/
def initialRouting (rule : ShardingRule) (routers : Nat) : RoutingState :=
  ⟨rule.generators, List.replicate routers (rule.cache.map RouteCache.empty), ∅⟩

end Deployment

namespace Configuration

variable {α : Type}

def fault (f : ConfigFault) : Except ConfigFault α := .error f

def guarded (ok : Bool) (f : ConfigFault) : Except ConfigFault Unit := if ok then .ok () else fault f

def unit (e : String × Dialect) : Except ConfigFault Unit :=
  guarded (!Text.blank e.1 && !e.1.toList.contains '.') (.badUnitName e.1)

def topology (d : DatabaseSpec) : Except ConfigFault Topology := do
  guarded (!Text.blank d.name) .blankDatabaseName
  guarded (!d.units.isEmpty) .noStorageUnits
  d.units.entries.forM unit
  .ok ⟨Text.trim d.name, d.units⟩

/-- A group whose name is none of the earlier ones and whose units all exist. -/
def group (topology : Topology) (earlier : List String) (g : ReadwriteGroup) :
    Except ConfigFault (List String) := do
  let name := Text.trim g.name
  guarded (!name.isEmpty) .blankGroupName
  guarded (!earlier.contains (Text.lower name)) (.duplicateGroup name)
  (g.writeUnit :: g.readUnits).forM fun unit =>
    guarded (topology.contains unit) (.unknownGroupUnit name unit)
  .ok (Text.lower name :: earlier)

def readwriteRule (topology : Topology) (groups : List ReadwriteGroup) :
    Except ConfigFault (Option ReadwriteRule) := do
  if groups.isEmpty then return none
  let _ ← groups.foldlM (group topology) []
  .ok (some (.ofGroups groups))

/-- The lower-cased names a data node may be on: storage units and groups. -/
def logicalSources (topology : Topology) (readwrite : Option ReadwriteRule) : List String :=
  topology.names.map Text.lower ++
    ((readwrite.map ReadwriteRule.names).getD []).map Text.lower

/-- Builds the declared algorithms of a family, in the order of their names. -/
def buildNamed (constructors : NameMap (Constructor α)) (family : Family)
    (declared : NameMap AlgorithmSpec) : Except ConfigFault (NameMap α) := do
  let built ← declared.entries.mapM fun (name, spec) =>
    match Registry.construct constructors spec with
    | .ok a => .ok (name, a)
    | .error e => fault (.badAlgorithm family name e)
  .ok (.ofList built)

/-- The declared columns that are not blank; without any the default column, except for hints. -/
def columns (default : Option String) (declared : List String) (a : Algorithm) : List String :=
  let named := (declared.map Text.trim).filter (!·.isEmpty)
  match named, a with
  | [], .hint _ => []
  | [], _ => (default.map Text.trim).toList
  | named, _ => named

def strategy (default : Option String) (algorithms : NameMap Algorithm) (place : StrategyPlace)
    (s : StrategySpec) : Except ConfigFault Strategy :=
  match algorithms.get? s.algorithm with
  | none => fault (.unknownAlgorithm place s.algorithm)
  | some a =>
    match Strategy.build (columns default s.columns a) a with
    | .ok built => .ok built
    | .error e => fault (.badStrategy place e)

def strategy? (default : Option String) (algorithms : NameMap Algorithm) (place : StrategyPlace)
    (s : Option StrategySpec) : Except ConfigFault (Option Strategy) :=
  match s with
  | none => .ok none
  | some s => do .ok (some (← strategy default algorithms place s))

def keyStrategy (generators : NameMap KeyGenerator) (table : String) (s : Option KeyStrategy) :
    Except ConfigFault (Option KeyStrategy) :=
  match s with
  | none => .ok none
  | some s => do
    guarded (generators.contains s.generator) (.unknownKeyGenerator table s.generator)
    guarded (!Text.blank s.column) (.blankKeyColumn table)
    .ok (some ⟨Text.trim s.column, s.generator⟩)

def tableRule (spec : ShardingSpec) (algorithms : NameMap Algorithm)
    (generators : NameMap KeyGenerator) (sources : List String) (name : String) (t : TableSpec) :
    Except ConfigFault TableRule := do
  let rule ← match TableRule.ofExpression name t.nodes with
    | .ok rule => .ok rule
    | .error e => fault (.badTable name e)
  rule.dataSources.forM fun source =>
    guarded (sources.contains (Text.lower source)) (.unknownTableUnit name source)
  let database ← strategy? spec.defaultColumn algorithms (.database name) t.databaseStrategy
  let table ← strategy? spec.defaultColumn algorithms (.table name) t.tableStrategy
  let key ← keyStrategy generators name t.keyStrategy
  .ok { rule with databaseStrategy := database, tableStrategy := table, keyStrategy := key }

def bindingGroup (rule : ShardingRule) (tables : List String) : Except ConfigFault ShardingRule :=
  match rule.withBindingGroup tables with
  | .ok rule => .ok rule
  | .error e => fault (.badBinding e)

def broadcastTable (spec : ShardingSpec) (rule : ShardingRule) (table : String) :
    Except ConfigFault ShardingRule := do
  guarded (!spec.tables.names.any (Text.sameName · table)) (.shardedAndBroadcast table)
  .ok (rule.withBroadcastTable table)

def auditStrategy (spec : ShardingSpec) : Except ConfigFault AuditStrategy :=
  match spec.audit with
  | none => .ok ⟨[], true⟩
  | some s => do
    s.auditors.forM fun name => guarded (spec.auditors.contains name) (.unknownAuditor name)
    .ok s

def cacheOptions (options : Option CacheOptions) : Except ConfigFault (Option CacheOptions) := do
  guarded (options.all (·.maxSize != 0)) .emptyCache
  .ok options

def shardingRule (registry : Registry) (spec : ShardingSpec) (sources : List String) :
    Except ConfigFault ShardingRule := do
  let algorithms ← buildNamed registry.sharding .sharding spec.algorithms
  let generators ← buildNamed registry.keyGenerators .keyGenerator spec.keyGenerators
  let auditors ← buildNamed registry.auditors .auditor spec.auditors
  let tables ← spec.tables.entries.mapM fun (name, t) =>
    tableRule spec algorithms generators sources name t
  let rule := tables.foldl ShardingRule.withTable .empty
  let rule ← spec.bindingTables.foldlM bindingGroup rule
  let rule ← spec.broadcastTables.foldlM (broadcastTable spec) rule
  let database ←
    strategy? spec.defaultColumn algorithms .defaultDatabase spec.defaultDatabaseStrategy
  let table ← strategy? spec.defaultColumn algorithms .defaultTable spec.defaultTableStrategy
  let audit ← auditStrategy spec
  let cache ← cacheOptions spec.cache
  .ok { rule with
    defaultDatabaseStrategy := database.getD .everywhere
    defaultTableStrategy := table.getD .everywhere
    generators := generators
    auditors := auditors
    audit := audit
    cache := cache }

def buildWith (registry : Registry) (c : Configuration) : Except ConfigFault Deployment := do
  guarded (c.props.maxConnections != 0) .noConnections
  let topology ← topology c.database
  let readwrite ← readwriteRule topology c.readwriteGroups
  let rule ← shardingRule registry c.sharding (logicalSources topology readwrite)
  .ok ⟨c.props, topology, rule, readwrite, .builtin c.database.frontend⟩

def build (c : Configuration) : Except ConfigError Deployment :=
  match c.buildWith .builtin with
  | .ok r => .ok r
  | .error f => .error (.invalid f)

end Configuration

end ShardedSql
