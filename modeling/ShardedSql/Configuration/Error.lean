import ShardedSql.Algorithm.Error
import ShardedSql.Rule.Table

/-!
What is wrong with a configuration. -/

namespace ShardedSql

/-- The kinds of named algorithms. -/
inductive Family where
  | sharding | keyGenerator | auditor
  deriving DecidableEq

def Family.text : Family → String
  | sharding => "sharding algorithm"
  | keyGenerator => "key generator"
  | auditor => "auditor"

/-- The places a strategy is declared at. -/
inductive StrategyPlace where
  | database (name : String)
  | table (name : String)
  | defaultDatabase
  | defaultTable
  deriving DecidableEq

def StrategyPlace.field : StrategyPlace → String
  | database name => "sharding.tables." ++ name ++ ".database_strategy"
  | table name => "sharding.tables." ++ name ++ ".table_strategy"
  | defaultDatabase => "sharding.default_database_strategy"
  | defaultTable => "sharding.default_table_strategy"

inductive ConfigFault where
  | noConnections
  | blankDatabaseName
  | noStorageUnits
  | badUnitName (name : String)
  | blankGroupName
  | duplicateGroup (name : String)
  | unknownGroupUnit (group unit : String)
  | badAlgorithm (family : Family) (name : String) (e : AlgorithmError)
  | badTable (table : String) (e : RuleError)
  | unknownTableUnit (table unit : String)
  | unknownAlgorithm (place : StrategyPlace) (name : String)
  | badStrategy (place : StrategyPlace) (e : AlgorithmError)
  | unknownKeyGenerator (table name : String)
  | blankKeyColumn (table : String)
  | badBinding (e : RuleError)
  | shardedAndBroadcast (table : String)
  | unknownAuditor (name : String)
  | emptyCache
  | longPath
  | longPathComponent
  | fileTooLarge
  | notUtf8
  deriving DecidableEq

def ConfigFault.reason : ConfigFault → String
  | noConnections => "props.max_connections_size_per_query must be at least 1"
  | blankDatabaseName => "database.name must be non-empty"
  | noStorageUnits => "database.storage_units must declare at least one unit"
  | badUnitName name =>
    "storage unit name \x60" ++ name ++ "\x60 must be non-empty and contain no dots"
  | blankGroupName => "readwrite_splitting group name must be non-empty"
  | duplicateGroup name => "readwrite_splitting group \x60" ++ name ++ "\x60 is declared twice"
  | unknownGroupUnit group unit =>
    "readwrite_splitting group \x60" ++ group ++ "\x60 references unknown storage unit \x60"
      ++ unit ++ "\x60"
  | badAlgorithm family name e => family.text ++ " \x60" ++ name ++ "\x60: " ++ e.message
  | badTable table e => "sharding.tables." ++ table ++ ": " ++ e.message
  | unknownTableUnit table unit =>
    "sharding.tables." ++ table ++ " references unknown storage unit \x60" ++ unit ++ "\x60"
  | unknownAlgorithm place name =>
    place.field ++ " references unknown sharding algorithm \x60" ++ name ++ "\x60"
  | badStrategy place e => place.field ++ ": " ++ e.message
  | unknownKeyGenerator table name =>
    "sharding.tables." ++ table ++ " references unknown key generator \x60" ++ name ++ "\x60"
  | blankKeyColumn table =>
    "sharding.tables." ++ table ++ ".key_generate_strategy.column must be non-empty"
  | badBinding e => "sharding.binding_tables: " ++ e.message
  | shardedAndBroadcast table =>
    "table \x60" ++ table ++ "\x60 cannot be both sharded and broadcast"
  | unknownAuditor name =>
    "sharding.audit_strategy references unknown auditor \x60" ++ name ++ "\x60"
  | emptyCache => "sharding.cache.maximum_size must be at least 1"
  | longPath => "config path exceeds max length"
  | longPathComponent => "config path component too long"
  | fileTooLarge => "config file exceeds size limit"
  | notUtf8 => "config file must be utf-8"

inductive ConfigError where
  | io
  | parse
  | invalid (fault : ConfigFault)
  deriving DecidableEq

def ConfigError.message : ConfigError → String
  | io => "config io error"
  | parse => "config parse error"
  | invalid fault => "invalid config: " ++ fault.reason

end ShardedSql
