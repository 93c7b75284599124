import ShardedSql.Configuration.Basic
import ShardedSql.Toml.Parser

/-!
Reading a configuration from a document. Every record knows its fields and refuses others, except
that an algorithm and a group may carry more. A record may also be an array that starts with its
fields in order. -/

namespace ShardedSql.Configuration

/-- What is read may depend on the format of the document. -/
abbrev Decoding := ReaderT Document.Format Option

abbrev Decoder (α : Type) := Document → Decoding α

namespace Decode

variable {α : Type}

def str : Decoder String
  | .str s => pure s
  | _ => failure

def bool : Decoder Bool
  | .bool b => pure b
  | _ => failure

/-- A count below 2^64. -/
def count : Decoder Nat
  | .int n => if 0 ≤ n ∧ n < UInt64.size then pure n.toNat else failure
  | _ => failure

def list (item : Decoder α) : Decoder (List α)
  | .array ds => ds.mapM item
  | _ => failure

def map (item : Decoder α) : Decoder (NameMap α) := fun d => do
  let built ← (← d.entries?).mapM fun e => do pure (e.1, ← item e.2)
  pure (.ofList built)

/-- A choice is its name, or a table with one entry of that name that holds nothing. -/
def choice : Decoder String
  | .str s => pure s
  | .table [(name, d)] => do if (← read).isNothing d then pure name else failure
  | _ => failure

def dialect : Decoder Dialect := fun d => do Dialect.ofName? (← choice d)

/-- The fields of a record that are there. -/
abbrev Fields := List (String × Document)

/-- The fields of a record. Those it does not know are refused, unless it is open; then they are
passed over, but must be readable. -/
def fields (names : List String) (isOpen : Bool) : Decoder Fields
  | .array ds => do
    if ds.length ≤ names.length || (← read).allowsSurplus then pure (names.zip ds) else failure
  | d => do
    let es ← d.entries?
    if es.all fun e => names.contains e.1 || (isOpen && e.2.isReadable) then pure es else failure

def required (fs : Fields) (name : String) (item : Decoder α) : Decoding α := do
  item (← fs.lookup name)

/-- A field that is null counts as missing. -/
def optional (fs : Fields) (name : String) (item : Decoder α) : Decoding (Option α) :=
  match fs.lookup name with
  | none => pure none
  | some .null => pure none
  | some d => some <$> item d

/-- A field with a default may be missing, but not null. -/
def orElse (fs : Fields) (name : String) (item : Decoder α) (default : α) : Decoding α :=
  match fs.lookup name with
  | none => pure default
  | some d => item d

def props : Decoder KernelProps := fun d => do
  let fs ← fields ["max_connections_size_per_query", "kernel_executor_size", "sql_show",
    "sql_simple"] false d
  let default := KernelProps.default
  pure ⟨← orElse fs "max_connections_size_per_query" count default.maxConnections,
    ← orElse fs "kernel_executor_size" count default.executorSize,
    ← orElse fs "sql_show" bool default.sqlShow,
    ← orElse fs "sql_simple" bool default.sqlSimple⟩

def storageUnit : Decoder Dialect := fun d => do
  orElse (← fields ["dialect"] false d) "dialect" dialect .mySql

def database : Decoder DatabaseSpec := fun d => do
  let fs ← fields ["name", "frontend_dialect", "storage_units"] false d
  let empty := DatabaseSpec.empty
  pure ⟨← orElse fs "name" str empty.name, ← orElse fs "frontend_dialect" dialect empty.frontend,
    ← orElse fs "storage_units" (map storageUnit) ∅⟩

def algorithm : Decoder AlgorithmSpec := fun d => do
  let fs ← fields ["type", "props"] true d
  pure ⟨← required fs "type" str, ← orElse fs "props" (map str) ∅⟩

def strategy : Decoder StrategySpec := fun d => do
  let fs ← fields ["sharding_columns", "algorithm"] false d
  pure ⟨← orElse fs "sharding_columns" (list str) [], ← required fs "algorithm" str⟩

def keyStrategy : Decoder KeyStrategy := fun d => do
  let fs ← fields ["column", "key_generator"] false d
  pure ⟨← required fs "column" str, ← required fs "key_generator" str⟩

def table : Decoder TableSpec := fun d => do
  let fs ← fields ["actual_data_nodes", "database_strategy", "table_strategy",
    "key_generate_strategy"] false d
  pure ⟨← required fs "actual_data_nodes" str, ← optional fs "database_strategy" strategy,
    ← optional fs "table_strategy" strategy, ← optional fs "key_generate_strategy" keyStrategy⟩

def audit : Decoder AuditStrategy := fun d => do
  let fs ← fields ["auditor_names", "allow_hint_disable"] false d
  pure ⟨← orElse fs "auditor_names" (list str) [], ← orElse fs "allow_hint_disable" bool true⟩

def cache : Decoder CacheOptions := fun d => do
  let fs ← fields ["allowed_max_sql_length", "maximum_size"] false d
  pure ⟨← orElse fs "allowed_max_sql_length" count CacheOptions.default.maxSqlLength,
    ← orElse fs "maximum_size" count CacheOptions.default.maxSize⟩

def sharding : Decoder ShardingSpec := fun d => do
  let fs ← fields ["tables", "binding_tables", "broadcast_tables", "default_database_strategy",
    "default_table_strategy", "default_sharding_column", "sharding_algorithms", "key_generators",
    "auditors", "audit_strategy", "cache"] false d
  pure {
    tables := ← orElse fs "tables" (map table) ∅
    bindingTables := ← orElse fs "binding_tables" (list (list str)) []
    broadcastTables := ← orElse fs "broadcast_tables" (list str) []
    defaultDatabaseStrategy := ← optional fs "default_database_strategy" strategy
    defaultTableStrategy := ← optional fs "default_table_strategy" strategy
    defaultColumn := ← optional fs "default_sharding_column" str
    algorithms := ← orElse fs "sharding_algorithms" (map algorithm) ∅
    keyGenerators := ← orElse fs "key_generators" (map algorithm) ∅
    auditors := ← orElse fs "auditors" (map algorithm) ∅
    audit := ← optional fs "audit_strategy" audit
    cache := ← optional fs "cache" cache }

def balancer : Decoder LoadBalancer := fun d => do
  match ← choice d with
  | "FIRST" => pure .first
  | "ROUND_ROBIN" => pure .roundRobin
  | _ => failure

def group : Decoder ReadwriteGroup := fun d => do
  let fs ← fields ["name", "write_storage_unit", "read_storage_units", "load_balancer"] true d
  pure ⟨← required fs "name" str, ← required fs "write_storage_unit" str,
    ← required fs "read_storage_units" (list str), ← orElse fs "load_balancer" balancer .first⟩

def readwrite : Decoder (List ReadwriteGroup) := fun d => do
  orElse (← fields ["groups"] false d) "groups" (list group) []

end Decode

def decode : Decoder Configuration := fun d => do
  let fs ← Decode.fields ["props", "database", "sharding", "readwrite_splitting"] false d
  pure ⟨← Decode.orElse fs "props" Decode.props .default,
    ← Decode.orElse fs "database" Decode.database .empty,
    ← Decode.orElse fs "sharding" Decode.sharding .empty,
    ← Decode.orElse fs "readwrite_splitting" Decode.readwrite []⟩

/-- The configuration a document declares, if it has the right form. -/
def ofDocument? (format : Document.Format) (d : Document) : Option Configuration :=
  (decode d).run format

def ofText? (text : String) : Option Configuration := do ofDocument? .toml (← Toml.parse text)

end ShardedSql.Configuration
