import ShardedSql.Grouping
import ShardedSql.Rule.Strategy
import ShardedSql.Template.Declaration

/-!
The rule of one sharded table: its data nodes, and how they are chosen. -/

namespace ShardedSql

/-- What is wrong with the data nodes of a table. -/
inductive NodesFault where
  | noNodes
  | badExpression (e : ExprError)
  | notANode (entry : String)
  deriving DecidableEq

def NodesFault.reason : NodesFault → String
  | noNodes => "no data nodes"
  | badExpression e => e.message
  | notANode entry => "\x60" ++ entry ++ "\x60 is not data_source.table"

inductive RuleError where
  | invalidDataNodes (table : String) (fault : NodesFault)
  | unknownTable (table : String)
  deriving DecidableEq

def RuleError.message : RuleError → String
  | invalidDataNodes table fault =>
    "table \x60" ++ table ++ "\x60 has invalid actual data nodes: " ++ fault.reason
  | unknownTable table => "table \x60" ++ table ++ "\x60 has no sharding table rule"

/-- Rows without a value in `column` take a key of the named generator. -/
structure KeyStrategy where
  column : String
  generator : String
  deriving DecidableEq

/-- Where a strategy is missing the default of the whole rule counts. -/
structure TableRule where
  logicTable : String
  nodes : List DataNode
  databaseStrategy : Option Strategy
  tableStrategy : Option Strategy
  keyStrategy : Option KeyStrategy
  nodes_ne_nil : nodes ≠ []

namespace TableRule

def ofNodes (table : String) (nodes : List DataNode) : Except RuleError TableRule :=
  if h : nodes = [] then .error (.invalidDataNodes table .noNodes)
  else .ok ⟨table, nodes, none, none, none, h⟩

def node (table entry : String) : Except RuleError DataNode :=
  match DataNode.parse? entry with
  | some n => .ok n
  | none => .error (.invalidDataNodes table (.notANode entry))

/-- The nodes a declaration list stands for, each once. -/
def ofExpression (table expression : String) : Except RuleError TableRule :=
  match Declaration.expand .none expression with
  | .error e => .error (.invalidDataNodes table (.badExpression e))
  | .ok entries => do ofNodes table (distinctOn DataNode.text (← entries.mapM (node table)))

/-- The data sources in the order of their first nodes. -/
def dataSources (r : TableRule) : List String := distinctOn id (r.nodes.map (·.dataSource))

/-- The actual tables on a data source. -/
def tablesOn (r : TableRule) (dataSource : String) : List String :=
  (r.nodes.filter fun n => Text.sameName n.dataSource dataSource).map (·.table)

/-- The place of an actual table among those of a data source. -/
def indexOn? (r : TableRule) (dataSource table : String) : Option Nat :=
  (r.tablesOn dataSource).findIdx? fun t => Text.sameName t table

end TableRule

end ShardedSql
