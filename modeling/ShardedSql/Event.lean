/-!
What the kernel reports while it works. -/

namespace ShardedSql

structure ActualSql where
  dataSource : String
  sql : String
  params : List String
  deriving DecidableEq

inductive Event where
  | routeCompleted (database : String) (routeUnits : Nat) (dataSources : List String)
  | sqlShow (logicSql : String) (dataSources : List String) (actual : List ActualSql)
  | executionInterrupted (processId : String) (groupIndex : Nat)
  | executionFailed (processId : String) (error : String)
  | processCancelled (processId : String)
  deriving DecidableEq

def Event.name : Event → String
  | .routeCompleted .. => "route_completed"
  | .sqlShow .. => "sql_show"
  | .executionInterrupted .. => "execution_interrupted"
  | .executionFailed .. => "execution_failed"
  | .processCancelled _ => "process_cancelled"

end ShardedSql
