import ShardedSql.Execution.Executor
import ShardedSql.Execution.Preparation
import ShardedSql.Rule.Basic

/-!
Executing a query: it is a process from before its connections are asked for until it ends, and
every group first looks whether the process was cancelled. -/

namespace ShardedSql

/-- How queries are executed on connections of type `C`. -/
structure Driver (ω C : Type) where
  provider : Provider ω C
  budget : Nat
  decorators : List (Decorator C)
  mode : Mode
  rule : Option ShardingRule

namespace Driver

variable {ω C β : Type}

/-- A callback that a cancelled process does not reach. -/
def cancellable {α : Type} (processId : String) (callback : Callback ω α β) : Callback ω α β :=
  fun group own => do
    match ← Session.check processId with
    | .error e => pure (.failed e)
    | .ok () => callback group own

/-- Prepares and executes a query whose process is registered. -/
def runRegistered (d : Driver ω C) (context : ExecutionContext) (report : Report)
    (callback : Callback ω (BoundUnit C) β) :
    ExceptT ExecutionError (StateM (Session ω)) (List β) := do
  let prepared ← Preparation.prepare d.provider d.budget d.decorators context.route context.units
    report
  Executor.execute d.mode prepared none (cancellable report.processId callback)

/-- The process completes whether the query succeeds or fails. -/
def run (d : Driver ω C) (context : ExecutionContext) (database : String)
    (callback : Callback ω (BoundUnit C) β) :
    ExceptT ExecutionError (StateM (Session ω)) (List β) := .mk do
  let id ← Session.add database context.query.sql
  let result ← (d.runRegistered context ⟨id, database⟩ callback).run
  Session.complete id
  pure result

/-- All outputs of a query. -/
def query (d : Driver ω C) (context : ExecutionContext) (database : String)
    (callback : Callback ω (BoundUnit C) β) :
    ExceptT ExecutionError (StateM (Session ω)) (List β) := d.run context database callback

/-- The greatest count of affected rows. -/
def maxCount : Nat := UInt64.size - 1

/-- Whether the counts of the units add up: they do when rows of sharded tables are affected, while
every unit on other tables affects the same rows. -/
def accumulates (d : Driver ω C) (context : ExecutionContext) : Bool :=
  d.rule.any fun rule => !(rule.shardingTables context.query.statement.tables).isEmpty

/-- The affected rows. -/
def update (d : Driver ω C) (context : ExecutionContext) (database : String)
    (callback : Callback ω (BoundUnit C) Nat) :
    ExceptT ExecutionError (StateM (Session ω)) Nat := do
  let counts ← d.run context database callback
  pure (if d.accumulates context then counts.foldl (fun sum n => min (sum + n) maxCount) 0
    else counts.headD 0)

/-- Whether the first unit has a result set. -/
def execute (d : Driver ω C) (context : ExecutionContext) (database : String)
    (callback : Callback ω (BoundUnit C) Bool) :
    ExceptT ExecutionError (StateM (Session ω)) Bool := do
  pure ((← d.run context database callback).headD false)

end Driver

end ShardedSql
