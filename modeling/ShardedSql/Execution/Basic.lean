import ShardedSql.Query
import ShardedSql.Route.Basic

/-!
What is executed: the statements of a query on their data sources, and the groups they run in, each
on one connection. -/

namespace ShardedSql

structure ExecutionUnit where
  dataSource : String
  sql : String
  params : List Value
  tables : List Mapping
  deriving DecidableEq

/-- Everything about a query that is known before it runs. -/
structure ExecutionContext where
  query : Query
  units : List ExecutionUnit
  route : Route

def ExecutionContext.generatedKeys (c : ExecutionContext) : List Value := c.route.generatedKeys

/-- Whether every statement has a connection of its own, or several share one. -/
inductive ConnectionMode where
  | memoryStrictly | connectionStrictly
  deriving DecidableEq

/-- A unit on the connection it runs on. -/
structure BoundUnit (C : Type) where
  unit : ExecutionUnit
  mode : ConnectionMode
  connection : C
  deriving DecidableEq

structure Report where
  processId : String
  database : String
  deriving DecidableEq

/-- Groups of inputs that may run side by side. -/
structure Prepared (α : Type) where
  groups : List (List α)
  report : Report

def Prepared.inputCount {α : Type} (p : Prepared α) : Nat := p.groups.flatten.length

inductive ExecutionError where
  | statement (dataSource message : String)
  | connection (message : String)
  | tooFewConnections (dataSource : String) (supplied asked : Nat)
  | cancelled (processId : String)
  | unknown (message : String)
  | crashed
  | poolInitialization (message : String)
  deriving DecidableEq

namespace ExecutionError

def message : ExecutionError → String
  | statement dataSource message => "statement failed on \x60" ++ dataSource ++ "\x60: " ++ message
  | connection message => "connection error: " ++ message
  | tooFewConnections dataSource supplied asked =>
    "connection error: \x60" ++ dataSource ++ "\x60 supplied " ++ toString supplied ++ " of "
      ++ toString asked ++ " connections"
  | cancelled processId => "process \x60" ++ processId ++ "\x60 was cancelled"
  | unknown message => "unknown execution error: " ++ message
  | crashed => "unknown execution error: execution group panicked"
  | poolInitialization message => "executor pool initialization failed: " ++ message

def isStatement : ExecutionError → Bool
  | statement _ _ => true
  | _ => false

end ExecutionError

end ShardedSql
