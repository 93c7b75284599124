import ShardedSql.Execution.Session
import ShardedSql.Grouping

/-!
Preparation: the units of each data source are dealt out to groups, as even as possible, of no more
units than the budget allows, and every group takes a connection. -/

namespace ShardedSql

namespace Preparation

def mode (count budget : Nat) : ConnectionMode :=
  if count ≤ budget then .memoryStrictly else .connectionStrictly

/-- Cuts a list into pieces of the given sizes. -/
def cut {α : Type} : List Nat → List α → List (List α)
  | [], _ => []
  | size :: sizes, items => items.take size :: cut sizes (items.drop size)

/-- How many groups of at most `budget` items there are. -/
def groupCount (total budget : Nat) : Nat := (total + budget - 1) / budget

/-- The sizes of `count` groups that differ by at most one, the larger ones first. -/
def sizes (total count : Nat) : List Nat :=
  (List.range count).map fun i => total / count + if i < total % count then 1 else 0

/-- Splits the items into as few groups as the budget allows; no budget counts as one. -/
def partition {α : Type} (items : List α) (budget : Nat) : List (List α) :=
  cut (sizes items.length (groupCount items.length (max budget 1))) items

end Preparation

/-- Connections of a data source, as many as asked for. -/
abbrev Provider (ω C : Type) :=
  String → Nat → ConnectionMode → ExceptT ExecutionError (StateM (Session ω)) (List C)

/-- A change of the groups before they run. -/
abbrev Decorator (C : Type) :=
  Route → List (List (BoundUnit C)) → Except ExecutionError (List (List (BoundUnit C)))

namespace Preparation

variable {ω C : Type}

def liftExcept {α : Type} (r : Except ExecutionError α) :
    ExceptT ExecutionError (StateM (Session ω)) α := ExceptT.mk (pure r)

/-- The groups of one data source, the k-th on the k-th connection. -/
def onSource (provider : Provider ω C) (budget : Nat) (dataSource : String)
    (units : List ExecutionUnit) :
    ExceptT ExecutionError (StateM (Session ω)) (List (List (BoundUnit C))) := do
  let mode := mode units.length budget
  let parts := partition units budget
  let connections ← provider dataSource parts.length mode
  if connections.length < parts.length then
    liftExcept (.error (.tooFewConnections dataSource connections.length parts.length))
  else
    pure ((parts.zip connections).map fun (part, connection) =>
      part.map fun unit => ⟨unit, mode, connection⟩)

def decorate (decorators : List (Decorator C)) (route : Route)
    (groups : List (List (BoundUnit C))) : Except ExecutionError (List (List (BoundUnit C))) :=
  decorators.foldlM (fun groups d => d route groups) groups

/-- The groups of all units, data source by data source. -/
def prepare (provider : Provider ω C) (budget : Nat) (decorators : List (Decorator C))
    (route : Route) (units : List ExecutionUnit) (report : Report) :
    ExceptT ExecutionError (StateM (Session ω)) (Prepared (BoundUnit C)) := do
  let groups ← (groupOn ExecutionUnit.dataSource units).mapM fun (dataSource, members) =>
    onSource provider (max budget 1) dataSource members
  .mk (pure ((decorate decorators route groups.flatten).map fun groups => ⟨groups, report⟩))

end Preparation

end ShardedSql
