import ShardedSql.Grouping
import ShardedSql.Text.Case
import ShardedSql.Topology
import ShardedSql.Value

/-!
Where a statement goes: route units, each one execution on a data source, with the actual names that
stand for the logic ones there. -/

namespace ShardedSql

structure Mapping where
  logic : String
  actual : String
  deriving DecidableEq

structure RouteUnit where
  source : Mapping
  tables : List Mapping
  deriving DecidableEq

namespace RouteUnit

def ofSource (name : String) : RouteUnit := ⟨⟨name, name⟩, []⟩

def dataSource (u : RouteUnit) : String := u.source.actual

/-- The mapping onto an actual table, on the unit's own logic data source. -/
def mappingOnto? (u : RouteUnit) (dataSource actual : String) : Option Mapping :=
  if Text.sameName u.source.logic dataSource then
    u.tables.find? fun m => Text.sameName m.actual actual
  else none

def actualTable? (u : RouteUnit) (logic : String) : Option String :=
  (u.tables.find? fun m => Text.sameName m.logic logic).map (·.actual)

/-- Whether the unit covers one of the nodes; no nodes are covered everywhere. -/
def coversAny (u : RouteUnit) (nodes : List DataNode) : Bool :=
  nodes.isEmpty || nodes.any fun n => (u.mappingOnto? n.dataSource n.table).isSome

end RouteUnit

/-- For an insertion `rowNodes` holds the data nodes of every row. -/
structure Route where
  units : List RouteUnit
  rowNodes : List (List DataNode)
  generatedKeys : List Value
  deriving DecidableEq

namespace Route

def empty : Route := ⟨[], [], []⟩

/-- Adds a unit that is not there yet. -/
def add (r : Route) (u : RouteUnit) : Route :=
  if r.units.contains u then r else { r with units := r.units ++ [u] }

def dedup (r : Route) : Route := { r with units := distinct r.units }

def ofUnits (units : List RouteUnit) : Route := ⟨distinct units, [], []⟩

def isEmpty (r : Route) : Bool := r.units.isEmpty

/-- The actual data sources, each once, where it first occurs. -/
def dataSources (r : Route) : List String := distinct (r.units.map (·.dataSource))

end Route

end ShardedSql
