import ShardedSql.Query
import ShardedSql.Route.Error
import ShardedSql.Route.Basic

/-!
Read/write splitting: a group stands for a data source, writes go to its write unit and reads to one
of its read units. -/

namespace ShardedSql

inductive LoadBalancer where
  | first | roundRobin
  deriving DecidableEq

structure ReadwriteGroup where
  name : String
  writeUnit : String
  readUnits : List String
  balancer : LoadBalancer
  deriving DecidableEq

/-- The groups by their lower-cased names. -/
structure ReadwriteRule where
  groups : NameMap ReadwriteGroup

/-- How many reads each group has taken in turn, modulo 2^64. -/
abbrev ReadCounters := NameMap UInt64

namespace ReadwriteRule

def ofGroups (groups : List ReadwriteGroup) : ReadwriteRule :=
  ⟨.ofList (groups.map fun g => (Text.lower g.name, g))⟩

def group? (r : ReadwriteRule) (name : String) : Option ReadwriteGroup :=
  r.groups.get? (Text.lower name)

def names (r : ReadwriteRule) : List String := r.groups.values.map (·.name)

end ReadwriteRule

namespace ReadwriteGroup

def key (g : ReadwriteGroup) : String := Text.lower g.name

/-- The place in the turn of the group, which moves on. -/
def turn (g : ReadwriteGroup) : StateM ReadCounters Nat := do
  match g.balancer with
  | .first => pure 0
  | .roundRobin =>
    let counters ← get
    let count := (counters.get? g.key).getD 0
    set (counters.insert g.key (count + 1))
    pure count.toNat

/-- The unit for a write or a read; a group without read units reads where it writes. -/
def pick (g : ReadwriteGroup) (write : Bool) : StateM ReadCounters String := do
  if write || g.readUnits.isEmpty then pure g.writeUnit
  else
    let index ← g.turn
    pure (g.readUnits.getD (index % g.readUnits.length) g.writeUnit)

end ReadwriteGroup

namespace ReadwriteRule

/-- Whether the statement has to reach the write unit. -/
def isWrite (query : Query) : Bool :=
  query.hint.writeRouteOnly || query.statement.kind != .select || query.statement.features.lock

/-- Without another route a single group takes the whole statement. -/
def create (r : ReadwriteRule) (query : Query) : StateM ReadCounters Route := do
  match r.groups.values with
  | [g] =>
    let actual ← g.pick (isWrite query)
    pure ⟨[⟨⟨g.name, actual⟩, []⟩], [], []⟩
  | _ => pure .empty

def decorateUnit (r : ReadwriteRule) (write : Bool) (u : RouteUnit) :
    StateM ReadCounters RouteUnit := do
  match r.group? u.source.logic with
  | none => pure u
  | some g => pure { u with source := ⟨u.source.logic, ← g.pick write⟩ }

/-- Sends every unit on a group to one of its storage units. -/
def decorate (r : ReadwriteRule) (route : Route) (query : Query) : StateM ReadCounters Route := do
  if route.isEmpty then r.create query
  else
    let units ← route.units.mapM (r.decorateUnit (isWrite query))
    pure { route with units := distinct units }

end ReadwriteRule

end ShardedSql
