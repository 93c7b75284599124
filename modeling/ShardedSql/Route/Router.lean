import ShardedSql.Route.Readwrite
import ShardedSql.Route.Sharding

/-!
The route engine: a chain of routers, of which the first makes a route and the others change it, and
the checks that hold whatever the routers do. -/

namespace ShardedSql

/-- A step of the chain with the state `σ`. What it does to the state stays, also when it fails. -/
structure Router (σ : Type) where
  name : String
  create : Query → Topology → ExceptT RouteError (StateM σ) Route
  decorate : Route → Query → Topology → ExceptT RouteError (StateM σ) Route

namespace Routing

variable {σ : Type}

/-- What the chain makes of a statement; no routers leave it without units. -/
def chain (routers : List (Router σ)) (query : Query) (topology : Topology) :
    ExceptT RouteError (StateM σ) Route :=
  match routers with
  | [] => pure .empty
  | first :: rest => do
    let route ← first.create query topology
    rest.foldlM (fun route r => r.decorate route query topology) route

/-- An empty route falls back to the only storage unit. -/
def fallback (topology : Topology) (route : Route) : Route :=
  match topology.single? with
  | some name => if route.isEmpty then route.add (.ofSource name) else route
  | none => route

/-- The units, each once, if all of them are on storage units. -/
def finish (topology : Topology) (route : Route) : Except RouteError Route :=
  let route := (fallback topology route).dedup
  match route.units.find? fun u => !topology.contains u.dataSource with
  | some u => .error (.unknownStorageUnit u.dataSource)
  | none => .ok route

/-- The data source a hint names. -/
def hinted (topology : Topology) (name : String) : Except RouteError Route :=
  if topology.contains name then .ok ⟨[.ofSource name], [], []⟩
  else .error (.unknownHintTarget name)

def route (routers : List (Router σ)) (query : Query) (topology : Topology) :
    ExceptT RouteError (StateM σ) Route :=
  match query.hint.dataSource with
  | some name => ExceptT.mk (pure (hinted topology name))
  | none => do
    let route ← chain routers query topology
    ExceptT.mk (pure (finish topology route))

end Routing

/-- What the built-in routers keep between statements: the sharding routers share the keys and have
a cache each. -/
structure RoutingState where
  keys : KeyCounters
  caches : List (Option RouteCache)
  reads : ReadCounters

namespace RoutingState

def sharding (s : RoutingState) (slot : Nat) : ShardingState :=
  ⟨s.keys, (s.caches[slot]?).getD none⟩

def withSharding (s : RoutingState) (slot : Nat) (t : ShardingState) : RoutingState :=
  { s with keys := t.keys, caches := s.caches.set slot t.cache }

end RoutingState

namespace Router

def shardingName : String := "sharding"

def readwriteName : String := "readwrite_splitting"

/-- The sharding router whose cache is the one at `slot`. -/
def ofSharding (r : ShardingRouter) (slot : Nat) : Router RoutingState where
  name := shardingName
  create := create
  decorate route query topology := if route.isEmpty then create query topology else pure route
where
  create (query : Query) (topology : Topology) : ExceptT RouteError (StateM RoutingState) Route :=
    fun s =>
      let (result, t) := r.route query topology (s.sharding slot)
      (result, s.withSharding slot t)

def onReads {α : Type} (m : StateM ReadCounters α) : ExceptT RouteError (StateM RoutingState) α :=
  fun s =>
    let (a, reads) := m s.reads
    (.ok a, { s with reads := reads })

def ofReadwrite (r : ReadwriteRule) : Router RoutingState where
  name := readwriteName
  create query _ := onReads (r.create query)
  decorate route query _ := onReads (r.decorate route query)

end Router

end ShardedSql
