import ShardedSql.Event
import ShardedSql.Execution.Basic
import ShardedSql.Render.Draft
import ShardedSql.Route.Router

/-!
The kernel: from a statement to the units it is executed as, with the events on the way. -/

namespace ShardedSql

structure KernelProps where
  maxConnections : Nat
  executorSize : Nat
  sqlShow : Bool
  sqlSimple : Bool
  deriving DecidableEq

def KernelProps.default : KernelProps := ⟨1, 0, false, false⟩

inductive KernelError where
  | route (e : RouteError)
  | render (e : RenderError)
  | execution (e : ExecutionError)
  deriving DecidableEq

def KernelError.message : KernelError → String
  | route e => e.message
  | render e => e.message
  | execution e => e.message

structure Kernel (σ : Type) where
  routers : List (Router σ)
  conversion : Conversion
  props : KernelProps

namespace Kernel

variable {σ : Type}

/-- What the routers keep, and the events so far. -/
structure State (σ : Type) where
  routing : σ
  events : List Event

def unitOf (entry : RouteUnit × BoundSql) : ExecutionUnit :=
  ⟨entry.1.dataSource, entry.2.sql, entry.2.params, entry.1.tables⟩

/-- The event that shows what is executed: the data sources, or every statement. -/
def shown (props : KernelProps) (query : Query) (units : List ExecutionUnit) : Event :=
  if props.sqlSimple then .sqlShow query.sql (distinct (units.map (·.dataSource))) []
  else .sqlShow query.sql [] (units.map fun u => ⟨u.dataSource, u.sql, u.params.map (·.text)⟩)

/-- The context of a query and the events behind its route. -/
def contextOf (k : Kernel σ) (query : Query) (draft : Draft) (topology : Topology)
    (route : Route) : Except KernelError ExecutionContext × List Event :=
  match draft.render k.conversion query route topology with
  | .error e => (.error (.render e), [])
  | .ok entries =>
    let units := entries.map unitOf
    (.ok ⟨query, units, route⟩, if k.props.sqlShow then [shown k.props query units] else [])

def generate (k : Kernel σ) (query : Query) (draft : Draft) (topology : Topology) :
    ExceptT KernelError (StateM (State σ)) ExecutionContext := fun s =>
  match Routing.route k.routers query topology s.routing with
  | (.error e, routing) => (.error (.route e), { s with routing := routing })
  | (.ok route, routing) =>
    let routed := Event.routeCompleted topology.database route.units.length route.dataSources
    let (result, more) := k.contextOf query draft topology route
    (result, ⟨routing, s.events ++ routed :: more⟩)

end Kernel

end ShardedSql
