import ShardedSql.Route.Basic

/-!
The bound parameters of a rendered statement. Those of an insertion come in groups, one for every
row, followed by the ones that belong to no row. -/

namespace ShardedSql

inductive Parameters where
  | standard (params : List Value)
  | grouped (groups : List (List Value)) (generic : List Value)
  deriving DecidableEq

namespace Parameters

/-- The parameter groups of the rows that go to the unit, in row order. -/
def groupsOn (unit : RouteUnit) (rowNodes : List (List DataNode)) (groups : List (List Value)) :
    List (List Value) :=
  ((rowNodes.zip groups).filter fun (nodes, _) => unit.coversAny nodes).map (·.2)

def all : Parameters → List Value
  | standard params => params
  | grouped groups generic => groups.flatten ++ generic

/-- What is bound on one unit; without data nodes of the rows it is everything. -/
def onUnit (ps : Parameters) (route : Route) (unit : RouteUnit) : List Value :=
  match ps with
  | standard params => params
  | grouped groups generic =>
    if route.rowNodes.isEmpty then ps.all
    else (groupsOn unit route.rowNodes groups).flatten ++ generic

end Parameters

end ShardedSql
