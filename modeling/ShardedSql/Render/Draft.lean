import ShardedSql.Grouping
import ShardedSql.Render.Parameters
import ShardedSql.Render.Conversion
import ShardedSql.Sql.Token

/-!
The statements that are sent for a route: one for every unit, or, where a plain query has several
units on one data source, a single one that joins their branches. -/

namespace ShardedSql

/-- A statement with the places that are different on every unit. -/
structure Draft where
  sql : String
  tokens : List SqlToken
  parameters : Parameters

namespace Draft

def empty : Draft := ⟨"", [], .standard []⟩

def boundOn (d : Draft) (route : Route) (unit : RouteUnit) : List Value :=
  d.parameters.onUnit route unit

def textOn (d : Draft) (unit : RouteUnit) : Except RenderError String :=
  buildSql d.sql d.tokens (some unit)

/-- Whether the units of one data source are queried together. -/
def isJoined (query : Query) (units : List RouteUnit) : Bool :=
  query.statement.kind == .select && units.length > 1 && query.statement.features.isPlain

/-- The first list that is not empty. -/
def firstNonEmpty (lists : List (List Value)) : List Value :=
  (lists.find? (!·.isEmpty)).getD []

/-- All branches in one statement. Numbered markers are the same in every branch and are bound
once. -/
def joined (d : Draft) (query : Query) (route : Route) (units : List RouteUnit) :
    Except RenderError BoundSql := do
  let branches ← units.mapM d.textOn
  let params := units.map (d.boundOn route)
  .ok ⟨" UNION ALL ".intercalate (branches.map trimSemicolon),
    if query.statement.dollarMarkers then firstNonEmpty params else params.flatten⟩

/-- The statements for the units of one data source. -/
def onSource (d : Draft) (query : Query) (route : Route) (units : List RouteUnit) :
    Except RenderError (List (RouteUnit × BoundSql)) :=
  match units with
  | [] => .ok []
  | first :: _ =>
    if isJoined query units then do .ok [(first, ← d.joined query route units)]
    else units.mapM fun unit => do .ok (unit, ⟨← d.textOn unit, d.boundOn route unit⟩)

/-- The statement in the dialect of the unit's data source. -/
def converted (conversion : Conversion) (query : Query) (topology : Topology)
    (entry : RouteUnit × BoundSql) : Except RenderError (RouteUnit × BoundSql) :=
  match topology.dialect? entry.1.dataSource with
  | none => .error (.unknownStorageUnit entry.1.dataSource)
  | some target =>
    match conversion.convert entry.2 query target with
    | .ok sql => .ok (entry.1, sql)
    | .error e => .error (.conversion e)

/-- The statements for all units of a route. -/
def render (d : Draft) (conversion : Conversion) (query : Query) (route : Route)
    (topology : Topology) : Except RenderError (List (RouteUnit × BoundSql)) := do
  let groups ← (groupOn RouteUnit.dataSource route.units).mapM fun (_, units) =>
    d.onSource query route units
  groups.flatten.mapM (converted conversion query topology)

end Draft

end ShardedSql
