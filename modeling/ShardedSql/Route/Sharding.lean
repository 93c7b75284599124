import ShardedSql.Route.Cache
import ShardedSql.Route.Placement
import ShardedSql.Route.Validator
import ShardedSql.Rule.Extraction

/-!
Routing by the sharding rule: extract the conditions, audit and validate the statement, place it or
take its route from the cache, and validate the route. -/

namespace ShardedSql

/-- What sharding keeps between statements. -/
structure ShardingState where
  keys : KeyCounters
  cache : Option RouteCache

structure ShardingRouter where
  rule : ShardingRule
  validators : List Validator

namespace ShardingRouter

def initial (rule : ShardingRule) : ShardingState :=
  ⟨rule.generators, rule.cache.map RouteCache.empty⟩

/-- What a statement has to pass before it is placed. -/
def screen (r : ShardingRouter) (query : Query) (conditions : Conditions) (tables : List String) :
    Except RouteError Unit := do
  if query.statement.kind.isDml then
    (r.rule.activeAuditors query.hint).forM fun a => a.2.check query conditions tables
  r.validators.forM fun v => v.before query conditions

/-- The conditions that the statement is placed by. -/
def effective (query : Query) (conditions : Conditions) : Conditions :=
  if query.statement.kind.isDml && conditions.needsMerge then conditions.merge else conditions

/-- The cache, if the statement may use it: its route must not hang on hints or on new keys. -/
def usable (cache : Option RouteCache) (query : Query) (generatedKeys : List Value) :
    Option RouteCache :=
  cache.filter fun c =>
    c.isCacheable query.sql && !query.hint.hasRouting && generatedKeys.isEmpty

/-- The route from the cache, or the placed one, and the cache after it. -/
def cachedPlace (r : ShardingRouter) (query : Query) (topology : Topology)
    (conditions : Conditions) (tables : List String) (generatedKeys : List Value)
    (cache : Option RouteCache) : Except RouteError (Route × Option RouteCache) :=
  match usable cache query generatedKeys with
  | none => do .ok (← Placement.place r.rule query topology conditions tables, cache)
  | some c =>
    match c.get? ⟨query.sql, conditions⟩ with
    | some route => .ok (route, cache)
    | none => do
      let route ← Placement.place r.rule query topology conditions tables
      .ok (route, some (c.put ⟨query.sql, conditions⟩ route))

/-- Everything behind the extraction. -/
def routeExtracted (r : ShardingRouter) (query : Query) (topology : Topology) (e : Extracted)
    (cache : Option RouteCache) : Except RouteError Route × Option RouteCache :=
  let tables := r.rule.shardingTables query.statement.tables
  match r.screen query e.conditions tables with
  | .error err => (.error err, cache)
  | .ok () =>
    let conditions := effective query e.conditions
    match r.cachedPlace query topology conditions tables e.generatedKeys cache with
    | .error err => (.error err, cache)
    | .ok (route, cache) =>
      let route := { route with generatedKeys := e.generatedKeys }
      ((r.validators.forM fun v => v.after query route).map fun _ => route, cache)

def route (r : ShardingRouter) (query : Query) (topology : Topology) :
    ExceptT RouteError (StateM ShardingState) Route := fun s =>
  match Extraction.extract r.rule query s.keys with
  | (.error e, keys) => (.error e, { s with keys := keys })
  | (.ok e, keys) =>
    let (result, cache) := r.routeExtracted query topology e s.cache
    (result, ⟨keys, cache⟩)

end ShardingRouter

end ShardedSql
