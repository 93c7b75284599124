import ShardedSql.Proofs.Histories

/-! A route that has nodes for the rows of an insertion has just one unit for each of them, however the
nodes are spelled. The sharding router makes such routes and its cache keeps them; read/write splitting
only exchanges the actual data sources, and so leaves the logic ones and the tables as they are. -/

namespace ShardedSql

open Text (sameName)

/-- Where a unit is, whichever storage unit its data source stands for. -/
def RouteUnit.place (u : RouteUnit) : String × List Mapping := (u.source.logic, u.tables)

/-- Where a node of a single table is. -/
def DataNode.placeOf (table : String) (n : DataNode) : String × List Mapping :=
  (n.dataSource, [⟨table, n.table⟩])

/-- The rows go to these nodes, no two of which differ in spelling only, and every unit is at the place
of one of them. -/
structure RoutesRows (route : Route) (table : String) (nodes : List DataNode) : Prop where
  rowNodes : route.rowNodes = nodes.map ([·])
  apart : ∀ n ∈ nodes, ∀ m ∈ nodes, sameName n.dataSource m.dataSource = true →
    sameName n.table m.table = true → n = m
  once : (route.units.map RouteUnit.place).Nodup
  places : ∀ p, p ∈ route.units.map RouteUnit.place ↔ ∃ n ∈ nodes, n.placeOf table = p

/-- Either the route has no rows, or it has a unit for each of them. -/
def Route.KeepsRows (route : Route) : Prop :=
  route.rowNodes = [] ∨ ∃ table nodes, RoutesRows route table nodes

/-- A statement that is an insertion of rows, or none at all. -/
def Statement.IsPlain (s : Statement) : Prop := s.kind = .insert → ∃ data, s = .ofInsert data

namespace Placement

variable {rule : ShardingRule} {query : Query} {topology : Topology} {conditions : Conditions}
  {route : Route}

theorem PlacesRows.routesRows {hint : Hint} {table : String} {t : TableRule} {nodes : List DataNode}
    (h : PlacesRows rule hint table t conditions nodes route) : RoutesRows route table nodes where
  rowNodes := h.rowNodes
  apart := by
    intro n hn m hm hsource htable
    obtain ⟨c, hc⟩ := single_of_nodesOf h.rows hn
    obtain ⟨c', hc'⟩ := single_of_nodesOf h.rows hm
    exact eq_of_single hc hc' hsource htable
  once := by
    refine List.Nodup.map_on ?_ h.nodup
    intro u hu v hv hplace
    obtain ⟨n, -, rfl⟩ := (h.units u).1 hu
    obtain ⟨m, -, rfl⟩ := (h.units v).1 hv
    cases n
    cases m
    cases hplace
    rfl
  places := by
    intro p
    simp only [List.mem_map, h.units]
    constructor
    · rintro ⟨u, ⟨n, hn, rfl⟩, rfl⟩
      exact ⟨n, hn, rfl⟩
    · rintro ⟨n, hn, rfl⟩
      exact ⟨_, ⟨n, hn, rfl⟩, rfl⟩

theorem place_keepsRows (hplain : query.statement.IsPlain)
    (h : place rule query topology conditions (rule.shardingTables query.statement.tables) =
      .ok route) : route.KeepsRows := by
  unfold place at h
  split at h
  · cases h
    exact .inl rfl
  · split at h
    · cases h
      exact .inl rfl
    · rename_i hsome
      split at h
      · obtain ⟨units, -, h⟩ := bind_eq_ok.1 h
        cases h
        exact .inl rfl
      · by_cases hkind : query.statement.kind = .insert
        · obtain ⟨data, hq⟩ := hplain hkind
          have htables : query.statement.tables = [data.table] := by rw [hq]; rfl
          rw [htables] at h hsome
          cases ht : rule.table? data.table with
          | none =>
            simp [ShardingRule.shardingTables, ShardingRule.isSharding, ht, distinctBy,
              distinctFrom] at hsome
          | some t =>
            rw [shardingTables_insertion ht] at h
            obtain ⟨nodes, hplaces⟩ := standard_places_rows hkind ht h
            exact .inr ⟨_, nodes, hplaces.routesRows⟩
        · obtain ⟨placed, -, h⟩ := bind_eq_ok.1 h
          cases h
          exact .inl (if_neg (by simpa using hkind))

end Placement

/-- Every stored route keeps its rows. -/
def RouteCache.KeepsRows (c : RouteCache) : Prop := ∀ e ∈ c.entries, e.2.KeepsRows

/-- Generated keys do not matter for where the rows go. -/
theorem Route.KeepsRows.withKeys {route : Route} (h : route.KeepsRows) (keys : List Value) :
    Route.KeepsRows { route with generatedKeys := keys } := by
  rcases h with h | ⟨table, nodes, h⟩
  · exact .inl h
  · exact .inr ⟨table, nodes, h.rowNodes, h.apart, h.once, h.places⟩

namespace ShardingRouter

variable {r : ShardingRouter} {query : Query} {topology : Topology}

theorem route_keepsRows {s : ShardingState} (hplain : query.statement.IsPlain)
    (hcache : ∀ c ∈ s.cache, c.KeepsRows) :
    (∀ c ∈ (r.route query topology s).2.cache, c.KeepsRows) ∧
      ∀ route, (r.route query topology s).1 = .ok route → route.KeepsRows :=
  route_stores (fun _ keys h => h.withKeys keys)
    (fun _ _ hplaced => Placement.place_keepsRows hplain hplaced) hcache

end ShardingRouter

namespace ReadwriteRule

theorem decorateUnit_place (rw : ReadwriteRule) (write : Bool) (u : RouteUnit) (s : ReadCounters) :
    (rw.decorateUnit write u s).1.place = u.place := by
  unfold decorateUnit
  cases rw.group? u.source.logic <;> rfl

theorem decorate_keepsRows {rw : ReadwriteRule} {route : Route} (query : Query)
    (h : route.KeepsRows) (s : ReadCounters) : (rw.decorate route query s).1.KeepsRows := by
  unfold decorate
  split
  · left
    unfold create
    rcases rw.groups.values with _ | ⟨g, _ | _⟩ <;> rfl
  · change Route.KeepsRows { route with
      units := distinct (route.units.mapM (rw.decorateUnit (isWrite query)) s).1 }
    have hplace := run_mapM_map (decorateUnit_place rw (isWrite query)) route.units s
    rcases h with h | ⟨table, nodes, h⟩
    · exact .inl h
    · rw [distinct_eq_self (.of_map _ (hplace ▸ h.once))]
      exact .inr ⟨table, nodes, h.rowNodes, h.apart, hplace ▸ h.once, hplace ▸ h.places⟩

end ReadwriteRule

namespace Routing

theorem fallback_rowNodes (topology : Topology) (route : Route) :
    (fallback topology route).rowNodes = route.rowNodes := by
  unfold fallback Route.add
  split
  · split
    · split <;> rfl
    · rfl
  · rfl

theorem finish_keepsRows {topology : Topology} {route route' : Route} (h : route.KeepsRows)
    (hfinish : finish topology route = .ok route') : route'.KeepsRows := by
  unfold finish at hfinish
  dsimp only at hfinish
  split at hfinish
  · cases hfinish
  · cases hfinish
    rcases h with h | ⟨table, nodes, h⟩
    · exact .inl ((fallback_rowNodes topology route).trans h)
    · by_cases hempty : route.units = []
      · -- a route without units has no rows
        have hnone : nodes = [] := by
          refine List.eq_nil_iff_forall_not_mem.2 fun n hn => ?_
          have hmem := (h.places (n.placeOf table)).2 ⟨n, hn, rfl⟩
          rw [hempty] at hmem
          exact List.not_mem_nil hmem
        refine .inl ((fallback_rowNodes topology route).trans ?_)
        rw [h.rowNodes, hnone, List.map_nil]
      · have hsame : fallback topology route = route := by
          unfold fallback
          split
          · exact if_neg (by simpa [Route.isEmpty] using hempty)
          · rfl
        rw [hsame, Route.dedup, distinct_eq_self (.of_map _ h.once)]
        exact .inr ⟨table, nodes, h⟩

end Routing

/-- The cache of the sharding router at a slot keeps its rows. -/
def RoutingState.KeepsRows (slot : Nat) (s : RoutingState) : Prop :=
  ∀ c ∈ (s.sharding slot).cache, c.KeepsRows

/-- The sharding router, with or without read/write splitting behind it. -/
def shardingChain (r : ShardingRouter) (slot : Nat) (rw : Option ReadwriteRule) :
    List (Router RoutingState) :=
  .ofSharding r slot :: (rw.map Router.ofReadwrite).toList

section Chain

variable {r : ShardingRouter} {slot : Nat} {query : Query} {topology : Topology}

theorem create_keepsRows (hplain : query.statement.IsPlain) :
    Ensures (RoutingState.KeepsRows slot) (Router.ofSharding.create r slot query topology)
      Route.KeepsRows := by
  intro s hs
  obtain ⟨hcache, hroute⟩ : (∀ c ∈ (r.route query topology (s.sharding slot)).2.cache,
      c.KeepsRows) ∧ _ := ShardingRouter.route_keepsRows hplain hs
  unfold Router.ofSharding.create
  generalize r.route query topology (s.sharding slot) = run at hcache hroute
  obtain ⟨result, t⟩ := run
  exact ⟨fun c hc => hcache c (RoutingState.cache_withSharding hc), hroute⟩

theorem decorate_keepsRows (rw : ReadwriteRule) {route : Route} (h : route.KeepsRows) :
    Ensures (RoutingState.KeepsRows slot) ((Router.ofReadwrite rw).decorate route query topology)
      Route.KeepsRows := by
  intro s hs
  refine ⟨hs, fun route' hroute' => ?_⟩
  cases hroute'
  exact rw.decorate_keepsRows query h s.reads

/-- One statement through the chain: its route keeps its rows, and so does the cache behind it. -/
theorem route_keepsRows (hplain : query.statement.IsPlain) (rw : Option ReadwriteRule) :
    Ensures (RoutingState.KeepsRows slot) (Routing.route (shardingChain r slot rw) query topology)
      Route.KeepsRows := by
  unfold Routing.route
  cases query.hint.dataSource with
  | some name =>
    refine Ensures.result fun route h => ?_
    unfold Routing.hinted at h
    split at h <;> cases h
    exact .inl rfl
  | none =>
    refine Ensures.bind (Q := Route.KeepsRows) ?_ fun route h =>
      Ensures.result fun route' hfinish => Routing.finish_keepsRows h hfinish
    cases rw with
    | none => exact (create_keepsRows hplain).bind fun route h => Ensures.pure h
    | some rw =>
      refine (create_keepsRows hplain).bind fun route h => ?_
      exact (decorate_keepsRows rw h).bind fun route h => Ensures.pure h

/-- The states of the chain from one with an empty cache, through statements of which the insertions
are plain. -/
inductive Reached (r : ShardingRouter) (slot : Nat) (rw : Option ReadwriteRule) :
    RoutingState → Prop
  | initial {s} (h : (s.sharding slot).cache = (ShardingRouter.initial r.rule).cache) :
    Reached r slot rw s
  | step {s} (query : Query) (topology : Topology) (hplain : query.statement.IsPlain)
    (h : Reached r slot rw s) :
    Reached r slot rw (Routing.route (shardingChain r slot rw) query topology s).2

theorem Reached.keepsRows {rw : Option ReadwriteRule} {s : RoutingState} (h : Reached r slot rw s) :
    s.KeepsRows slot := by
  induction h with
  | initial h =>
    intro c hc
    rw [h] at hc
    exact r.initial_stores Route.KeepsRows c hc
  | step query topology hplain _ ih => exact (route_keepsRows hplain rw _ ih).1

end Chain

end ShardedSql
