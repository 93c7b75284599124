import ShardedSql.Proofs.Engine
import ShardedSql.Proofs.RowUnits

/-! Read/write splitting only renames. The units of the sharding router differ, and each goes by the
logic name of its data source; so two of them differ in what renaming leaves, and none is dropped as a
repetition afterwards. -/

namespace ShardedSql

/-- The units differ and nothing has renamed their data sources. -/
structure Route.Unrenamed (route : Route) : Prop where
  nodup : route.units.Nodup
  named : ∀ u ∈ route.units, u.source.actual = u.source.logic

theorem Route.Unrenamed.withKeys {route : Route} (h : route.Unrenamed) (keys : List Value) :
    Route.Unrenamed { route with generatedKeys := keys } := ⟨h.nodup, h.named⟩

namespace Placement

variable {rule : ShardingRule} {query : Query} {topology : Topology} {conditions : Conditions}
  {tables : List String} {route : Route}

theorem unrenamed_empty : Route.empty.Unrenamed := ⟨.nil, by simp [Route.empty]⟩

theorem unrenamed_ofUnits {units : List RouteUnit}
    (h : ∀ u ∈ units, u.source.actual = u.source.logic) : (Route.ofUnits units).Unrenamed :=
  ⟨nodup_distinct _, fun u hu => h u (mem_distinct.1 hu)⟩

/-- Whichever way a statement is placed, the units are on data sources by their logic names. -/
theorem place_unrenamed (h : place rule query topology conditions tables = .ok route) :
    route.Unrenamed := by
  unfold place at h
  split at h
  · cases h
    apply unrenamed_ofUnits
    intro u hu
    obtain ⟨source, -, rfl⟩ := List.mem_map.1 hu
    rfl
  · split at h
    · cases h
      exact unrenamed_empty
    · split at h
      · have hunits := h
        obtain ⟨units, -, hroute⟩ := bind_eq_ok.1 h
        cases hroute
        refine ⟨nodup_distinct _, ?_⟩
        intro u hu
        obtain ⟨table, t, n, -, -, rfl⟩ := mem_everyNode hunits hu
        rfl
      · have hunits := h
        obtain ⟨placed, -, hroute⟩ := bind_eq_ok.1 h
        cases hroute
        exact ⟨nodup_distinct _, fun u hu => (mem_standard hunits hu).2.1⟩

end Placement

namespace ShardingRouter

variable {r : ShardingRouter}

/-- The states of a router that has answered any statements, on any topologies. Other routers may draw
keys in between. -/
inductive Served (r : ShardingRouter) : ShardingState → Prop
  | initial {s : ShardingState} (h : s.cache = (initial r.rule).cache) : Served r s
  | step {s : ShardingState} (query : Query) (topology : Topology) (h : Served r s) :
    Served r (r.route query topology s).2
  | keys {s : ShardingState} (keys : KeyCounters) (h : Served r s) : Served r { s with keys := keys }

theorem route_unrenamed {query : Query} {topology : Topology} {s : ShardingState}
    (hcache : ∀ c ∈ s.cache, c.Stores Route.Unrenamed) :
    (∀ c ∈ (r.route query topology s).2.cache, c.Stores Route.Unrenamed) ∧
      ∀ route, (r.route query topology s).1 = .ok route → route.Unrenamed :=
  route_stores (fun _ keys h => h.withKeys keys) (fun _ _ => Placement.place_unrenamed) hcache

theorem Served.stores {s : ShardingState} (h : r.Served s) :
    ∀ c ∈ s.cache, c.Stores Route.Unrenamed := by
  induction h with
  | initial h =>
    rw [h]
    exact r.initial_stores _
  | step query topology _ ih => exact (route_unrenamed ih).1
  | keys keys _ ih => exact ih

end ShardingRouter

/-- A unit behind read/write splitting: it has the logic data source and the tables of the one before,
and another actual data source only if a group stands for it, of which that is a storage unit. -/
structure RouteUnit.Renames (rw : ReadwriteRule) (u v : RouteUnit) : Prop where
  logic : v.source.logic = u.source.logic
  tables : v.tables = u.tables
  actual : v.source.actual ≠ u.source.actual → ∃ g, rw.group? u.source.logic = some g ∧
    v.source.actual ∈ g.writeUnit :: g.readUnits

/-- The route has the same units as the one before, in their order, but for renamed data sources. -/
structure Route.Renames (rw : ReadwriteRule) (route renamed : Route) : Prop where
  units : List.Forall₂ (RouteUnit.Renames rw) route.units renamed.units
  rowNodes : renamed.rowNodes = route.rowNodes
  generatedKeys : renamed.generatedKeys = route.generatedKeys

namespace ReadwriteRule

variable {rw : ReadwriteRule}

theorem decorateUnit_renames (write : Bool) (u : RouteUnit) (s : ReadCounters) :
    u.Renames rw (rw.decorateUnit write u s).1 := by
  unfold decorateUnit
  cases hgroup : rw.group? u.source.logic with
  | none => exact ⟨rfl, rfl, fun hne => absurd rfl hne⟩
  | some g =>
    refine ⟨rfl, rfl, fun _ => ⟨g, hgroup, ?_⟩⟩
    rcases g.pick_mayPick write s with hpick | ⟨-, hpick⟩
    · exact List.mem_cons.2 (.inl hpick)
    · exact List.mem_cons_of_mem _ hpick

/-- Units that nothing has renamed differ in what renaming leaves. -/
theorem nodup_places {route : Route} (h : route.Unrenamed) :
    (route.units.map RouteUnit.place).Nodup := by
  apply List.Nodup.map_on _ h.nodup
  intro u hu v hv hplace
  obtain ⟨⟨logic, actual⟩, tables⟩ := u
  obtain ⟨⟨logic', actual'⟩, tables'⟩ := v
  have hu' := h.named _ hu
  have hv' := h.named _ hv
  simp only [RouteUnit.place, Prod.mk.injEq] at hu' hv' hplace
  obtain ⟨rfl, rfl⟩ := hplace
  rw [hu', hv']

/-- So no two of them become one. -/
theorem decorate_renames {route : Route} (h : route.Unrenamed) (hunits : route.units ≠ [])
    (query : Query) (s : ReadCounters) :
    route.Renames rw (rw.decorate route query s).1 ∧ (rw.decorate route query s).1.units.Nodup := by
  have hsome : route.isEmpty = false := List.isEmpty_eq_false_iff.2 hunits
  have hplaces := run_mapM_map (decorateUnit_place rw (isWrite query)) route.units s
  have hnodup : (route.units.mapM (rw.decorateUnit (isWrite query)) s).1.Nodup := by
    apply List.Nodup.of_map RouteUnit.place
    rw [hplaces]
    exact nodup_places h
  have hunits' : (rw.decorate route query s).1.units =
      (route.units.mapM (rw.decorateUnit (isWrite query)) s).1 := by
    rw [decorate, hsome, if_neg Bool.false_ne_true]
    exact distinct_eq_self hnodup
  refine ⟨⟨?_, ?_, ?_⟩, ?_⟩
  · rw [hunits']
    apply (run_mapM_forall₂ (rw.decorateUnit (isWrite query)) route.units s).imp
    rintro u v ⟨s', rfl⟩
    exact rw.decorateUnit_renames _ u s'
  · rw [decorate, hsome, if_neg Bool.false_ne_true]
    rfl
  · rw [decorate, hsome, if_neg Bool.false_ne_true]
    rfl
  · rw [hunits']
    exact hnodup

end ReadwriteRule

namespace Routing

variable {topology : Topology}

/-- The checks at the end change nothing about a route with units that differ. -/
theorem finish_eq_self {route finished : Route} (hunits : route.units ≠ [])
    (hnodup : route.units.Nodup) (h : finish topology route = .ok finished) : finished = route := by
  obtain ⟨-, rfl⟩ := finish_eq_ok.1 h
  rw [fallback_eq_self hunits, Route.dedup, distinct_eq_self hnodup]

/-- A route behind read/write splitting, where there is any. -/
def behind (readwrite : Option ReadwriteRule) (query : Query) (reads : ReadCounters) (sharded : Route) :
    Route :=
  match readwrite with
  | none => sharded
  | some rw => (rw.decorate sharded query reads).1

/-- One statement through the sharding router and what stands behind it, without a data source hint. -/
theorem route_chain (r : ShardingRouter) (slot : Nat) (readwrite : Option ReadwriteRule) {query : Query}
    (hhint : query.hint.dataSource = none) (s : RoutingState) :
    (route (shardingChain r slot readwrite) query topology s).1 =
      (r.route query topology (s.sharding slot)).1 >>= fun sharded =>
        finish topology (behind readwrite query s.reads sharded) := by
  have hchain : chain (shardingChain r slot readwrite) query topology s =
      ((Router.ofSharding r slot).create query topology >>= fun sharded =>
        (readwrite.map Router.ofReadwrite).toList.foldlM
          (fun route r => r.decorate route query topology) sharded) s := rfl
  have hcreate : (Router.ofSharding r slot).create query topology s =
      ((r.route query topology (s.sharding slot)).1,
        s.withSharding slot (r.route query topology (s.sharding slot)).2) := rfl
  unfold route
  rw [hhint]
  dsimp only
  rw [run_bind, hchain, run_bind, hcreate]
  rcases r.route query topology (s.sharding slot) with ⟨_ | sharded, t⟩
  · rfl
  · cases readwrite <;> rfl

/-- One statement through both routers, without a data source hint. -/
theorem route_shardingChain (r : ShardingRouter) (slot : Nat) (rw : ReadwriteRule) {query : Query}
    (hhint : query.hint.dataSource = none) (s : RoutingState) :
    (route (shardingChain r slot (some rw)) query topology s).1 =
      (r.route query topology (s.sharding slot)).1 >>= fun sharded =>
        finish topology (rw.decorate sharded query s.reads).1 :=
  route_chain r slot (some rw) hhint s

end Routing

/-- Read/write splitting behind the sharding router, whatever statements that has answered before and
whatever reads the groups have taken: where the route comes to its end, it has the units of the sharding
router, of which only those on a group have another actual data source, one of the group. -/
theorem readwrite_only_renames (r : ShardingRouter) (rw : ReadwriteRule) (query : Query)
    (topology : Topology) {s : ShardingState} (hs : r.Served s) {sharded : Route}
    (hsharded : (r.route query topology s).1 = .ok sharded) (hunits : sharded.units ≠ []) :
    (∀ reads finished, Routing.finish topology (rw.decorate sharded query reads).1 = .ok finished →
      sharded.Renames rw finished) ∧
    ∀ slot t finished, query.hint.dataSource = none → t.sharding slot = s →
      (Routing.route (shardingChain r slot (some rw)) query topology t).1 = .ok finished →
      sharded.Renames rw finished := by
  have hunrenamed : sharded.Unrenamed := (ShardingRouter.route_unrenamed hs.stores).2 _ hsharded
  have hfinish : ∀ reads finished,
      Routing.finish topology (rw.decorate sharded query reads).1 = .ok finished →
        sharded.Renames rw finished := by
    intro reads finished h
    obtain ⟨hrenames, hnodup⟩ := rw.decorate_renames hunrenamed hunits query reads
    have hunits' : (rw.decorate sharded query reads).1.units ≠ [] := by
      intro hnil
      have hlength := hrenames.units.length_eq
      rw [hnil, List.length_nil, List.length_eq_zero_iff] at hlength
      exact hunits hlength
    rw [Routing.finish_eq_self hunits' hnodup h]
    exact hrenames
  refine ⟨hfinish, ?_⟩
  rintro slot t finished hhint rfl h
  rw [Routing.route_shardingChain r slot rw hhint, hsharded] at h
  exact hfinish t.reads finished h

/-- Two actual tables on a data source that two replicas stand for in turn. -/
def replicatedOrders : ShardingRouter where
  rule := ShardingRule.empty.withTable
    ⟨"t_order", [⟨"ds", "t_order_0"⟩, ⟨"ds", "t_order_1"⟩], none, none, none, List.cons_ne_nil _ _⟩
  validators := []

def replicas : ReadwriteRule :=
  .ofGroups [⟨"ds", "primary", ["replica_0", "replica_1"], .roundRobin⟩]

def selectOrders : Query := ⟨"SELECT * FROM t_order", .of .select ["t_order"], [], .none⟩

def replicatedShop : Topology :=
  ⟨"shop", .ofList [("primary", .mySql), ("replica_0", .mySql), ("replica_1", .mySql)]⟩

/-- A unit for each actual table, on the given data sources. -/
def halvesOn (first second : String) : Route :=
  ⟨[⟨⟨"ds", first⟩, [⟨"t_order", "t_order_0"⟩]⟩, ⟨⟨"ds", second⟩, [⟨"t_order", "t_order_1"⟩]⟩], [], []⟩

set_option maxRecDepth 20000 in
theorem readwrite_only_renames_turns :
    let fresh := ShardingRouter.initial replicatedOrders.rule
    replicatedOrders.Served fresh ∧
      (replicatedOrders.route selectOrders replicatedShop fresh).1 = .ok (halvesOn "ds" "ds") ∧
      (halvesOn "ds" "ds").units ≠ [] ∧
      (Routing.route (shardingChain replicatedOrders 0 (some replicas)) selectOrders replicatedShop
        ⟨replicatedOrders.rule.generators, [none], ∅⟩).1 = .ok (halvesOn "replica_0" "replica_1") ∧
      (halvesOn "ds" "ds").Renames replicas (halvesOn "replica_0" "replica_1") := by
  have hserved : replicatedOrders.Served (ShardingRouter.initial replicatedOrders.rule) := .initial rfl
  have hsharded : (replicatedOrders.route selectOrders replicatedShop
      (ShardingRouter.initial replicatedOrders.rule)).1 = .ok (halvesOn "ds" "ds") := rfl
  have hunits : (halvesOn "ds" "ds").units ≠ [] := List.cons_ne_nil _ _
  have hroute : (Routing.route (shardingChain replicatedOrders 0 (some replicas)) selectOrders
      replicatedShop ⟨replicatedOrders.rule.generators, [none], ∅⟩).1 =
        .ok (halvesOn "replica_0" "replica_1") := rfl
  exact ⟨hserved, hsharded, hunits, hroute,
    (readwrite_only_renames _ replicas selectOrders replicatedShop hserved hsharded hunits).2
      0 _ _ rfl rfl hroute⟩

end ShardedSql
