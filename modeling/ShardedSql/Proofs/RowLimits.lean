import ShardedSql.Proofs.Contradictions

/-! Updates and deletes with a row limit. The sharding router checks the route it has, whether it placed
it or took it from its cache, and none of the steps behind it makes several units of one. -/

namespace ShardedSql

namespace ShardingRule

variable {rule : ShardingRule}

theorem shardingTables_ne_nil {tables : List String} {table : String} (htable : table ∈ tables)
    (hsharded : rule.isSharding table = true) : rule.shardingTables tables ≠ [] := by
  obtain ⟨t, ht⟩ := Option.isSome_iff_exists.1 hsharded
  obtain ⟨other, hother, -⟩ := exists_mem_shardingTables htable ht
  exact List.ne_nil_of_mem hother

end ShardingRule

namespace Validator

theorem allBinding_of_oneBindingGroup {rule : ShardingRule} {s : Statement}
    (h : oneBindingGroup rule s = .ok ()) (hkind : updatesOrDeletes s.kind = true)
    (hmany : 1 < s.tables.length) (hsharded : ∃ table ∈ s.tables, rule.isSharding table = true) :
    rule.allBinding s.tables = true := by
  obtain ⟨table, htable, hsharded⟩ := hsharded
  have hne := ShardingRule.shardingTables_ne_nil htable hsharded
  unfold oneBindingGroup at h
  split at h
  · cases h
  · rename_i hpass
    simpa [hkind, hmany, hne] using hpass

theorem length_le_of_limitOnOneUnit {s : Statement} {route : Route} (h : limitOnOneUnit s route = .ok ())
    (hkind : updatesOrDeletes s.kind = true) (hlimit : s.features.pagination = true) :
    route.units.length ≤ 1 := by
  unfold limitOnOneUnit at h
  split at h
  · cases h
  · rename_i hpass
    simpa [hkind, hlimit] using hpass

end Validator

namespace ShardingRouter

variable {r : ShardingRouter} {query : Query} {topology : Topology} {route : Route}

/-- Whatever the cache holds, a statement is routed only if it and its route pass all validators. -/
theorem validated_of_route {s s' : ShardingState} (h : r.route query topology s = (.ok route, s')) :
    ∃ conditions, ∀ v ∈ r.validators, v.before query conditions = .ok () ∧ v.after query route = .ok () := by
  obtain ⟨e, keys, -, h⟩ := route_eq_ok h
  refine ⟨e.conditions, fun v hv => ?_⟩
  unfold routeExtracted at h
  dsimp only at h
  split at h
  · cases h
  · rename_i hscreen
    have hbefore : r.validators.forM (fun v => v.before query e.conditions) = .ok () := by
      unfold screen at hscreen
      split at hscreen
      · obtain ⟨_, -, hscreen⟩ := bind_eq_ok.1 hscreen
        exact hscreen
      · exact hscreen
    split at h
    · cases h
    · rw [Prod.mk.injEq, map_eq_ok] at h
      obtain ⟨⟨_, hafter, rfl⟩, -⟩ := h
      exact ⟨forM_eq_ok.1 hbefore v hv, forM_eq_ok.1 hafter v hv⟩

end ShardingRouter

namespace ReadwriteRule

/-- Read/write splitting answers one unit at most where it got one at most. -/
theorem decorate_length_le (rw : ReadwriteRule) (query : Query) (s : ReadCounters) {route : Route}
    (h : route.units.length ≤ 1) : (rw.decorate route query s).1.units.length ≤ 1 := by
  unfold decorate
  split
  · rcases rw.create_units query s with ⟨g, -, u, ⟨hone, -⟩, -⟩ | ⟨-, hnone⟩
    · simp [hone]
    · simp [hnone]
  · have hlength := (run_mapM_forall₂ (rw.decorateUnit (isWrite query)) route.units s).length_eq
    exact (length_distinct_le _).trans (hlength ▸ h)

end ReadwriteRule

namespace Routing

theorem finish_length_le {topology : Topology} {route finished : Route} (h : route.units.length ≤ 1)
    (hfinish : finish topology route = .ok finished) : finished.units.length ≤ 1 := by
  obtain ⟨-, rfl⟩ := finish_eq_ok.1 hfinish
  refine (length_distinct_le _).trans ?_
  by_cases hunits : route.units = []
  · rcases fallback_units topology hunits with ⟨name, -, hone, -⟩ | ⟨-, hnone⟩
    · simp [hone]
    · simp [hnone]
  · rwa [fallback_eq_self hunits]

theorem hinted_length_le {topology : Topology} {name : String} {route : Route}
    (h : hinted topology name = .ok route) : route.units.length ≤ 1 := by
  unfold hinted at h
  split at h <;> cases h
  exact le_refl 1

end Routing

namespace Deployment

variable {d : Deployment} {query : Query} {s : RoutingState} {route : Route}

/-- A statement without a data source hint is routed by way of the sharding router. -/
theorem sharded_of_route (hhint : query.hint.dataSource = none)
    (h : (Routing.route d.routers query d.topology s).1 = .ok route) :
    ∃ sharded t, d.router.route query d.topology (s.sharding 0) = (.ok sharded, t) ∧
      Routing.finish d.topology (d.decorated query s.reads sharded) = .ok route := by
  rw [(route_run hhint s).1, (d.chain_run query s).1] at h
  obtain ⟨_, hdecorated, hfinish⟩ := bind_eq_ok.1 h
  obtain ⟨sharded, hsharded, rfl⟩ := map_eq_ok.1 hdecorated
  exact ⟨sharded, _, Prod.ext hsharded rfl, hfinish⟩

end Deployment

namespace Configuration

/-- All the tables are in one declared binding group, up to letter case. -/
def Binds (c : Configuration) (tables : List String) : Prop :=
  ∃ group ∈ c.sharding.bindingTables, ∀ table ∈ tables, ∃ b ∈ group, Text.lower b = Text.lower table

variable {c : Configuration} {d : Deployment}

theorem binds_of_allBinding (h : c.build = .ok d) {tables : List String}
    (hbound : d.rule.allBinding tables = true) : c.Binds tables := by
  obtain ⟨built, rules, hassembled⟩ := assembled_of_build h
  obtain ⟨group, hgroup, hall⟩ := ShardingRule.group_of_allBinding hbound
  rw [hassembled.bindingGroups] at hgroup
  obtain ⟨declared, hdeclared, rfl⟩ := List.mem_map.1 hgroup
  exact ⟨declared, hdeclared, fun table ht => List.mem_map.1 (mem_distinct.1 (hall table ht))⟩

end Configuration

open Validator in
/-- An update or delete that a built deployment routes, in whatever state. With a row limit it has at most
one unit. Over several tables, one of them sharded, it is routed only if all of them are bound together,
unless a hint names the data source. -/
theorem row_limited_write_on_one_unit {c : Configuration} {d : Deployment} (h : c.build = .ok d)
    {query : Query} (hkind : query.statement.kind = .update ∨ query.statement.kind = .delete)
    {s : RoutingState} {route : Route}
    (hroute : (Routing.route d.routers query d.topology s).1 = .ok route) :
    (query.statement.features.pagination = true → route.units.length ≤ 1) ∧
      (query.hint.dataSource = none → 1 < query.statement.tables.length →
        (∃ table ∈ query.statement.tables, c.Shards table) → c.Binds query.statement.tables) := by
  have hwrites : updatesOrDeletes query.statement.kind = true := by
    rcases hkind with hkind | hkind <;> rw [hkind] <;> rfl
  cases hhint : query.hint.dataSource with
  | some name =>
    unfold Routing.route at hroute
    rw [hhint] at hroute
    exact ⟨fun _ => Routing.hinted_length_le hroute, nofun⟩
  | none =>
    obtain ⟨sharded, t, hsharded, hfinish⟩ := Deployment.sharded_of_route hhint hroute
    obtain ⟨conditions, hvalid⟩ := ShardingRouter.validated_of_route hsharded
    obtain ⟨hbefore, hafter⟩ := hvalid (.dml d.rule) (List.mem_singleton_self _)
    constructor
    · intro hlimit
      have hone := length_le_of_limitOnOneUnit hafter hwrites hlimit
      refine Routing.finish_length_le ?_ hfinish
      unfold Deployment.decorated
      split
      · exact hone
      · exact ReadwriteRule.decorate_length_le _ query s.reads hone
    · rintro - hmany ⟨table, htable, hshards⟩
      have hshared := (Configuration.isSharding_iff h).2 hshards
      exact Configuration.binds_of_allBinding h
        (allBinding_of_oneBindingGroup hbefore hwrites hmany ⟨table, htable, hshared⟩)

/-- Orders and their items, bound together, on two storage units by the number of the order. -/
def ordersBoundToItems : Configuration where
  props := .default
  database := ⟨"shop", .mySql, .ofList [("ds_0", .mySql), ("ds_1", .mySql)]⟩
  sharding := { ShardingSpec.empty with
    tables := .ofList [
      ("t_order", ⟨"ds_0.t_order,ds_1.t_order", some ⟨["order_id"], "by_order"⟩, none, none⟩),
      ("t_item", ⟨"ds_0.t_item,ds_1.t_item", some ⟨["order_id"], "by_order"⟩, none, none⟩)]
    bindingTables := [["t_order", "t_item"]]
    algorithms := .ofList [("by_order", ⟨"MOD", .ofList [("sharding-count", "2")]⟩)] }
  readwriteGroups := []

def spreadByOrder (table : String) : TableRule where
  logicTable := table
  nodes := [⟨"ds_0", table⟩, ⟨"ds_1", table⟩]
  databaseStrategy := some (.standard "order_id" (.mod ⟨2, Nat.two_pos⟩))
  tableStrategy := none
  keyStrategy := none
  nodes_ne_nil := List.cons_ne_nil _ _

def ordersWithBoundItems : Deployment where
  props := .default
  topology := ⟨"shop", .ofList [("ds_0", .mySql), ("ds_1", .mySql)]⟩
  rule :=
    { ((ShardingRule.empty.withTable (spreadByOrder "t_item")).withTable (spreadByOrder "t_order")) with
      bindingGroups := [["t_order", "t_item"]] }
  readwrite := none
  conversion := .builtin .mySql

/-- An update with a row limit over both tables. -/
def updateSome (groups : List (List Predicate)) : Query where
  sql := "UPDATE t_order, t_item SET paid = 1 LIMIT 1"
  statement := { Statement.of .update ["t_order", "t_item"] with
    groups := groups
    features := { Features.none with pagination := true } }
  params := []
  hint := .none

def uncachedRouting : RoutingState := ⟨∅, [none], ∅⟩

def updateFirst : Query := updateSome [[⟨"t_order", "order_id", .equal (.literal (.int 1))⟩]]

def firstOrderRoute : Route :=
  ⟨[⟨⟨"ds_1", "ds_1"⟩, [⟨"t_order", "t_order"⟩, ⟨"t_item", "t_item"⟩]⟩], [], []⟩

set_option maxRecDepth 20000 in
/-- With the number of the order the update has its unit. -/
theorem row_limited_write_on_one_unit_bound :
    ordersBoundToItems.build = .ok ordersWithBoundItems ∧
      (Routing.route ordersWithBoundItems.routers updateFirst ordersWithBoundItems.topology
        uncachedRouting).1 = .ok firstOrderRoute ∧
      firstOrderRoute.units.length ≤ 1 ∧ ordersBoundToItems.Binds ["t_order", "t_item"] := by
  have hbuild : ordersBoundToItems.build = .ok ordersWithBoundItems := rfl
  have hroute : (Routing.route ordersWithBoundItems.routers updateFirst ordersWithBoundItems.topology
    uncachedRouting).1 = .ok firstOrderRoute := rfl
  obtain ⟨hone, hbound⟩ := row_limited_write_on_one_unit hbuild (.inl rfl) hroute
  exact ⟨hbuild, hroute, hone rfl,
    hbound rfl Nat.one_lt_two ⟨"t_order", by decide, "t_order", by decide, rfl⟩⟩

set_option maxRecDepth 20000 in
/-- Without it there would be a unit on each data source, and the update is refused. -/
example : (Routing.route ordersWithBoundItems.routers (updateSome []) ordersWithBoundItems.topology
    uncachedRouting).1 = .error (.validation (.limitOverUnits .update 2)) := rfl

end ShardedSql
