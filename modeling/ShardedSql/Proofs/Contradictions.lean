import ShardedSql.Proofs.Renaming

/-! Where a statement goes whose conditions no row can satisfy. The sharding router leaves it without
units, and a route without units is what the rest of the chain takes for one not yet made: a lone
read/write group or a lone storage unit then gets the statement as it is written. -/

namespace ShardedSql

/-- The route has the one unit, which maps no tables. -/
def Route.IsUnmapped (route : Route) (u : RouteUnit) : Prop := route.units = [u] ∧ u.tables = []

namespace Placement

/-- Contradictory conditions place a statement on sharding tables nowhere. -/
theorem place_contradiction {rule : ShardingRule} {query : Query} {topology : Topology}
    {conditions : Conditions} {tables : List String}
    (hbroadcast : rule.allBroadcast query.statement.tables = false)
    (hfalse : conditions.alwaysFalse = true) :
    place rule query topology conditions tables = .ok .empty := by
  rw [place, hbroadcast, if_neg Bool.false_ne_true, hfalse, Bool.or_true, if_pos rfl]

end Placement

namespace ShardingRouter

/-- Dropping repeated alternatives leaves a contradiction what it is. -/
theorem effective_alwaysFalse (query : Query) (conditions : Conditions) :
    (effective query conditions).alwaysFalse = conditions.alwaysFalse := by
  unfold effective
  split <;> rfl

variable {r : ShardingRouter} {query : Query} {topology : Topology}

theorem units_of_contradiction {keys : KeyCounters} {e : Extracted} {route : Route}
    (hbroadcast : r.rule.allBroadcast query.statement.tables = false)
    (he : (Extraction.extract r.rule query keys).1 = .ok e) (hfalse : e.conditions.alwaysFalse = true)
    (h : r.answer query topology keys = .ok route) : route.units = [] := by
  obtain ⟨e', placed, he', -, hplaced, -, rfl⟩ := answer_eq_ok.1 h
  rw [he] at he'
  cases he'
  rw [Placement.place_contradiction hbroadcast ((effective_alwaysFalse query _).trans hfalse)] at hplaced
  cases hplaced
  rfl

end ShardingRouter

namespace ReadwriteRule

/-- A lone group takes a statement that has no units; several groups, or none, leave it without. -/
theorem create_units (rw : ReadwriteRule) (query : Query) (s : ReadCounters) :
    (∃ g, rw.groups.values = [g] ∧ ∃ u, (rw.create query s).1.IsUnmapped u ∧
      u.source.logic = g.name ∧ g.MayPick (isWrite query) u.dataSource) ∨
    (∀ g, rw.groups.values ≠ [g]) ∧ (rw.create query s).1.units = [] := by
  unfold create
  rcases hgroups : rw.groups.values with _ | ⟨g, _ | _⟩
  · exact .inr ⟨by simp, rfl⟩
  · exact .inl ⟨g, rfl, _, ⟨rfl, rfl⟩, rfl, g.pick_mayPick (isWrite query) s⟩
  · exact .inr ⟨by simp, rfl⟩

end ReadwriteRule

namespace Routing

variable {query : Query}

/-- A lone storage unit takes a statement that has no units. -/
theorem fallback_units (topology : Topology) {route : Route} (hunits : route.units = []) :
    (∃ name, topology.names = [name] ∧ (fallback topology route).IsUnmapped (.ofSource name)) ∨
      (∀ name, topology.names ≠ [name]) ∧ (fallback topology route).units = [] := by
  unfold fallback Topology.single?
  rcases hnames : topology.names with _ | ⟨name, _ | _⟩
  · exact .inr ⟨by simp, hunits⟩
  · refine .inl ⟨name, rfl, ?_, rfl⟩
    simp [Route.isEmpty, Route.add, hunits]
  · exact .inr ⟨by simp, hunits⟩

/-- The only group behind the sharding router. -/
def LoneGroup (readwrite : Option ReadwriteRule) (g : ReadwriteGroup) : Prop :=
  ∃ rw ∈ readwrite, rw.groups.values = [g]

/-- Behind read/write splitting a route without units has one on the lone group, or still none. -/
theorem behind_units (readwrite : Option ReadwriteRule) (query : Query) (reads : ReadCounters)
    {sharded : Route} (hunits : sharded.units = []) :
    (∃ g, LoneGroup readwrite g ∧ ∃ u, (behind readwrite query reads sharded).IsUnmapped u ∧
      u.source.logic = g.name ∧ g.MayPick (ReadwriteRule.isWrite query) u.dataSource) ∨
    (∀ g, ¬ LoneGroup readwrite g) ∧ (behind readwrite query reads sharded).units = [] := by
  cases readwrite with
  | none => exact .inr ⟨by simp [LoneGroup], hunits⟩
  | some rw =>
    have hcreate : behind (some rw) query reads sharded = (rw.create query reads).1 := by
      rw [behind, ReadwriteRule.decorate, Route.isEmpty, hunits]
      rfl
    rw [hcreate]
    simpa [LoneGroup] using rw.create_units query reads

end Routing

open ShardingRouter Routing in
/-- A statement on sharding tables whose conditions are contradictory, behind any others: its route is
empty if and only if there is neither a lone read/write group nor a lone storage unit. Otherwise the
statement goes to that one, and its tables keep their logic names. -/
theorem contradiction_routes_nowhere_iff (r : ShardingRouter) (slot : Nat)
    (readwrite : Option ReadwriteRule) {query : Query} {topology : Topology} {parse : Reading}
    {s : RoutingState} {e : Extracted} {finished : Route}
    (hs : r.Reached topology parse (s.sharding slot)) (hread : query.statement = parse query.sql)
    (hhint : query.hint.dataSource = none)
    (hbroadcast : r.rule.allBroadcast query.statement.tables = false)
    (he : (Extraction.extract r.rule query (s.sharding slot).keys).1 = .ok e)
    (hfalse : e.conditions.alwaysFalse = true)
    (h : (Routing.route (shardingChain r slot readwrite) query topology s).1 = .ok finished) :
    (finished.units = [] ↔ (∀ g, ¬ LoneGroup readwrite g) ∧ ∀ name, topology.names ≠ [name]) ∧
      ∀ u ∈ finished.units, finished.IsUnmapped u ∧
        ((∃ g, LoneGroup readwrite g ∧ u.source.logic = g.name ∧
          g.MayPick (ReadwriteRule.isWrite query) u.dataSource) ∨ topology.names = [u.dataSource]) := by
  rw [route_chain r slot readwrite hhint, (route_faithful hread hs.faithful).1] at h
  obtain ⟨sharded, hsharded, hfinish⟩ := bind_eq_ok.1 h
  obtain ⟨-, rfl⟩ := finish_eq_ok.1 hfinish
  have hunits : sharded.units = [] := units_of_contradiction hbroadcast he hfalse hsharded
  rcases behind_units readwrite query s.reads hunits with
    ⟨g, hg, u, ⟨hone, hunmapped⟩, hlogic, hpick⟩ | ⟨hgroups, hnone⟩
  · have hfinished : ((fallback topology (behind readwrite query s.reads sharded)).dedup).units = [u] := by
      rw [fallback_eq_self (by simp [hone]), Route.dedup, hone]
      rfl
    rw [hfinished]
    refine ⟨iff_of_false (List.cons_ne_nil _ _) fun hnot => hnot.1 g hg, fun v hv => ?_⟩
    obtain rfl := List.mem_singleton.1 hv
    exact ⟨⟨hfinished, hunmapped⟩, .inl ⟨g, hg, hlogic, hpick⟩⟩
  · rcases fallback_units topology hnone with ⟨name, hname, hone, -⟩ | ⟨hnames, hempty⟩
    · have hfinished : ((fallback topology (behind readwrite query s.reads sharded)).dedup).units =
          [.ofSource name] := by
        rw [Route.dedup, hone]
        rfl
      rw [hfinished]
      refine ⟨iff_of_false (List.cons_ne_nil _ _) fun hnot => hnot.2 name hname, fun v hv => ?_⟩
      obtain rfl := List.mem_singleton.1 hv
      exact ⟨⟨hfinished, rfl⟩, .inr hname⟩
    · have hfinished : ((fallback topology (behind readwrite query s.reads sharded)).dedup).units = [] := by
        rw [Route.dedup, hempty]
        rfl
      rw [hfinished]
      exact ⟨iff_of_true rfl ⟨hgroups, hnames⟩, fun v hv => absurd hv List.not_mem_nil⟩

theorem halves_ne_nil : ([⟨"ds", "t_order_0"⟩, ⟨"ds", "t_order_1"⟩] : List DataNode) ≠ [] :=
  List.cons_ne_nil _ _

/-- Orders in two tables on one data source, by order. -/
def numberedHalves : ShardingRouter where
  rule := ShardingRule.empty.withTable
    ⟨"t_order", [⟨"ds", "t_order_0"⟩, ⟨"ds", "t_order_1"⟩], none,
      some (.standard "order_id" (.mod ⟨2, Nat.two_pos⟩)), none, halves_ne_nil⟩
  validators := []

/-- An update that can match no order. -/
def updateImpossible : Query where
  sql := "UPDATE t_order SET paid = 1 WHERE order_id = 1 AND order_id = 2"
  statement := { Statement.of .update ["t_order"] with
    groups := [[⟨"t_order", "order_id", .equal (.literal (.int 1))⟩,
      ⟨"t_order", "order_id", .equal (.literal (.int 2))⟩]] }
  params := []
  hint := .none

/-- A group whose reads take turns on the replica. -/
def readBy (name replica : String) : ReadwriteGroup := ⟨name, "primary", [replica], .roundRobin⟩

def replicated : Topology :=
  ⟨"shop", .ofList [("primary", .mySql), ("replica", .mySql), ("archive", .mySql)]⟩

def unserved : RoutingState := ⟨∅, [none], ∅⟩

/-- With two groups nothing takes the update over. -/
theorem contradiction_routes_nowhere_iff_groups :
    let groups : ReadwriteRule := .ofGroups [readBy "ds" "replica", readBy "old" "archive"]
    (Extraction.extract numberedHalves.rule updateImpossible ∅).1 = .ok ⟨.contradiction, []⟩ ∧
      (Routing.route (shardingChain numberedHalves 0 (some groups)) updateImpossible replicated
        unserved).1 = .ok .empty ∧
      (∀ g, ¬ Routing.LoneGroup (some groups) g) ∧ ∀ name, replicated.names ≠ [name] := by
  intro groups
  have hextract : (Extraction.extract numberedHalves.rule updateImpossible ∅).1 =
      .ok ⟨.contradiction, []⟩ := rfl
  have hroute : (Routing.route (shardingChain numberedHalves 0 (some groups)) updateImpossible replicated
      unserved).1 = .ok .empty := rfl
  have hreached : numberedHalves.Reached replicated (fun _ => updateImpossible.statement)
      (unserved.sharding 0) := .initial rfl
  exact ⟨hextract, hroute, (contradiction_routes_nowhere_iff numberedHalves 0 (some groups) hreached rfl
    rfl rfl hextract rfl hroute).1.1 rfl⟩

/-- With a lone group the update goes to its write unit, with the logic name of its table. -/
theorem impossible_update_reaches_primary :
    (Extraction.extract numberedHalves.rule updateImpossible ∅).1 = .ok ⟨.contradiction, []⟩ ∧
      numberedHalves.rule.shardingTables updateImpossible.statement.tables = ["t_order"] ∧
      numberedHalves.rule.allBroadcast updateImpossible.statement.tables = false ∧
      (Routing.route (shardingChain numberedHalves 0 (some (.ofGroups [readBy "ds" "replica"])))
        updateImpossible replicated unserved).1 = .ok ⟨[⟨⟨"ds", "primary"⟩, []⟩], [], []⟩ :=
  ⟨rfl, rfl, rfl, rfl⟩

end ShardedSql
