import ShardedSql.Proofs.Engine
import ShardedSql.Proofs.Failures

/-! The data sources of the tables are checked when a configuration is built, and looked up for every
statement. The check does not regard the case of letters, the look-up does: a statement is refused for a
storage unit just where a data node spells it in another way than the unit is declared. -/

namespace ShardedSql

open Text (lower)

namespace Deployment

variable {c : Configuration} {d : Deployment} {query : Query} {keys : KeyCounters}
  {reads : ReadCounters}

/-- Some table has data nodes on the name, which is neither a storage unit nor a group. -/
structure Misses (d : Deployment) (name : String) : Prop where
  used : d.rule.Uses name
  ungrouped : ∀ rw ∈ d.readwrite, rw.group? name = none
  unknown : d.topology.contains name = false

/-- What the built configuration has let pass is the name of a storage unit in another spelling. -/
theorem Misses.misspelt (hb : c.Built d) {name : String} (h : d.Misses name) :
    ∃ unit ∈ d.topology.names, unit ≠ name ∧ lower unit = lower name := by
  have hlower := hb.sources name h.used
  rw [Configuration.logicalSources, List.mem_append] at hlower
  rcases hlower with hlower | hlower
  · obtain ⟨unit, hunit, heq⟩ := List.mem_map.1 hlower
    refine ⟨unit, hunit, ?_, heq⟩
    rintro rfl
    exact Topology.not_mem_names h.unknown hunit
  · refine absurd ?_ (hb.ungrouped_iff.1 h.ungrouped)
    obtain ⟨group, hgroup, heq⟩ := List.mem_map.1 hlower
    cases hrw : d.readwrite with
    | none =>
      rw [hrw] at hgroup
      exact absurd hgroup List.not_mem_nil
    | some rw =>
      rw [hrw] at hgroup
      obtain ⟨g, hg, rfl⟩ := List.mem_map.1 hgroup
      exact ⟨g, hb.mem_groups hrw hg, heq⟩

/-- A statement that is not answered is refused for what it asks, or for such a name. -/
theorem answer_error (hb : c.Built d) {e : RouteError}
    (h : d.answer query keys reads = .error e) :
    e.IsRefusal ∨ ∃ name, e = .unknownStorageUnit name ∧ d.Misses name := by
  rcases bind_eq_error.1 h with h | ⟨route, hroute, h⟩
  · refine .inl (ShardingRouter.answer_refuses query d.topology keys (fun v hv conditions route => ?_) e h)
    rw [List.mem_singleton.1 hv]
    exact Validator.dml_refuses d.rule query conditions route
  · obtain ⟨u, hu, hunknown, rfl⟩ := Routing.finish_eq_error h
    refine .inr ⟨_, rfl, ?_⟩
    have hmissing := Topology.not_mem_names hunknown
    rcases unit_origin hb hroute hu with ⟨g, hg, hpick⟩ | hsingle | ⟨hungrouped, horigin⟩
    · have hunit : u.dataSource ∈ g.writeUnit :: g.readUnits := by
        rcases hpick with heq | ⟨-, hread⟩
        · exact heq ▸ List.mem_cons_self
        · exact List.mem_cons_of_mem _ hread
      exact absurd (Topology.contains_iff.1 (hb.groupUnits g hg _ hunit)) hmissing
    · exact absurd (hsingle ▸ List.mem_singleton_self _) hmissing
    · rcases horigin with hused | ⟨-, -, hmem⟩
      · exact ⟨hused, hb.ungrouped_iff.2 hungrouped, hunknown⟩
      · exact absurd hmem hmissing

/-- A change of the definition of a table. -/
def alteration (table : String) : Query := ⟨"", .of .ddl [table], [], .none⟩

/-- It goes to every data source of the table. -/
theorem place_alteration (hb : c.Built d) {t : TableRule} (ht : t ∈ d.rule.tables.values)
    {source : String} (hsource : source ∈ t.dataSources) :
    ∃ placed, Placement.place d.rule (alteration t.logicTable) d.topology .unconstrained
        (d.rule.shardingTables [t.logicTable]) = .ok placed ∧
      ∃ u ∈ placed.units, u.source = ⟨source, source⟩ := by
  have htable := ShardingRule.table?_of_mem_values ht
  rw [Placement.shardingTables_insertion htable]
  by_cases hbroadcast : d.rule.allBroadcast (alteration t.logicTable).statement.tables = true
  · have hsources : (Placement.broadcast d.rule (alteration t.logicTable) d.topology).units.map
        (·.source) = _ := Placement.broadcast_write hb.declared rfl
    refine ⟨_, if_pos hbroadcast, List.mem_map.1 (hsources ▸ List.mem_map_of_mem ?_)⟩
    exact (ShardingRule.mem_broadcastSources hb.declared).2 (.inl ⟨t, ht, hsource⟩)
  · obtain ⟨n, hn, rfl⟩ := TableRule.mem_dataSources.1 hsource
    exact ⟨_, (if_neg hbroadcast).trans (Placement.everyNode_singleton htable), _,
      mem_distinct.2 (List.mem_map_of_mem hn), rfl⟩

theorem answer_alteration (hb : c.Built d) {t : TableRule} (ht : t ∈ d.rule.tables.values)
    {source : String} (hsource : source ∈ t.dataSources) (keys : KeyCounters) :
    ∃ route, d.router.answer (alteration t.logicTable) d.topology keys = .ok route ∧
      ∃ u ∈ route.units, u.source = ⟨source, source⟩ := by
  obtain ⟨placed, hplaced, hunit⟩ := place_alteration hb ht hsource
  refine ⟨{ placed with generatedKeys := [] }, ?_, hunit⟩
  refine ShardingRouter.answer_eq_ok.2 ⟨⟨.unconstrained, []⟩, placed, rfl, rfl, hplaced, ?_, rfl⟩
  intro v hv
  rw [List.mem_singleton.1 hv]
  rfl

/-- A name that is missing fails some statement. -/
theorem Misses.refused (hb : c.Built d) {source : String} (h : d.Misses source) :
    ∃ query name, d.Gives query (.error (.unknownStorageUnit name)) := by
  obtain ⟨t, ht, hsource⟩ := h.used
  obtain ⟨route, hroute, u, hu, heq⟩ := answer_alteration hb ht hsource ∅
  cases hanswer : d.answer (alteration t.logicTable) ∅ ∅ with
  | ok route' =>
    obtain ⟨sharded, hsharded, -, hstays⟩ := answer_eq_ok hanswer
    rw [hroute] at hsharded
    cases hsharded
    have hknown := contains_of_answer hanswer u (hstays u hu fun rw hrw => by
      rw [heq]
      exact h.ungrouped rw hrw)
    rw [RouteUnit.dataSource, heq, h.unknown] at hknown
    cases hknown
  | error e =>
    rcases bind_eq_error.1 hanswer with hrefused | ⟨sharded, -, hfinish⟩
    · rw [hroute] at hrefused
      cases hrefused
    · obtain ⟨_, -, -, rfl⟩ := Routing.finish_eq_error hfinish
      exact ⟨_, _, gives_iff.2 ⟨rfl, ∅, ∅, hanswer⟩⟩

end Deployment

/-- Whatever statements a built deployment has served, none fails for a table without a rule, and a route
it gives is rendered on storage units that are there. Statements fail for a storage unit only where a data
node misspells one, and there some statement does. -/
theorem build_finds_units {c : Configuration} {d : Deployment} (h : c.build = .ok d) :
    (∀ query result, d.Gives query result →
      (∀ table, result ≠ .error (.missingTableRule table)) ∧
      (∀ name, result = .error (.unknownStorageUnit name) → d.Misses name) ∧
      ∀ route, result = .ok route → ∀ draft name,
        Draft.render draft d.conversion query route d.topology ≠ .error (.unknownStorageUnit name)) ∧
    ∀ source, d.Misses source →
      (∃ unit ∈ d.topology.names, unit ≠ source ∧ lower unit = lower source) ∧
      ∃ query name, d.Gives query (.error (.unknownStorageUnit name)) := by
  have hb := Configuration.built_of_buildWith (Configuration.build_eq_ok h)
  refine ⟨fun query result hgives => ?_, fun source hmisses => ⟨hmisses.misspelt hb, hmisses.refused hb⟩⟩
  obtain ⟨-, keys, reads, rfl⟩ := Deployment.gives_iff.1 hgives
  refine ⟨fun table herror => ?_, fun name herror => ?_, fun route hroute draft name => ?_⟩
  · rcases Deployment.answer_error hb herror with hrefusal | ⟨name, heq, -⟩
    · exact hrefusal
    · cases heq
  · rcases Deployment.answer_error hb herror with hrefusal | ⟨name', heq, hmisses⟩
    · exact hrefusal.elim
    · cases heq
      exact hmisses
  · exact Draft.render_finds (Deployment.contains_of_answer hroute) name

/-- One table on one storage unit, with its data nodes in some spelling. -/
def ordersOn (nodes : String) : Configuration where
  props := .default
  database := ⟨"shop", .mySql, .ofList [("ds_0", .mySql)]⟩
  sharding := { ShardingSpec.empty with tables := .ofList [("t_order", ⟨nodes, none, none, none⟩)] }
  readwriteGroups := []

def ordersFrom (source : String) : Deployment where
  props := .default
  topology := ⟨"shop", .ofList [("ds_0", .mySql)]⟩
  rule := ShardingRule.empty.withTable
    ⟨"t_order", [⟨source, "t_order"⟩], none, none, none, List.cons_ne_nil _ _⟩
  readwrite := none
  conversion := .builtin .mySql

set_option maxRecDepth 20000 in
/-- Spelled as the storage unit is, the table is always found. -/
theorem build_finds_units_orders :
    (ordersOn "ds_0.t_order").build = .ok (ordersFrom "ds_0") ∧
      ∀ query name, ¬ (ordersFrom "ds_0").Gives query (.error (.unknownStorageUnit name)) := by
  have hbuild : (ordersOn "ds_0.t_order").build = .ok (ordersFrom "ds_0") := rfl
  refine ⟨hbuild, fun query name hgives => ?_⟩
  have hmisses := ((build_finds_units hbuild).1 query _ hgives).2.1 name rfl
  obtain ⟨t, ht, hsource⟩ := hmisses.used
  rw [List.mem_singleton.1 ht] at hsource
  have hname : name = "ds_0" := List.mem_singleton.1 hsource
  have hunknown := hmisses.unknown
  rw [hname] at hunknown
  cases hunknown

set_option maxRecDepth 20000 in
/-- In capitals the configuration builds all the same, but a read of the table does not get through. -/
theorem orders_in_capitals_lost :
    (ordersOn "DS_0.t_order").build = .ok (ordersFrom "DS_0") ∧
      (ordersFrom "DS_0").Gives ⟨"SELECT * FROM t_order", .of .select ["t_order"], [], .none⟩
        (.error (.unknownStorageUnit "DS_0")) :=
  ⟨rfl, Deployment.gives_iff.2 ⟨rfl, ∅, ∅, rfl⟩⟩

end ShardedSql
