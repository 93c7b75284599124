import ShardedSql.Proofs.Engine

/-! Writes and the storage units that are only read. Read/write splitting keeps the two apart on every
data source that is a group; the storage units by which broadcast tables are reached where nothing is
sharded pass it by under their own names. -/

namespace ShardedSql

open ReadwriteRule (isWrite)

/-- Some group reads the storage unit, and no group writes it. -/
def Configuration.ReadOnly (c : Configuration) (unit : String) : Prop :=
  (∃ g ∈ c.readwriteGroups, unit ∈ g.readUnits) ∧ ∀ g ∈ c.readwriteGroups, g.writeUnit ≠ unit

namespace Deployment

variable {c : Configuration} {d : Deployment} {query : Query} {keys : KeyCounters}
  {reads : ReadCounters} {unit : String}

theorem mem_names_of_readOnly (hb : c.Built d) (hunit : c.ReadOnly unit) :
    unit ∈ d.topology.names := by
  obtain ⟨⟨g, hg, hread⟩, -⟩ := hunit
  exact Topology.contains_iff.1 (hb.groupUnits g hg unit (List.mem_cons_of_mem _ hread))

/-- Beside a unit that is only read there is the one that its group writes. -/
theorem names_ne_singleton_of_readOnly (hb : c.Built d) (hunit : c.ReadOnly unit) :
    d.topology.names ≠ [unit] := by
  intro hnames
  obtain ⟨⟨g, hg, -⟩, hwritten⟩ := hunit
  have hmem := Topology.contains_iff.1 (hb.groupUnits g hg g.writeUnit List.mem_cons_self)
  rw [hnames] at hmem
  exact hwritten g hg (List.mem_singleton.1 hmem)

/-- Where nothing is sharded, a write to broadcast tables stays on every storage unit that is no group. -/
theorem mem_answer_of_unsharded (hb : c.Built d) {route : Route}
    (h : d.answer query keys reads = .ok route) (hwrite : isWrite query = true)
    (htables : c.sharding.tables.entries = []) (hbroadcast : c.Broadcasts query.statement.tables)
    (hunit : unit ∈ d.topology.names) (hungrouped : ¬ c.IsGroup unit) :
    ∃ u ∈ route.units, u.dataSource = unit := by
  obtain ⟨sharded, hsharded, -, hstays⟩ := answer_eq_ok h
  have hsources : sharded.units.map (·.source) = _ :=
    units_of_broadcast hb hbroadcast hsharded ▸ Placement.broadcast_write hb.declared hwrite
  have hmem : unit ∈ d.rule.broadcastSources d.topology :=
    (ShardingRule.mem_broadcastSources hb.declared).2 (.inr ⟨hb.tables.2 htables, hunit⟩)
  obtain ⟨u, hu, heq⟩ := List.mem_map.1 (hsources ▸ List.mem_map_of_mem hmem)
  refine ⟨u, hstays u hu ?_, congrArg Mapping.actual heq⟩
  rw [heq]
  exact hb.ungrouped_iff.2 hungrouped

end Deployment

/-- A statement that is no plain read reaches a unit that is only read just where all its tables are
broadcast, nothing is sharded and the unit is not the name of a group; data nodes that name such a unit
themselves aside. -/
theorem write_reaches_readOnly_iff {c : Configuration} {d : Deployment} (h : c.build = .ok d)
    (hnodes : ∀ source, d.rule.Uses source → c.ReadOnly source → c.IsGroup source) {query : Query}
    {route : Route} (hgives : d.Gives query (.ok route)) (hwrite : isWrite query = true) :
    (∃ u ∈ route.units, c.ReadOnly u.dataSource) ↔
      c.sharding.tables.entries = [] ∧ c.Broadcasts query.statement.tables ∧
        ∃ unit, c.ReadOnly unit ∧ ¬ c.IsGroup unit := by
  have hb := Configuration.built_of_buildWith (Configuration.build_eq_ok h)
  obtain ⟨-, keys, reads, hanswer⟩ := Deployment.gives_iff.1 hgives
  constructor
  · rintro ⟨u, hu, hunit⟩
    obtain ⟨sharded, hsharded, hfinish, -⟩ := Deployment.answer_eq_ok hanswer
    obtain ⟨-, rfl⟩ := Routing.finish_eq_ok.1 hfinish
    rcases Deployment.unit_origin hb hsharded (mem_distinct.1 hu) with
      ⟨g, hg, hpick⟩ | hsingle | ⟨hungrouped, horigin⟩
    · rcases hpick with heq | ⟨hread, -⟩
      · exact absurd heq.symm (hunit.2 g hg)
      · rw [hwrite] at hread
        cases hread
    · exact absurd hsingle (Deployment.names_ne_singleton_of_readOnly hb hunit)
    · rcases horigin with hused | ⟨htables, hbroadcast, -⟩
      · exact absurd (hnodes _ hused hunit) hungrouped
      · exact ⟨htables, hb.allBroadcast_iff.1 hbroadcast, _, hunit, hungrouped⟩
  · rintro ⟨htables, hbroadcast, unit, hunit, hungrouped⟩
    obtain ⟨u, hu, rfl⟩ := Deployment.mem_answer_of_unsharded hb hanswer hwrite htables hbroadcast
      (Deployment.mem_names_of_readOnly hb hunit) hungrouped
    exact ⟨u, hu, hunit⟩

/-- A primary and its replica, which are one data source to the tables. -/
def pair : ReadwriteGroup := ⟨"ds", "primary", ["replica"], .first⟩

def pairedUnits : NameMap Dialect := .ofList [("primary", .mySql), ("replica", .mySql)]

def paired (sharding : ShardingSpec) : Configuration :=
  ⟨.default, ⟨"shop", .mySql, pairedUnits⟩, sharding, [pair]⟩

def pairedWith (rule : ShardingRule) : Deployment :=
  ⟨.default, ⟨"shop", pairedUnits⟩, rule, some (.ofGroups [pair]), .builtin .mySql⟩

def pairedTable : TableRule :=
  ⟨"t_order", [⟨"ds", "t_order"⟩], none, none, none, List.cons_ne_nil _ _⟩

def pairedOrders : Configuration :=
  paired { ShardingSpec.empty with
    tables := .ofList [("t_order", ⟨"ds.t_order", none, none, none⟩)] }

set_option maxRecDepth 20000 in
/-- A write to a table whose data source is the group goes to the primary. -/
theorem write_reaches_readOnly_orders :
    let route : Route := ⟨[⟨⟨"ds", "primary"⟩, [⟨"t_order", "t_order"⟩]⟩], [], []⟩
    pairedOrders.build = .ok (pairedWith (ShardingRule.empty.withTable pairedTable)) ∧
      (pairedWith (ShardingRule.empty.withTable pairedTable)).Gives
        ⟨"UPDATE t_order SET paid = 1", .of .update ["t_order"], [], .none⟩ (.ok route) ∧
      ¬ ∃ u ∈ route.units, pairedOrders.ReadOnly u.dataSource := by
  have hbuild : pairedOrders.build =
      .ok (pairedWith (ShardingRule.empty.withTable pairedTable)) := rfl
  have hgives : (pairedWith (ShardingRule.empty.withTable pairedTable)).Gives
      ⟨"UPDATE t_order SET paid = 1", .of .update ["t_order"], [], .none⟩
      (.ok ⟨[⟨⟨"ds", "primary"⟩, [⟨"t_order", "t_order"⟩]⟩], [], []⟩) :=
    Deployment.gives_iff.2 ⟨rfl, ∅, ∅, rfl⟩
  refine ⟨hbuild, hgives, fun hreached => ?_⟩
  have hnodes : ∀ source, (pairedWith (ShardingRule.empty.withTable pairedTable)).rule.Uses source →
      pairedOrders.ReadOnly source → pairedOrders.IsGroup source := by
    rintro source ⟨t, ht, hsource⟩ -
    rw [List.mem_singleton.1 ht] at hsource
    have hname : source = "ds" := List.mem_singleton.1 hsource
    exact ⟨pair, List.mem_singleton_self _, by rw [hname]; rfl⟩
  obtain ⟨htables, -⟩ := (write_reaches_readOnly_iff hbuild hnodes hgives rfl).1 hreached
  cases htables

def pairedDictionary : Configuration := paired { ShardingSpec.empty with broadcastTables := ["t_dict"] }

/-- A write to the broadcast table. -/
def updateDictionary : Query := ⟨"UPDATE t_dict SET v = 1", .of .update ["t_dict"], [], .none⟩

set_option maxRecDepth 20000 in
/-- Without a sharding table a write to a broadcast table is sent to the replica as well. -/
theorem dictionary_written_on_replica :
    pairedDictionary.build = .ok (pairedWith (ShardingRule.empty.withBroadcastTable "t_dict")) ∧
      (∀ source, ¬ (ShardingRule.empty.withBroadcastTable "t_dict").Uses source) ∧
      isWrite updateDictionary = true ∧
      ∃ route, (pairedWith (ShardingRule.empty.withBroadcastTable "t_dict")).Gives updateDictionary
        (.ok route) ∧ ∃ u ∈ route.units, pairedDictionary.ReadOnly u.dataSource := by
  refine ⟨rfl, fun source ⟨t, ht, _⟩ => List.not_mem_nil ht, rfl,
    ⟨[⟨⟨"primary", "primary"⟩, [⟨"t_dict", "t_dict"⟩]⟩,
      ⟨⟨"replica", "replica"⟩, [⟨"t_dict", "t_dict"⟩]⟩], [], []⟩,
    Deployment.gives_iff.2 ⟨rfl, ∅, ∅, rfl⟩, _, List.mem_cons_of_mem _ (List.mem_singleton_self _),
    ⟨pair, List.mem_singleton_self _, List.mem_singleton_self _⟩, fun g hg => ?_⟩
  rw [List.mem_singleton.1 hg]
  decide

end ShardedSql
