import ShardedSql.Proofs.Assembly
import ShardedSql.Proofs.Placed

/-! What is known of a deployment because its configuration builds: the units of the groups exist, the
data sources of the tables are storage units or groups up to letter case, and the tables are the
declared ones. -/

namespace ShardedSql

namespace Configuration

variable {c : Configuration} {d : Deployment}

/-- What a configuration that builds ensures. -/
structure Built (c : Configuration) (d : Deployment) : Prop where
  groupUnits : ∀ g ∈ c.readwriteGroups, ∀ unit ∈ g.writeUnit :: g.readUnits,
    d.topology.contains unit = true
  readwrite : d.readwrite =
    if c.readwriteGroups.isEmpty then none else some (.ofGroups c.readwriteGroups)
  declared : d.rule.declaredSources = []
  sources : ∀ source, d.rule.Uses source →
    Text.lower source ∈ logicalSources d.topology d.readwrite
  tables : d.rule.tables.entries = [] ↔ c.sharding.tables.entries = []
  broadcast : ∀ table, d.rule.isBroadcast table = true ↔
    ∃ b ∈ c.sharding.broadcastTables, Text.lower b = Text.lower table

/-- The data sources of the tables are those that the table rules were checked against. -/
theorem Assembled.sources {registry : Registry} {spec : ShardingSpec} {sources : List String}
    {built : NameMap Algorithm} {rules : List TableRule} {rule : ShardingRule}
    (h : Assembled registry spec sources built rules rule) {source : String} (hsource : rule.Uses source) :
    Text.lower source ∈ sources := by
  obtain ⟨t, ht, hsource⟩ := hsource
  obtain ⟨e, -, he⟩ := h.of_mem_tables ht
  obtain ⟨r, -, hsources, _, _, _, -, -, -, rfl⟩ := tableRule_eq_ok.1 he
  exact hsources source hsource

theorem built_of_buildWith {registry : Registry} (h : c.buildWith registry = .ok d) : c.Built d := by
  obtain ⟨-, -, hreadwrite, hrule, -⟩ := buildWith_eq_ok.1 h
  obtain ⟨hgroups, hfit, -⟩ := readwriteRule_eq_ok.1 hreadwrite
  obtain ⟨built, rules, hassembled⟩ := assembled_of_shardingRule hrule
  refine ⟨fun g hg => (hfit g hg).2, hgroups, hassembled.declaredSources,
    fun source => hassembled.sources, hassembled.tables_eq_nil, fun table => ?_⟩
  rw [ShardingRule.isBroadcast, List.contains_iff_mem, hassembled.broadcastTables, List.mem_reverse,
    List.mem_map]

/-- A group has the name, up to letter case. -/
def IsGroup (c : Configuration) (name : String) : Prop :=
  ∃ g ∈ c.readwriteGroups, Text.lower g.name = Text.lower name

/-- There are tables, and all of them are declared to be broadcast, up to letter case. -/
def Broadcasts (c : Configuration) (tables : List String) : Prop :=
  tables ≠ [] ∧ ∀ table ∈ tables, ∃ b ∈ c.sharding.broadcastTables, Text.lower b = Text.lower table

/-- The table is declared with data nodes, up to letter case. -/
def Shards (c : Configuration) (table : String) : Prop :=
  ∃ name ∈ c.sharding.tables.names, Text.lower name = Text.lower table

theorem isSharding_iff (h : c.build = .ok d) {table : String} :
    d.rule.isSharding table = true ↔ c.Shards table := by
  obtain ⟨built, rules, hassembled⟩ := assembled_of_build h
  exact hassembled.contains_iff

namespace Built

theorem allBroadcast_iff (h : c.Built d) {tables : List String} :
    d.rule.allBroadcast tables = true ↔ c.Broadcasts tables := by
  rw [ShardingRule.allBroadcast, Bool.and_eq_true, List.all_eq_true, Broadcasts]
  simp only [h.broadcast, Bool.not_eq_true', List.isEmpty_eq_false_iff]

theorem ofGroups_of_mem (h : c.Built d) {rw : ReadwriteRule} (hrw : rw ∈ d.readwrite) :
    rw = .ofGroups c.readwriteGroups := by
  rw [h.readwrite] at hrw
  split at hrw <;> cases hrw
  rfl

theorem mem_groups (h : c.Built d) {rw : ReadwriteRule} (hrw : rw ∈ d.readwrite)
    {g : ReadwriteGroup} (hg : g ∈ rw.groups.values) : g ∈ c.readwriteGroups := by
  rw [h.ofGroups_of_mem hrw] at hg
  obtain ⟨e, he, rfl⟩ := List.mem_map.1 hg
  obtain ⟨g, hg, rfl⟩ := List.mem_map.1 (NameMap.mem_of_mem_ofList he)
  assumption

theorem ungrouped_iff (h : c.Built d) {name : String} :
    (∀ rw ∈ d.readwrite, rw.group? name = none) ↔ ¬ c.IsGroup name := by
  have hnone : (ReadwriteRule.ofGroups c.readwriteGroups).group? name = none ↔ ¬ c.IsGroup name := by
    simp [ReadwriteRule.group?, ReadwriteRule.ofGroups, NameMap.get?_ofList_eq_none, IsGroup]
  rw [h.readwrite]
  split
  · rename_i hempty
    simp [IsGroup, List.isEmpty_iff.1 hempty]
  · rw [← hnone]
    simp

end Built

end Configuration

end ShardedSql
