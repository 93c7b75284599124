import ShardedSql.Proofs.Built
import ShardedSql.Proofs.Declarations

/-! Which configurations build. What is asked of each section is stated of the document alone, and every
step of the assembly succeeds just when its section is as asked. -/

namespace ShardedSql

/-- The declared columns that are not blank, or the default column in place of none. -/
def StrategySpec.columnCount (s : StrategySpec) (default : Option String) : Nat :=
  match (s.columns.filter (!Text.blank ·)).length with
  | 0 => default.toList.length
  | columns => columns

/-- The entry is two names around its only dot, the first of them that of a known data source. -/
def NamesNode (known : String → Prop) (entry : String) : Prop :=
  ∃ n : DataNode, n.Plain ∧ Text.trim entry = n.text ∧ known n.dataSource

namespace ShardingSpec

/-- The strategy names a declared algorithm and has as many columns as that accepts. -/
def Supports (spec : ShardingSpec) (s : StrategySpec) : Prop :=
  ∃ declared shape, spec.algorithms.get? s.algorithm = some declared ∧ declared.DeclaresSharding shape ∧
    shape.Accepts (s.columnCount spec.defaultColumn)

structure ValidTable (spec : ShardingSpec) (known : String → Prop) (t : TableSpec) : Prop where
  nodes : ∃ entries, Declaration.expand .none t.nodes = .ok entries ∧ entries ≠ [] ∧
    ∀ entry ∈ entries, NamesNode known entry
  databaseStrategy : ∀ s ∈ t.databaseStrategy, spec.Supports s
  tableStrategy : ∀ s ∈ t.tableStrategy, spec.Supports s
  keyStrategy : ∀ s ∈ t.keyStrategy, s.generator ∈ spec.keyGenerators.names ∧ Text.blank s.column = false

structure Valid (spec : ShardingSpec) (known : String → Prop) : Prop where
  algorithms : ∀ e ∈ spec.algorithms.entries, ∃ shape, e.2.DeclaresSharding shape
  keyGenerators : ∀ e ∈ spec.keyGenerators.entries, e.2.DeclaresGenerator
  auditors : ∀ e ∈ spec.auditors.entries, e.2.DeclaresAuditor
  tables : ∀ e ∈ spec.tables.entries, spec.ValidTable known e.2
  bindingTables : ∀ group ∈ spec.bindingTables, ∀ table ∈ group, ∃ name ∈ spec.tables.names,
    Text.lower name = Text.lower table
  broadcastTables : ∀ b ∈ spec.broadcastTables, ∀ name ∈ spec.tables.names, Text.sameName name b = false
  defaultDatabaseStrategy : ∀ s ∈ spec.defaultDatabaseStrategy, spec.Supports s
  defaultTableStrategy : ∀ s ∈ spec.defaultTableStrategy, spec.Supports s
  audit : ∀ a ∈ spec.audit, ∀ name ∈ a.auditors, name ∈ spec.auditors.names
  cache : ∀ o ∈ spec.cache, o.maxSize ≠ 0

end ShardingSpec

namespace Configuration

/-- A storage unit or a group has the name, up to letter case. -/
def Knows (c : Configuration) (source : String) : Prop :=
  ∃ name ∈ c.database.units.names ++ c.readwriteGroups.map (·.name), Text.lower name = Text.lower source

/-- All references and options of the document are valid. -/
structure Valid (c : Configuration) : Prop where
  connections : 1 ≤ c.props.maxConnections
  databaseName : Text.blank c.database.name = false
  units : c.database.units.names ≠ []
  unitNames : ∀ name ∈ c.database.units.names, Text.blank name = false ∧ '.' ∉ name.toList
  groups : ∀ g ∈ c.readwriteGroups, Text.blank g.name = false ∧
    ∀ unit ∈ g.writeUnit :: g.readUnits, unit ∈ c.database.units.names
  groupNames : (c.readwriteGroups.map fun g => Text.lower (Text.trim g.name)).Nodup
  sharding : c.sharding.Valid c.Knows

section Strategies

variable {spec : ShardingSpec} {algorithms : NameMap Algorithm} (place : StrategyPlace)

theorem length_columns (default : Option String) (s : StrategySpec) {a : Algorithm}
    (ha : ∀ h, a ≠ .hint h) : (columns default s.columns a).length = s.columnCount default := by
  have hnamed : ((s.columns.map Text.trim).filter (!·.isEmpty)).length =
      (s.columns.filter (!Text.blank ·)).length := by
    rw [List.filter_map, List.length_map]
    refine congrArg List.length (List.filter_congr fun c _ => ?_)
    rw [Function.comp_apply, Bool.eq_iff_iff, Bool.not_eq_true', Bool.not_eq_true',
      String.isEmpty_eq_false_iff, ← Bool.not_eq_true, ne_eq, Text.trim_eq_empty]
  unfold columns StrategySpec.columnCount
  rw [← hnamed]
  cases (s.columns.map Text.trim).filter (!·.isEmpty) with
  | nil =>
    cases a with
    | hint h => exact absurd rfl (ha h)
    | standard _ => cases default <;> rfl
    | complex _ => cases default <;> rfl
  | cons column rest => rfl

/-- The columns that a strategy is built with are as many as its declaration counts, unless the number does
not matter. -/
theorem accepts_columns (default : Option String) (s : StrategySpec) (a : Algorithm) :
    a.shape.Accepts (columns default s.columns a).length ↔ a.shape.Accepts (s.columnCount default) := by
  cases a with
  | standard a => rw [length_columns default s (by simp)]
  | complex a => rw [length_columns default s (by simp)]
  | hint a => rfl

theorem exists_strategy (h : buildNamed Registry.builtin.sharding .sharding spec.algorithms = .ok algorithms)
    {s : StrategySpec} :
    (∃ built, strategy spec.defaultColumn algorithms place s = .ok built) ↔ spec.Supports s := by
  simp only [strategy_eq_ok, buildNamed_get? h]
  constructor
  · rintro ⟨built, a, ⟨declared, hdeclared, ha⟩, hbuilt⟩
    exact ⟨declared, a.shape, hdeclared, AlgorithmSpec.exists_sharding.1 ⟨a, ha, rfl⟩,
      (accepts_columns _ s a).1 (Algorithm.exists_strategy.1 ⟨built, hbuilt⟩)⟩
  · rintro ⟨declared, shape, hdeclared, hshape, haccepts⟩
    obtain ⟨a, ha, rfl⟩ := AlgorithmSpec.exists_sharding.2 hshape
    obtain ⟨built, hbuilt⟩ := Algorithm.exists_strategy.2 ((accepts_columns _ s a).2 haccepts)
    exact ⟨built, a, ⟨declared, hdeclared, ha⟩, hbuilt⟩

theorem exists_strategy? (h : buildNamed Registry.builtin.sharding .sharding spec.algorithms = .ok algorithms)
    {s : Option StrategySpec} :
    (∃ built, strategy? spec.defaultColumn algorithms place s = .ok built) ↔ ∀ s' ∈ s, spec.Supports s' := by
  cases s with
  | none => exact iff_of_true ⟨none, rfl⟩ nofun
  | some s =>
    simp only [strategy?, bind_eq_ok, Option.mem_some, forall_eq', ← exists_strategy place h]
    constructor
    · rintro ⟨_, built, hbuilt, -⟩
      exact ⟨built, hbuilt⟩
    · rintro ⟨built, hbuilt⟩
      exact ⟨_, built, hbuilt, rfl⟩

theorem exists_keyStrategy {generators : NameMap KeyGenerator} (table : String)
    (h : buildNamed Registry.builtin.keyGenerators .keyGenerator spec.keyGenerators = .ok generators)
    {s : Option KeyStrategy} : (∃ built, keyStrategy generators table s = .ok built) ↔
      ∀ s' ∈ s, s'.generator ∈ spec.keyGenerators.names ∧ Text.blank s'.column = false := by
  cases s with
  | none => exact iff_of_true ⟨none, rfl⟩ nofun
  | some s =>
    simp only [Option.mem_some, forall_eq', keyStrategy, bind_eq_ok, guarded_eq_ok, buildNamed_contains h,
      Bool.not_eq_true']
    constructor
    · rintro ⟨_, _, hknown, _, hcolumn, -⟩
      exact ⟨hknown, hcolumn⟩
    · rintro ⟨hknown, hcolumn⟩
      exact ⟨_, (), hknown, (), hcolumn, rfl⟩

end Strategies

section Tables

variable {spec : ShardingSpec} {sources : List String}

/-- An expression makes a table rule on known data sources just when it has entries and all of them name
nodes there. -/
theorem exists_nodes (table : String) {expression : String} :
    (∃ r, TableRule.ofExpression table expression = .ok r ∧
      ∀ source ∈ r.dataSources, Text.lower source ∈ sources) ↔
    ∃ entries, Declaration.expand .none expression = .ok entries ∧ entries ≠ [] ∧
      ∀ entry ∈ entries, NamesNode (Text.lower · ∈ sources) entry := by
  constructor
  · rintro ⟨r, hr, hsources⟩
    obtain ⟨⟨entries, parsed, hexpand, hparsed, hnodes⟩, -⟩ := TableRule.ofExpression_eq_ok.1 hr
    refine ⟨entries, hexpand, ?_, fun entry hentry => ?_⟩
    · rintro rfl
      cases hparsed
      exact r.nodes_ne_nil hnodes
    · obtain ⟨n, hn, hread⟩ := exists_of_mem_left hparsed hentry
      obtain ⟨hplain, htext⟩ := DataNode.parse?_eq_some.1 hread
      have hmem : n ∈ r.nodes := hnodes ▸ mem_distinct.2 hn
      exact ⟨n, hplain, htext, hsources _ (TableRule.mem_dataSources.2 ⟨n, hmem, rfl⟩)⟩
  · rintro ⟨entries, hexpand, hne, hentries⟩
    obtain ⟨parsed, hall⟩ : ∃ parsed, List.Forall₂ (fun entry (n : DataNode) =>
        DataNode.parse? entry = some n ∧ Text.lower n.dataSource ∈ sources) entries parsed := by
      refine exists_forall₂ fun entry hentry => ?_
      obtain ⟨n, hplain, htext, hknown⟩ := hentries entry hentry
      exact ⟨n, DataNode.parse?_eq_some.2 ⟨hplain, htext⟩, hknown⟩
    have hnodes : distinct parsed ≠ [] := by
      obtain ⟨entry, hentry⟩ := List.exists_mem_of_ne_nil entries hne
      obtain ⟨n, hn, -⟩ := exists_of_mem_left hall hentry
      exact List.ne_nil_of_mem (mem_distinct.2 hn)
    refine ⟨⟨table, distinct parsed, none, none, none, hnodes⟩, TableRule.ofExpression_eq_ok.2
      ⟨⟨entries, parsed, hexpand, hall.imp fun _ _ h => h.1, rfl⟩, rfl⟩, fun source hsource => ?_⟩
    obtain ⟨n, hn, rfl⟩ := TableRule.mem_dataSources.1 hsource
    obtain ⟨entry, -, -, hknown⟩ := exists_of_mem_right hall (mem_distinct.1 hn)
    exact hknown

theorem exists_tableRule {algorithms : NameMap Algorithm} {generators : NameMap KeyGenerator}
    (halgorithms : buildNamed Registry.builtin.sharding .sharding spec.algorithms = .ok algorithms)
    (hgenerators :
      buildNamed Registry.builtin.keyGenerators .keyGenerator spec.keyGenerators = .ok generators)
    (name : String) {t : TableSpec} :
    (∃ rule, tableRule spec algorithms generators sources name t = .ok rule) ↔
      spec.ValidTable (Text.lower · ∈ sources) t := by
  simp only [tableRule_eq_ok]
  constructor
  · rintro ⟨rule, r, hr, hsources, database, table, key, hdatabase, htable, hkey, -⟩
    exact ⟨(exists_nodes name).1 ⟨r, hr, hsources⟩, (exists_strategy? _ halgorithms).1 ⟨database, hdatabase⟩,
      (exists_strategy? _ halgorithms).1 ⟨table, htable⟩, (exists_keyStrategy name hgenerators).1 ⟨key, hkey⟩⟩
  · intro h
    obtain ⟨r, hr, hsources⟩ := (exists_nodes name).2 h.nodes
    obtain ⟨database, hdatabase⟩ := (exists_strategy? (.database name) halgorithms).2 h.databaseStrategy
    obtain ⟨table, htable⟩ := (exists_strategy? (.table name) halgorithms).2 h.tableStrategy
    obtain ⟨key, hkey⟩ := (exists_keyStrategy name hgenerators).2 h.keyStrategy
    exact ⟨_, r, hr, hsources, database, table, key, hdatabase, htable, hkey, rfl⟩

end Tables

section Rules

variable {spec : ShardingSpec} {sources : List String}

theorem exists_auditStrategy : (∃ audit, auditStrategy spec = .ok audit) ↔
    ∀ a ∈ spec.audit, ∀ name ∈ a.auditors, name ∈ spec.auditors.names := by
  unfold auditStrategy
  cases spec.audit with
  | none => exact iff_of_true ⟨_, rfl⟩ nofun
  | some a =>
    simp only [bind_eq_ok, forM_eq_ok, guarded_eq_ok, NameMap.contains_iff, Option.mem_some, forall_eq']
    exact ⟨fun ⟨_, _, h, _⟩ => h, fun h => ⟨a, (), h, rfl⟩⟩

theorem exists_cacheOptions {options : Option CacheOptions} :
    (∃ cache, cacheOptions options = .ok cache) ↔ ∀ o ∈ options, o.maxSize ≠ 0 := by
  unfold cacheOptions
  cases options <;> simp [bind_eq_ok, guarded_eq_ok]

/-- A sharding rule that is assembled has a valid declaration. -/
theorem valid_of_assembled {built : NameMap Algorithm} {rules : List TableRule} {rule : ShardingRule}
    (h : Assembled .builtin spec sources built rules rule) : spec.Valid (Text.lower · ∈ sources) where
  algorithms e he := by
    obtain ⟨a, ha⟩ := (exists_buildNamed _).1 ⟨built, h.algorithms⟩ e he
    exact ⟨a.shape, AlgorithmSpec.exists_sharding.1 ⟨a, ha, rfl⟩⟩
  keyGenerators e he := AlgorithmSpec.exists_generator.1 ((exists_buildNamed _).1 ⟨_, h.generators⟩ e he)
  auditors e he := AlgorithmSpec.exists_auditor.1 ((exists_buildNamed _).1 ⟨_, h.auditors⟩ e he)
  tables e he := by
    obtain ⟨t, -, ht⟩ := exists_of_mem_left h.tableRules he
    exact (exists_tableRule h.algorithms h.generators e.1).1 ⟨t, ht⟩
  bindingTables group hgroup table htable := h.contains_iff.1 (h.bound group hgroup table htable)
  broadcastTables := h.unshared
  defaultDatabaseStrategy := by
    obtain ⟨s, hs, -⟩ := h.databaseStrategy
    exact (exists_strategy? _ h.algorithms).1 ⟨s, hs⟩
  defaultTableStrategy := by
    obtain ⟨s, hs, -⟩ := h.tableStrategy
    exact (exists_strategy? _ h.algorithms).1 ⟨s, hs⟩
  audit := exists_auditStrategy.1 ⟨_, h.audit⟩
  cache := exists_cacheOptions.1 ⟨_, h.cache⟩

theorem shardingRule_of_valid (h : spec.Valid (Text.lower · ∈ sources)) :
    ∃ rule, shardingRule .builtin spec sources = .ok rule := by
  obtain ⟨algorithms, halgorithms⟩ := (exists_buildNamed .sharding).2 fun e he => by
    obtain ⟨shape, hshape⟩ := h.algorithms e he
    obtain ⟨a, ha, -⟩ := AlgorithmSpec.exists_sharding.2 hshape
    exact ⟨a, ha⟩
  obtain ⟨generators, hgenerators⟩ := (exists_buildNamed .keyGenerator).2 fun e he =>
    AlgorithmSpec.exists_generator.2 (h.keyGenerators e he)
  obtain ⟨auditors, hauditors⟩ := (exists_buildNamed .auditor).2 fun e he =>
    AlgorithmSpec.exists_auditor.2 (h.auditors e he)
  obtain ⟨rules, hrules⟩ := exists_forall₂ fun e he =>
    (exists_tableRule halgorithms hgenerators e.1).2 (h.tables e he)
  obtain ⟨database, hdatabase⟩ :=
    (exists_strategy? .defaultDatabase halgorithms).2 h.defaultDatabaseStrategy
  obtain ⟨table, htable⟩ := (exists_strategy? .defaultTable halgorithms).2 h.defaultTableStrategy
  obtain ⟨audit, haudit⟩ := exists_auditStrategy.2 h.audit
  obtain ⟨cache, hcache⟩ := exists_cacheOptions.2 h.cache
  have hnames : rules.map (·.logicTable) = spec.tables.names :=
    map_eq_of_forall₂ (hrules.imp fun _ _ ht => logicTable_of_tableRule ht)
  have hbound : ∀ group ∈ spec.bindingTables, ∀ table ∈ group,
      (rules.foldl ShardingRule.withTable .empty).tables.contains (Text.lower table) = true := by
    intro group hgroup table htable
    rw [ShardingRule.foldl_withTable_tables, TableRule.contains_ofList, hnames]
    exact h.bindingTables group hgroup table htable
  -- the steps of the assembly in turn
  refine exists_bind_eq_ok.2 ⟨algorithms, halgorithms, ?_⟩
  refine exists_bind_eq_ok.2 ⟨generators, hgenerators, ?_⟩
  refine exists_bind_eq_ok.2 ⟨auditors, hauditors, ?_⟩
  refine exists_bind_eq_ok.2 ⟨rules, mapM_eq_ok.2 hrules, ?_⟩
  refine exists_bind_eq_ok.2 ⟨_, foldlM_bindingGroup_eq_ok.2 ⟨hbound, rfl⟩, ?_⟩
  refine exists_bind_eq_ok.2 ⟨_, foldlM_broadcastTable_eq_ok.2 ⟨h.broadcastTables, rfl⟩, ?_⟩
  refine exists_bind_eq_ok.2 ⟨database, hdatabase, ?_⟩
  refine exists_bind_eq_ok.2 ⟨table, htable, ?_⟩
  refine exists_bind_eq_ok.2 ⟨audit, haudit, ?_⟩
  exact exists_bind_eq_ok.2 ⟨cache, hcache, _, rfl⟩

end Rules

/-- The names of the groups in lower case, each of them kept by it, are those of the declared ones. -/
theorem mem_names_ofGroups {groups : List ReadwriteGroup} {name : String} :
    name ∈ (ReadwriteRule.ofGroups groups).names.map Text.lower ↔
      ∃ g ∈ groups, Text.lower g.name = name := by
  simp only [ReadwriteRule.names, ReadwriteRule.ofGroups, NameMap.values, List.mem_map,
    exists_exists_and_eq_and]
  constructor
  · rintro ⟨e, he, rfl⟩
    obtain ⟨g, hg, rfl⟩ := List.mem_map.1 (NameMap.mem_of_mem_ofList he)
    exact ⟨g, hg, rfl⟩
  · rintro ⟨g, hg, rfl⟩
    obtain ⟨v, hv⟩ := Option.ne_none_iff_exists'.1 fun hnone =>
      NameMap.get?_ofList_eq_none.1 hnone _
        (List.mem_map_of_mem (f := fun g => (Text.lower g.name, g)) hg) rfl
    have hmem := NameMap.get?_eq_some.1 hv
    obtain ⟨g', -, heq⟩ := List.mem_map.1 (NameMap.mem_of_mem_ofList hmem)
    obtain ⟨hname, rfl⟩ := Prod.mk.inj heq
    exact ⟨_, hmem, hname⟩

variable {c : Configuration}

theorem mem_logicalSources {t : Topology} {readwrite : Option ReadwriteRule}
    (ht : t.units = c.database.units)
    (hreadwrite : readwrite = if c.readwriteGroups.isEmpty then none else some (.ofGroups c.readwriteGroups))
    (source : String) : Text.lower source ∈ logicalSources t readwrite ↔ c.Knows source := by
  have hgroups : Text.lower source ∈ ((readwrite.map ReadwriteRule.names).getD []).map Text.lower ↔
      ∃ g ∈ c.readwriteGroups, Text.lower g.name = Text.lower source := by
    rw [hreadwrite]
    split
    · rename_i hempty
      rw [List.isEmpty_iff.1 hempty]
      simp
    · exact mem_names_ofGroups
  rw [logicalSources, List.mem_append, hgroups, Topology.names, ht, Knows]
  simp only [List.mem_map, List.mem_append, or_and_right, exists_or, exists_exists_and_eq_and]

theorem exists_topology {t : Topology} : topology c.database = .ok t ↔
    Text.blank c.database.name = false ∧ c.database.units.names ≠ [] ∧
      (∀ name ∈ c.database.units.names, Text.blank name = false ∧ '.' ∉ name.toList) ∧
      t = ⟨Text.trim c.database.name, c.database.units⟩ := by
  simp [topology_eq_ok, NameMap.names]

theorem groups_fit_iff {t : Topology} (ht : t.units = c.database.units) :
    (∀ g ∈ c.readwriteGroups, GroupFits t g) ↔ ∀ g ∈ c.readwriteGroups, Text.blank g.name = false ∧
      ∀ unit ∈ g.writeUnit :: g.readUnits, unit ∈ c.database.units.names := by
  simp only [GroupFits, ne_eq, Text.trim_eq_empty, Bool.not_eq_true, Topology.contains_iff,
    Topology.names, ht]

end Configuration

/-- A configuration builds if and only if all its references and options are valid. -/
theorem builds_iff_valid (c : Configuration) : (∃ d, c.build = .ok d) ↔ c.Valid := by
  simp only [Configuration.build_eq_ok_iff]
  constructor
  · rintro ⟨d, h⟩
    obtain ⟨hconnections, htopology, hreadwrite, hrule, -⟩ := Configuration.buildWith_eq_ok.1 h
    obtain ⟨hname, hunits, hnamed, ht⟩ := Configuration.exists_topology.1 htopology
    obtain ⟨hgroups, hfit, hdistinct⟩ := Configuration.readwriteRule_eq_ok.1 hreadwrite
    obtain ⟨built, rules, hassembled⟩ := Configuration.assembled_of_shardingRule hrule
    have hunitsOf : d.topology.units = c.database.units := congrArg Topology.units ht
    have hknown := funext fun source => propext (Configuration.mem_logicalSources hunitsOf hgroups source)
    exact ⟨Nat.one_le_iff_ne_zero.2 hconnections, hname, hunits, hnamed,
      (Configuration.groups_fit_iff hunitsOf).1 hfit, hdistinct,
      hknown ▸ Configuration.valid_of_assembled hassembled⟩
  · intro h
    let t : Topology := ⟨Text.trim c.database.name, c.database.units⟩
    have htopology : Configuration.topology c.database = .ok t :=
      Configuration.exists_topology.2 ⟨h.databaseName, h.units, h.unitNames, rfl⟩
    have hreadwrite := Configuration.readwriteRule_eq_ok.2
      ⟨rfl, (Configuration.groups_fit_iff (t := t) rfl).2 h.groups, h.groupNames⟩
    have hknown := funext fun source => propext (Configuration.mem_logicalSources (t := t) rfl rfl source)
    obtain ⟨rule, hrule⟩ := Configuration.shardingRule_of_valid (hknown ▸ h.sharding)
    exact ⟨⟨_, t, rule, _, _⟩, Configuration.buildWith_eq_ok.2
      ⟨Nat.one_le_iff_ne_zero.1 h.connections, htopology, hreadwrite, hrule, rfl⟩⟩

end ShardedSql
