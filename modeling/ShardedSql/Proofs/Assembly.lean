import ShardedSql.Configuration.Build
import ShardedSql.Proofs.NameMaps
import ShardedSql.Proofs.NodeExpressions

/-! How a sharding rule is assembled, step by step: when a step succeeds, and what it then leaves. Every
step only adds to what was there, so the rule has each part just as its own step made it. -/

namespace ShardedSql

theorem TableRule.contains_ofList {rules : List TableRule} {table : String} :
    (NameMap.ofList (rules.map fun t => (Text.lower t.logicTable, t))).contains (Text.lower table) = true ↔
      ∃ name ∈ rules.map (·.logicTable), Text.lower name = Text.lower table := by
  rw [NameMap.contains, Option.isSome_iff_ne_none, ne_eq, NameMap.get?_ofList_eq_none]
  simp

namespace ShardingRule

/-- The tables are kept by their lower-cased names. -/
theorem foldl_withTable_tables (ts : List TableRule) :
    (ts.foldl withTable empty).tables = .ofList (ts.map fun t => (Text.lower t.logicTable, t)) := by
  rw [NameMap.ofList, List.foldl_map]
  exact (List.foldl_hom tables fun _ _ => rfl).symm

theorem foldl_withTable_rest (ts : List TableRule) (r : ShardingRule) :
    (ts.foldl withTable r).declaredSources = r.declaredSources ∧
      (ts.foldl withTable r).bindingGroups = r.bindingGroups ∧
      (ts.foldl withTable r).broadcastTables = r.broadcastTables := by
  induction ts generalizing r with
  | nil => exact ⟨rfl, rfl, rfl⟩
  | cons t ts ih => exact ih (r.withTable t)

end ShardingRule

namespace Configuration

variable {α : Type}

theorem guarded_eq_ok {ok : Bool} {f : ConfigFault} {a : Unit} :
    guarded ok f = .ok a ↔ ok = true := by
  cases ok <;> simp [guarded, fault]

theorem topology_eq_ok {database : DatabaseSpec} {t : Topology} :
    topology database = .ok t ↔ Text.blank database.name = false ∧ database.units.entries ≠ [] ∧
      (∀ e ∈ database.units.entries, Text.blank e.1 = false ∧ '.' ∉ e.1.toList) ∧
      t = ⟨Text.trim database.name, database.units⟩ := by
  simp only [topology, unit, bind_eq_ok, forM_eq_ok, guarded_eq_ok, Except.ok.injEq, NameMap.isEmpty,
    Bool.and_eq_true, Bool.not_eq_true', List.isEmpty_eq_false_iff, List.contains_eq_mem,
    decide_eq_false_iff_not]
  constructor
  · rintro ⟨_, hname, _, hunits, _, hnamed, rfl⟩
    exact ⟨hname, hunits, hnamed, rfl⟩
  · rintro ⟨hname, hunits, hnamed, rfl⟩
    exact ⟨(), hname, (), hunits, (), hnamed, rfl⟩

section Groups

variable {topology : Topology} {groups : List ReadwriteGroup} {earlier names : List String}
  {g : ReadwriteGroup}

/-- The name that groups are told apart by. -/
def groupKey (g : ReadwriteGroup) : String := Text.lower (Text.trim g.name)

/-- What a group has to be, whatever other groups there are. -/
def GroupFits (topology : Topology) (g : ReadwriteGroup) : Prop :=
  Text.trim g.name ≠ "" ∧ ∀ unit ∈ g.writeUnit :: g.readUnits, topology.contains unit = true

theorem group_eq_ok : group topology earlier g = .ok names ↔
    GroupFits topology g ∧ groupKey g ∉ earlier ∧ names = groupKey g :: earlier := by
  simp only [group, bind_eq_ok, forM_eq_ok, guarded_eq_ok, Except.ok.injEq, GroupFits, groupKey,
    Bool.not_eq_true', String.isEmpty_eq_false_iff, List.contains_eq_mem, decide_eq_false_iff_not]
  constructor
  · rintro ⟨_, hname, _, hnew, _, hunits, rfl⟩
    exact ⟨⟨hname, hunits⟩, hnew, rfl⟩
  · rintro ⟨⟨hname, hunits⟩, hnew, rfl⟩
    exact ⟨(), hname, (), hnew, (), hunits, rfl⟩

theorem exists_foldlM_group : (∃ names, groups.foldlM (group topology) earlier = .ok names) ↔
    (∀ g ∈ groups, GroupFits topology g) ∧ (groups.map groupKey).Nodup ∧
      ∀ g ∈ groups, groupKey g ∉ earlier := by
  induction groups generalizing earlier with
  | nil => simp [pure, Except.pure]
  | cons g groups ih =>
    have hsplit : (∃ names, (g :: groups).foldlM (group topology) earlier = .ok names) ↔
        (GroupFits topology g ∧ groupKey g ∉ earlier) ∧
          ∃ names, groups.foldlM (group topology) (groupKey g :: earlier) = .ok names := by
      simp only [List.foldlM_cons, bind_eq_ok, group_eq_ok]
      constructor
      · rintro ⟨names, _, ⟨hfits, hnew, rfl⟩, h⟩
        exact ⟨⟨hfits, hnew⟩, names, h⟩
      · rintro ⟨⟨hfits, hnew⟩, names, h⟩
        exact ⟨names, _, ⟨hfits, hnew, rfl⟩, h⟩
    rw [hsplit, ih, List.forall_mem_cons, List.forall_mem_cons, List.map_cons, List.nodup_cons, List.mem_map]
    simp only [List.mem_cons, not_or, not_exists, not_and]
    constructor
    · rintro ⟨⟨hfits, hnew⟩, hall, hnodup, hdiffer⟩
      exact ⟨⟨hfits, hall⟩, ⟨fun g' hg' => (hdiffer g' hg').1, hnodup⟩, hnew,
        fun g' hg' => (hdiffer g' hg').2⟩
    · rintro ⟨⟨hfits, hall⟩, ⟨hdiffer, hnodup⟩, hnew, hrest⟩
      exact ⟨⟨hfits, hnew⟩, hall, hnodup, fun g' hg' => ⟨hdiffer g' hg', hrest g' hg'⟩⟩

theorem readwriteRule_eq_ok {rule : Option ReadwriteRule} :
    readwriteRule topology groups = .ok rule ↔
      rule = (if groups.isEmpty then none else some (.ofGroups groups)) ∧
        (∀ g ∈ groups, GroupFits topology g) ∧ (groups.map groupKey).Nodup := by
  have hfold : (∃ names, groups.foldlM (group topology) [] = .ok names) ↔
      (∀ g ∈ groups, GroupFits topology g) ∧ (groups.map groupKey).Nodup := by
    simp [exists_foldlM_group]
  rw [← hfold, readwriteRule]
  split
  · rename_i hempty
    rw [List.isEmpty_iff.1 hempty]
    simp [pure, Except.pure, eq_comm]
  · simp only [bind_eq_ok, Except.ok.injEq]
    constructor
    · rintro ⟨names, hnames, rfl⟩
      exact ⟨rfl, names, hnames⟩
    · rintro ⟨rfl, names, hnames⟩
      exact ⟨names, hnames, rfl⟩

end Groups

section Algorithms

variable {constructors : NameMap (Constructor α)} {family : Family} {declared : NameMap AlgorithmSpec}
  {built : NameMap α}

/-- The algorithm that a declared name stands for. -/
def Declares (constructors : NameMap (Constructor α)) (declared : NameMap AlgorithmSpec) (name : String)
    (a : α) : Prop :=
  ∃ spec, declared.get? name = some spec ∧ Registry.construct constructors spec = .ok a

/-- The declarations are built in turn, each under its own name. -/
theorem buildNamed_eq_ok : buildNamed constructors family declared = .ok built ↔
    ∃ l, List.Forall₂ (fun e b => b.1 = e.1 ∧ Registry.construct constructors e.2 = .ok b.2)
      declared.entries l ∧ built = .ofList l := by
  rw [buildNamed, bind_eq_ok]
  refine exists_congr fun l => and_congr ?_ ?_
  · rw [mapM_eq_ok]
    refine iff_of_eq (congrArg (List.Forall₂ · _ l) (funext₂ fun e b => propext ?_))
    obtain ⟨name, spec⟩ := e
    dsimp only
    cases Registry.construct constructors spec with
    | error err => simp [fault]
    | ok a => simp [Prod.ext_iff, eq_comm]
  · rw [Except.ok.injEq, eq_comm]

theorem exists_buildNamed (family : Family) :
    (∃ built, buildNamed constructors family declared = .ok built) ↔
    ∀ e ∈ declared.entries, ∃ a, Registry.construct constructors e.2 = .ok a := by
  constructor
  · rintro ⟨built, h⟩ e he
    obtain ⟨l, hl, -⟩ := buildNamed_eq_ok.1 h
    obtain ⟨b, -, -, hb⟩ := exists_of_mem_left hl he
    exact ⟨b.2, hb⟩
  · intro h
    obtain ⟨l, hl⟩ : ∃ l : List (String × α), List.Forall₂ (fun e b => b.1 = e.1 ∧
        Registry.construct constructors e.2 = .ok b.2) declared.entries l := by
      refine exists_forall₂ fun e he => ?_
      obtain ⟨a, ha⟩ := h e he
      exact ⟨(e.1, a), rfl, ha⟩
    exact ⟨_, buildNamed_eq_ok.2 ⟨l, hl, rfl⟩⟩

theorem buildNamed_get? (h : buildNamed constructors family declared = .ok built) {name : String} {a : α} :
    built.get? name = some a ↔ Declares constructors declared name a := by
  obtain ⟨l, hl, rfl⟩ := buildNamed_eq_ok.1 h
  have hnames : l.map (·.1) = declared.names := map_eq_of_forall₂ (hl.imp fun _ _ h => h.1)
  rw [NameMap.get?_ofList_of_nodup (hnames ▸ declared.names_nodup)]
  constructor
  · intro hmem
    obtain ⟨e, he, hname, ha⟩ := exists_of_mem_right hl hmem
    refine ⟨e.2, NameMap.get?_eq_some.2 ?_, ha⟩
    rwa [show name = e.1 from hname]
  · rintro ⟨spec, hspec, ha⟩
    obtain ⟨b, hb, hname, hb'⟩ := exists_of_mem_left hl (NameMap.get?_eq_some.1 hspec)
    rw [ha] at hb'
    cases hb'
    rwa [← show b.1 = name from hname]

theorem buildNamed_contains (h : buildNamed constructors family declared = .ok built) {name : String} :
    built.contains name = true ↔ name ∈ declared.names := by
  rw [NameMap.contains, Option.isSome_iff_exists]
  simp only [buildNamed_get? h]
  constructor
  · rintro ⟨a, spec, hspec, -⟩
    exact NameMap.contains_iff.1 (Option.isSome_iff_exists.2 ⟨spec, hspec⟩)
  · intro hname
    obtain ⟨e, he, rfl⟩ := List.mem_map.1 hname
    obtain ⟨a, ha⟩ := (exists_buildNamed family).1 ⟨built, h⟩ e he
    exact ⟨a, e.2, NameMap.get?_eq_some.2 he, ha⟩

end Algorithms

section Tables

variable {default : Option String} {algorithms : NameMap Algorithm} {generators : NameMap KeyGenerator}
  {place : StrategyPlace} {table name : String} {spec : ShardingSpec} {sources : List String}

theorem strategy_eq_ok {s : StrategySpec} {built : Strategy} :
    strategy default algorithms place s = .ok built ↔ ∃ a, algorithms.get? s.algorithm = some a ∧
      Strategy.build (columns default s.columns a) a = .ok built := by
  unfold strategy
  cases algorithms.get? s.algorithm with
  | none => simp [fault]
  | some a => cases hbuilt : Strategy.build (columns default s.columns a) a <;> simp [fault, hbuilt]

theorem strategy?_eq_ok {s : Option StrategySpec} {built : Option Strategy} :
    strategy? default algorithms place s = .ok built ↔
      Option.Rel (fun s b => strategy default algorithms place s = .ok b) s built := by
  cases s with
  | none => cases built <;> simp [strategy?]
  | some s => cases built <;> simp [strategy?, bind_eq_ok]

theorem keyStrategy_eq_ok {s built : Option KeyStrategy} :
    keyStrategy generators table s = .ok built ↔
      Option.Rel (fun s b => generators.contains s.generator = true ∧ Text.blank s.column = false ∧
        b = ⟨Text.trim s.column, s.generator⟩) s built := by
  cases s with
  | none => cases built <;> simp [keyStrategy]
  | some s =>
    cases built with
    | none => simp [keyStrategy, bind_eq_ok]
    | some b => simp [keyStrategy, bind_eq_ok, guarded_eq_ok, @eq_comm _ b]

/-- A table rule has its nodes from the expression, all of them on known data sources. -/
theorem tableRule_eq_ok {t : TableSpec} {rule : TableRule} :
    tableRule spec algorithms generators sources name t = .ok rule ↔
      ∃ r, TableRule.ofExpression name t.nodes = .ok r ∧
        (∀ source ∈ r.dataSources, Text.lower source ∈ sources) ∧ ∃ database table key,
          strategy? spec.defaultColumn algorithms (.database name) t.databaseStrategy = .ok database ∧
          strategy? spec.defaultColumn algorithms (.table name) t.tableStrategy = .ok table ∧
          keyStrategy generators name t.keyStrategy = .ok key ∧
          rule = { r with databaseStrategy := database, tableStrategy := table, keyStrategy := key } := by
  unfold tableRule
  dsimp only
  cases TableRule.ofExpression name t.nodes with
  | error e => simp [fault, bind_eq_ok]
  | ok r =>
    simp only [bind_eq_ok, forM_eq_ok, guarded_eq_ok, List.contains_iff_mem, Except.ok.injEq]
    constructor
    · rintro ⟨_, rfl, _, hsources, database, hdatabase, table, htable, key, hkey, rfl⟩
      exact ⟨_, rfl, hsources, database, table, key, hdatabase, htable, hkey, rfl⟩
    · rintro ⟨_, rfl, hsources, database, table, key, hdatabase, htable, hkey, rfl⟩
      exact ⟨_, rfl, (), hsources, database, hdatabase, table, htable, key, hkey, rfl⟩

theorem logicTable_of_tableRule {t : TableSpec} {rule : TableRule}
    (h : tableRule spec algorithms generators sources name t = .ok rule) : rule.logicTable = name := by
  obtain ⟨r, hr, -, database, table, key, -, -, -, rfl⟩ := tableRule_eq_ok.1 h
  exact congrArg TableRule.logicTable (TableRule.ofExpression_eq_ok.1 hr).2

end Tables

theorem mapM_bindingKey_eq_ok {rule : ShardingRule} {tables keys : List String} :
    tables.mapM rule.bindingKey = .ok keys ↔
      (∀ table ∈ tables, rule.tables.contains (Text.lower table) = true) ∧
        keys = tables.map Text.lower := by
  have hone : ∀ table key, rule.bindingKey table = .ok key ↔
      rule.tables.contains (Text.lower table) = true ∧ key = Text.lower table := by
    intro table key
    unfold ShardingRule.bindingKey
    split
    · rename_i htable
      rw [Except.ok.injEq, eq_comm, and_iff_right htable]
    · rename_i htable
      exact iff_of_false nofun fun h => htable h.1
  rw [mapM_eq_ok]
  simp only [hone]
  induction tables generalizing keys with
  | nil => simp
  | cons table tables ih =>
    rw [List.forall₂_cons_left_iff, List.forall_mem_cons, List.map_cons]
    constructor
    · rintro ⟨_, keys, ⟨htable, rfl⟩, hkeys, rfl⟩
      obtain ⟨htables, rfl⟩ := ih.1 hkeys
      exact ⟨⟨htable, htables⟩, rfl⟩
    · rintro ⟨⟨htable, htables⟩, rfl⟩
      exact ⟨_, _, ⟨htable, rfl⟩, ih.2 ⟨htables, rfl⟩, rfl⟩

/-- A group is bound just when all its tables have rules; it becomes their lower-cased names. -/
theorem bindingGroup_eq_ok {rule rule' : ShardingRule} {group : List String} :
    bindingGroup rule group = .ok rule' ↔
      (∀ table ∈ group, rule.tables.contains (Text.lower table) = true) ∧
      rule' = { rule with
        bindingGroups := rule.bindingGroups ++ [distinct (group.map Text.lower)] } := by
  unfold bindingGroup ShardingRule.withBindingGroup
  cases hmap : group.mapM rule.bindingKey with
  | error e =>
    have hnot : ¬ ∀ table ∈ group, rule.tables.contains (Text.lower table) = true := by
      intro hall
      rw [mapM_bindingKey_eq_ok.2 ⟨hall, rfl⟩] at hmap
      cases hmap
    exact iff_of_false (by simp [fault, bind, Except.bind]) fun h => hnot h.1
  | ok keys =>
    obtain ⟨hall, rfl⟩ := mapM_bindingKey_eq_ok.1 hmap
    exact ⟨fun h => ⟨hall, (Except.ok.inj h).symm⟩, fun h => congrArg Except.ok h.2.symm⟩

theorem foldlM_bindingGroup_eq_ok {groups : List (List String)} {rule rule' : ShardingRule} :
    groups.foldlM bindingGroup rule = .ok rule' ↔
      (∀ group ∈ groups, ∀ table ∈ group, rule.tables.contains (Text.lower table) = true) ∧
      rule' = { rule with
        bindingGroups := rule.bindingGroups ++ groups.map fun g => distinct (g.map Text.lower) } := by
  induction groups generalizing rule with
  | nil =>
    rw [List.map_nil, List.append_nil]
    exact ⟨fun h => ⟨by simp, (Except.ok.inj h).symm⟩, fun h => congrArg Except.ok h.2.symm⟩
  | cons group groups ih =>
    rw [List.foldlM_cons, bind_eq_ok, List.forall_mem_cons]
    simp only [ih, bindingGroup_eq_ok]
    constructor
    · rintro ⟨_, ⟨hgroup, rfl⟩, hgroups, rfl⟩
      exact ⟨⟨hgroup, hgroups⟩, by rw [List.append_assoc]; rfl⟩
    · rintro ⟨⟨hgroup, hgroups⟩, rfl⟩
      exact ⟨_, ⟨hgroup, rfl⟩, hgroups, by rw [List.append_assoc]; rfl⟩

/-- No broadcast table may be declared as a sharded one, whatever the case of its ASCII letters. -/
theorem foldlM_broadcastTable_eq_ok {spec : ShardingSpec} {names : List String}
    {rule rule' : ShardingRule} : names.foldlM (broadcastTable spec) rule = .ok rule' ↔
      (∀ b ∈ names, ∀ table ∈ spec.tables.names, Text.sameName table b = false) ∧
      rule' = { rule with broadcastTables := (names.map Text.lower).reverse ++ rule.broadcastTables } := by
  induction names generalizing rule with
  | nil => exact ⟨fun h => ⟨by simp, (Except.ok.inj h).symm⟩, fun h => congrArg Except.ok h.2.symm⟩
  | cons b names ih =>
    have hone : ∀ rule₁, broadcastTable spec rule b = .ok rule₁ ↔
        (∀ table ∈ spec.tables.names, Text.sameName table b = false) ∧ rule₁ = rule.withBroadcastTable b := by
      intro rule₁
      simp [broadcastTable, bind_eq_ok, guarded_eq_ok, @eq_comm _ rule₁]
    rw [List.foldlM_cons, bind_eq_ok, List.forall_mem_cons]
    simp only [ih, hone]
    constructor
    · rintro ⟨_, ⟨hb, rfl⟩, hnames, rfl⟩
      refine ⟨⟨hb, hnames⟩, ?_⟩
      rw [List.map_cons, List.reverse_cons, List.append_assoc]
      rfl
    · rintro ⟨⟨hb, hnames⟩, rfl⟩
      refine ⟨_, ⟨hb, rfl⟩, hnames, ?_⟩
      rw [List.map_cons, List.reverse_cons, List.append_assoc]
      rfl

/-- The sharding rule and what it was made from: the built algorithms, and one table rule for each
declared table, in their order. -/
structure Assembled (registry : Registry) (spec : ShardingSpec) (sources : List String)
    (built : NameMap Algorithm) (rules : List TableRule) (rule : ShardingRule) : Prop where
  algorithms : buildNamed registry.sharding .sharding spec.algorithms = .ok built
  generators : buildNamed registry.keyGenerators .keyGenerator spec.keyGenerators = .ok rule.generators
  auditors : buildNamed registry.auditors .auditor spec.auditors = .ok rule.auditors
  tableRules : List.Forall₂ (fun e t => tableRule spec built rule.generators sources e.1 e.2 = .ok t)
    spec.tables.entries rules
  tables : rule.tables = .ofList (rules.map fun t => (Text.lower t.logicTable, t))
  declaredSources : rule.declaredSources = []
  bound : ∀ group ∈ spec.bindingTables, ∀ table ∈ group, rule.tables.contains (Text.lower table) = true
  bindingGroups : rule.bindingGroups = spec.bindingTables.map fun g => distinct (g.map Text.lower)
  unshared : ∀ b ∈ spec.broadcastTables, ∀ table ∈ spec.tables.names, Text.sameName table b = false
  broadcastTables : rule.broadcastTables = (spec.broadcastTables.map Text.lower).reverse
  databaseStrategy : ∃ s, strategy? spec.defaultColumn built .defaultDatabase
    spec.defaultDatabaseStrategy = .ok s ∧ rule.defaultDatabaseStrategy = s.getD .everywhere
  tableStrategy : ∃ s, strategy? spec.defaultColumn built .defaultTable
    spec.defaultTableStrategy = .ok s ∧ rule.defaultTableStrategy = s.getD .everywhere
  audit : auditStrategy spec = .ok rule.audit
  cache : cacheOptions spec.cache = .ok rule.cache

variable {registry : Registry} {spec : ShardingSpec} {sources : List String}

theorem assembled_of_shardingRule {rule : ShardingRule}
    (h : shardingRule registry spec sources = .ok rule) :
    ∃ built rules, Assembled registry spec sources built rules rule := by
  obtain ⟨built, halgorithms, h⟩ := bind_eq_ok.1 h
  obtain ⟨generators, hgenerators, h⟩ := bind_eq_ok.1 h
  obtain ⟨auditors, hauditors, h⟩ := bind_eq_ok.1 h
  obtain ⟨rules, hrules, h⟩ := bind_eq_ok.1 h
  obtain ⟨bound, hbound, h⟩ := bind_eq_ok.1 h
  obtain ⟨shared, hshared, h⟩ := bind_eq_ok.1 h
  obtain ⟨database, hdatabase, h⟩ := bind_eq_ok.1 h
  obtain ⟨table, htable, h⟩ := bind_eq_ok.1 h
  obtain ⟨audit, haudit, h⟩ := bind_eq_ok.1 h
  obtain ⟨cache, hcache, h⟩ := bind_eq_ok.1 h
  obtain ⟨hruled, rfl⟩ := foldlM_bindingGroup_eq_ok.1 hbound
  obtain ⟨hunshared, rfl⟩ := foldlM_broadcastTable_eq_ok.1 hshared
  obtain ⟨hdeclared, hgroups, hbroadcast⟩ := ShardingRule.foldl_withTable_rest rules .empty
  cases h
  refine ⟨built, rules, ⟨halgorithms, hgenerators, hauditors, mapM_eq_ok.1 hrules,
    ShardingRule.foldl_withTable_tables rules, hdeclared, hruled, ?_, hunshared, ?_,
    ⟨database, hdatabase, rfl⟩, ⟨table, htable, rfl⟩, haudit, hcache⟩⟩
  · exact congrArg (· ++ _) hgroups
  · exact (congrArg (_ ++ ·) hbroadcast).trans (List.append_nil _)

namespace Assembled

variable {built : NameMap Algorithm} {rules : List TableRule} {rule : ShardingRule}

/-- Every table of the rule is declared. -/
theorem of_mem_tables (h : Assembled registry spec sources built rules rule) {t : TableRule}
    (ht : t ∈ rule.tables.values) : ∃ e ∈ spec.tables.entries,
      tableRule spec built rule.generators sources e.1 e.2 = .ok t := by
  obtain ⟨e, he, rfl⟩ := List.mem_map.1 ht
  rw [h.tables] at he
  obtain ⟨t', ht', rfl⟩ := List.mem_map.1 (NameMap.mem_of_mem_ofList he)
  exact exists_of_mem_right h.tableRules ht'

/-- The table rules stand in the order of the declarations, under their names. -/
theorem logicTables (h : Assembled registry spec sources built rules rule) :
    rules.map (·.logicTable) = spec.tables.names :=
  map_eq_of_forall₂ (h.tableRules.imp fun _ _ ht => logicTable_of_tableRule ht)

/-- A table is known just when a declared name is the same in lower case. -/
theorem contains_iff (h : Assembled registry spec sources built rules rule) {table : String} :
    rule.tables.contains (Text.lower table) = true ↔
      ∃ name ∈ spec.tables.names, Text.lower name = Text.lower table := by
  rw [h.tables, TableRule.contains_ofList, h.logicTables]

theorem tables_eq_nil (h : Assembled registry spec sources built rules rule) :
    rule.tables.entries = [] ↔ spec.tables.entries = [] := by
  constructor
  · intro hnil
    refine List.eq_nil_iff_forall_not_mem.2 fun e he => ?_
    have hcontains := h.contains_iff.2 ⟨e.1, List.mem_map_of_mem he, rfl⟩
    rw [NameMap.contains_iff, NameMap.names, hnil] at hcontains
    exact List.not_mem_nil hcontains
  · intro hnil
    refine List.eq_nil_iff_forall_not_mem.2 fun e he => ?_
    obtain ⟨e', he', -⟩ := h.of_mem_tables (List.mem_map_of_mem he)
    rw [hnil] at he'
    exact List.not_mem_nil he'

end Assembled

theorem buildWith_eq_ok {c : Configuration} {d : Deployment} :
    c.buildWith registry = .ok d ↔ c.props.maxConnections ≠ 0 ∧ topology c.database = .ok d.topology ∧
      readwriteRule d.topology c.readwriteGroups = .ok d.readwrite ∧
      shardingRule registry c.sharding (logicalSources d.topology d.readwrite) = .ok d.rule ∧
      d = ⟨c.props, d.topology, d.rule, d.readwrite, .builtin c.database.frontend⟩ := by
  simp only [buildWith, bind_eq_ok, guarded_eq_ok, bne_iff_ne, Except.ok.injEq]
  constructor
  · rintro ⟨_, hprops, topology, htopology, readwrite, hreadwrite, rule, hrule, rfl⟩
    exact ⟨hprops, htopology, hreadwrite, hrule, rfl⟩
  · rintro ⟨hprops, htopology, hreadwrite, hrule, hd⟩
    exact ⟨(), hprops, _, htopology, _, hreadwrite, _, hrule, hd.symm⟩

theorem build_eq_ok_iff {c : Configuration} {d : Deployment} :
    c.build = .ok d ↔ c.buildWith .builtin = .ok d := by
  unfold build
  split <;> simp_all

theorem build_eq_ok {c : Configuration} {d : Deployment} (h : c.build = .ok d) :
    c.buildWith .builtin = .ok d :=
  build_eq_ok_iff.1 h

theorem assembled_of_build {c : Configuration} {d : Deployment} (h : c.build = .ok d) :
    ∃ built rules, Assembled .builtin c.sharding (logicalSources d.topology d.readwrite) built rules d.rule :=
  assembled_of_shardingRule (buildWith_eq_ok.1 (build_eq_ok h)).2.2.2.1

end Configuration

end ShardedSql
