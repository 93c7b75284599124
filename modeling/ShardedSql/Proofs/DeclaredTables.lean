import ShardedSql.Proofs.Assembly

/-! Which rule a declared table has in a deployment. The tables are declared under their names and kept
under their lower-cased names, so of tables whose names are the same in lower case only the last one
keeps its rule, and the others are looked up to it. -/

namespace ShardedSql

namespace ShardingSpec

open ShardedSql.Configuration (Declares columns)

/-- The strategy of a declaration: that of the named algorithm for the declared columns. -/
def Describes (spec : ShardingSpec) (declared : StrategySpec) (s : Strategy) : Prop :=
  ∃ a, Declares Registry.builtin.sharding spec.algorithms declared.algorithm a ∧
    Strategy.build (columns spec.defaultColumn declared.columns a) a = .ok s

/-- The strategy that counts for a table: its own one, else the default, else every target. -/
def Chooses (spec : ShardingSpec) (own default : Option StrategySpec) (s : Strategy) : Prop :=
  match own.or default with
  | some declared => spec.Describes declared s
  | none => s = .everywhere

/-- Rows without a key take one of the declared generator. -/
def Generates (spec : ShardingSpec) (generators : KeyCounters) (declared k : KeyStrategy) : Prop :=
  k = ⟨Text.trim declared.column, declared.generator⟩ ∧ ∃ g, generators.get? k.generator = some g ∧
    Declares Registry.builtin.keyGenerators spec.keyGenerators k.generator g

/-- The table rule is that of the declaration, in the rule that it is part of. -/
structure Governs (spec : ShardingSpec) (rule : ShardingRule) (declared : String × TableSpec)
    (t : TableRule) : Prop where
  logicTable : t.logicTable = declared.1
  nodes : TableRule.Expands declared.2.nodes t.nodes
  databaseStrategy : spec.Chooses declared.2.databaseStrategy spec.defaultDatabaseStrategy
    (rule.databaseStrategy t)
  tableStrategy : spec.Chooses declared.2.tableStrategy spec.defaultTableStrategy (rule.tableStrategy t)
  keyStrategy : Option.Rel (spec.Generates rule.generators) declared.2.keyStrategy t.keyStrategy

/-- The declaration is the last one, in the order of the names, whose name is this one in lower case. -/
def LastNamed (spec : ShardingSpec) (table : String) (declared : String × TableSpec) : Prop :=
  declared ∈ spec.tables.entries ∧ Text.lower declared.1 = Text.lower table ∧
    ∀ name ∈ spec.tables.names, Text.lower name = Text.lower table → name ≤ declared.1

end ShardingSpec

namespace Configuration

open ShardingSpec

variable {spec : ShardingSpec} {sources : List String} {built : NameMap Algorithm}
  {rules : List TableRule} {rule : ShardingRule}

namespace Assembled

theorem describes (h : Assembled .builtin spec sources built rules rule) {place : StrategyPlace}
    {declared : StrategySpec} {s : Strategy}
    (hs : strategy spec.defaultColumn built place declared = .ok s) : spec.Describes declared s := by
  obtain ⟨a, ha, hbuilt⟩ := strategy_eq_ok.1 hs
  exact ⟨a, (buildNamed_get? h.algorithms).1 ha, hbuilt⟩

theorem chooses (h : Assembled .builtin spec sources built rules rule) {place place' : StrategyPlace}
    {own default : Option StrategySpec} {s s' : Option Strategy}
    (hown : strategy? spec.defaultColumn built place own = .ok s)
    (hdefault : strategy? spec.defaultColumn built place' default = .ok s') :
    spec.Chooses own default (s.getD (s'.getD .everywhere)) := by
  rcases strategy?_eq_ok.1 hown with hs | _
  · exact h.describes hs
  · rcases strategy?_eq_ok.1 hdefault with hs | _
    · exact h.describes hs
    · rfl

theorem generates (h : Assembled .builtin spec sources built rules rule) {own key : Option KeyStrategy}
    (hkey : Option.Rel (fun s k => rule.generators.contains s.generator = true ∧
      Text.blank s.column = false ∧ k = ⟨Text.trim s.column, s.generator⟩) own key) :
    Option.Rel (spec.Generates rule.generators) own key := by
  rcases hkey with ⟨hknown, -, rfl⟩ | _
  · obtain ⟨g, hg⟩ := Option.isSome_iff_exists.1 hknown
    exact .some ⟨rfl, g, hg, (buildNamed_get? h.generators).1 hg⟩
  · exact .none

theorem governs (h : Assembled .builtin spec sources built rules rule) {e : String × TableSpec}
    {t : TableRule} (ht : tableRule spec built rule.generators sources e.1 e.2 = .ok t) :
    spec.Governs rule e t := by
  obtain ⟨r, hr, -, database, table, key, hdatabase, htable, hkey, rfl⟩ := tableRule_eq_ok.1 ht
  obtain ⟨defaultDatabase, hdefaultDatabase, hdatabase'⟩ := h.databaseStrategy
  obtain ⟨defaultTable, hdefaultTable, htable'⟩ := h.tableStrategy
  refine ⟨logicTable_of_tableRule ht, (TableRule.ofExpression_eq_ok.1 hr).1, ?_, ?_, ?_⟩
  · rw [ShardingRule.databaseStrategy, hdatabase']
    exact h.chooses hdatabase hdefaultDatabase
  · rw [ShardingRule.tableStrategy, htable']
    exact h.chooses htable hdefaultTable
  · exact h.generates (keyStrategy_eq_ok.1 hkey)

/-- A known name is looked up to the rule of the last declared table of this name in lower case. -/
theorem governs_of_table? (h : Assembled .builtin spec sources built rules rule) {table : String}
    {t : TableRule} (ht : rule.table? table = some t) :
    ∃ declared, spec.LastNamed table declared ∧ spec.Governs rule declared t := by
  rw [ShardingRule.table?, h.tables, NameMap.get?_ofList_eq_some] at ht
  obtain ⟨front, back, hrules, hlast⟩ := ht
  obtain ⟨front', rest, hsplit, rfl, hrest⟩ := List.map_eq_append_iff.1 hrules
  obtain ⟨t', back', rfl, hkeyed, rfl⟩ := List.map_eq_cons_iff.1 hrest
  obtain ⟨hname, rfl⟩ := Prod.mk.inj hkeyed
  obtain ⟨e, he, hrule⟩ :=
    exists_of_mem_right h.tableRules (hsplit ▸ List.mem_append_right _ List.mem_cons_self)
  have hlogic := logicTable_of_tableRule hrule
  have hnames : spec.tables.names = front'.map (·.logicTable) ++ e.1 :: back'.map (·.logicTable) := by
    rw [← h.logicTables, hsplit, List.map_append, List.map_cons, hlogic]
  have hsorted : spec.tables.names.Pairwise (· < ·) := List.pairwise_map.2 spec.tables.sorted
  refine ⟨e, ⟨he, hlogic ▸ hname, fun name hmem hsame => ?_⟩, h.governs hrule⟩
  rw [hnames] at hmem hsorted
  rcases List.mem_append.1 hmem with hfront | hmem
  · exact Std.le_of_lt ((List.pairwise_append.1 hsorted).2.2 name hfront e.1 List.mem_cons_self)
  · rcases List.mem_cons.1 hmem with rfl | hback
    · exact Std.le_refl _
    · obtain ⟨t, ht, rfl⟩ := List.mem_map.1 hback
      exact absurd hsame (hlast _ (List.mem_map_of_mem ht))

end Assembled

theorem declared_of_sameLower {e e' : String × TableSpec}
    (hnodup : (spec.tables.names.map Text.lower).Nodup) (he : e ∈ spec.tables.entries)
    (he' : e' ∈ spec.tables.entries) (hsame : Text.lower e'.1 = Text.lower e.1) : e' = e := by
  have hname : e'.1 = e.1 := List.inj_on_of_nodup_map hnodup (List.mem_map_of_mem he')
    (List.mem_map_of_mem he) hsame
  have hfound : spec.tables.get? e.1 = some e'.2 := NameMap.get?_eq_some.2 (hname ▸ he')
  rw [NameMap.get?_eq_some.2 he] at hfound
  exact Prod.ext hname (Option.some.inj hfound).symm

end Configuration

/-- In a built deployment a declared name is looked up to the rule of the last declared table that has this
name in lower case. So all tables keep the rules they are declared with if and only if no two of their names
are the same in lower case. -/
theorem declared_tables_kept_iff {c : Configuration} {d : Deployment} (h : c.build = .ok d) :
    (∀ e ∈ c.sharding.tables.entries, ∃ t, d.rule.table? e.1 = some t ∧
      ∃ declared, c.sharding.LastNamed e.1 declared ∧ c.sharding.Governs d.rule declared t) ∧
    ((∀ e ∈ c.sharding.tables.entries, ∃ t, d.rule.table? e.1 = some t ∧
        c.sharding.Governs d.rule e t) ↔
      (c.sharding.tables.names.map Text.lower).Nodup) := by
  obtain ⟨built, rules, hassembled⟩ := Configuration.assembled_of_build h
  have hfound : ∀ e ∈ c.sharding.tables.entries, ∃ t, d.rule.table? e.1 = some t ∧
      ∃ declared, c.sharding.LastNamed e.1 declared ∧ c.sharding.Governs d.rule declared t := by
    intro e he
    obtain ⟨t, ht⟩ := Option.isSome_iff_exists.1
      (hassembled.contains_iff.2 ⟨e.1, List.mem_map_of_mem he, rfl⟩)
    exact ⟨t, ht, hassembled.governs_of_table? ht⟩
  refine ⟨hfound, fun hkept => ?_, fun hnodup e he => ?_⟩
  · refine List.Nodup.map_on (fun name hname name' hname' hsame => ?_) c.sharding.tables.names_nodup
    obtain ⟨e, he, rfl⟩ := List.mem_map.1 hname
    obtain ⟨e', he', rfl⟩ := List.mem_map.1 hname'
    obtain ⟨t, ht, hgoverns⟩ := hkept e he
    obtain ⟨t', ht', hgoverns'⟩ := hkept e' he'
    rw [ShardingRule.table?, hsame, ← ShardingRule.table?, ht'] at ht
    cases ht
    exact hgoverns.logicTable.symm.trans hgoverns'.logicTable
  · obtain ⟨t, ht, declared, ⟨hdeclared, hsame, -⟩, hgoverns⟩ := hfound e he
    obtain rfl := Configuration.declared_of_sameLower hnodup he hdeclared hsame
    exact ⟨t, ht, hgoverns⟩

/-- Two tables on one storage unit, each with one data node. -/
def twoTables (first second : String) : Configuration where
  props := .default
  database := ⟨"shop", .mySql, .ofList [("ds_0", .mySql)]⟩
  sharding := { ShardingSpec.empty with
    tables := .ofList [(first, ⟨"ds_0.a", none, none, none⟩), (second, ⟨"ds_0.b", none, none, none⟩)] }
  readwriteGroups := []

def singleNode (table actual : String) : TableRule :=
  ⟨table, [⟨"ds_0", actual⟩], none, none, none, List.cons_ne_nil _ _⟩

def twoTablesBuilt (first second : String) : Deployment where
  props := .default
  topology := ⟨"shop", .ofList [("ds_0", .mySql)]⟩
  rule := (ShardingRule.empty.withTable (singleNode first "a")).withTable (singleNode second "b")
  readwrite := none
  conversion := .builtin .mySql

set_option maxRecDepth 20000 in
/-- Two names that are not the same: each table has its own rule. -/
theorem declared_tables_kept_iff_distinct :
    (twoTables "T_ITEM" "t_order").build = .ok (twoTablesBuilt "T_ITEM" "t_order") ∧
      ∀ e ∈ (twoTables "T_ITEM" "t_order").sharding.tables.entries, ∃ t,
        (twoTablesBuilt "T_ITEM" "t_order").rule.table? e.1 = some t ∧
        (twoTables "T_ITEM" "t_order").sharding.Governs (twoTablesBuilt "T_ITEM" "t_order").rule e t := by
  have hbuild : (twoTables "T_ITEM" "t_order").build = .ok (twoTablesBuilt "T_ITEM" "t_order") := rfl
  exact ⟨hbuild, (declared_tables_kept_iff hbuild).2.2 (by decide)⟩

set_option maxRecDepth 20000 in
/-- Two names that differ in letter case only: the first table is lost, and its name leads to the node of
the second one. -/
theorem table_in_capitals_lost :
    (twoTables "T_ORDER" "t_order").build = .ok (twoTablesBuilt "T_ORDER" "t_order") ∧
      (twoTables "T_ORDER" "t_order").sharding.tables.get? "T_ORDER" = some ⟨"ds_0.a", none, none, none⟩ ∧
      ¬ ∃ t, (twoTablesBuilt "T_ORDER" "t_order").rule.table? "T_ORDER" = some t ∧
        TableRule.Expands "ds_0.a" t.nodes := by
  refine ⟨rfl, rfl, ?_⟩
  rintro ⟨t, ht, entries, parsed, hentries, hparsed, hnodes⟩
  have hlost : (twoTablesBuilt "T_ORDER" "t_order").rule.table? "T_ORDER" =
    some (singleNode "t_order" "b") := rfl
  rw [hlost] at ht
  cases ht
  have hexpand : Declaration.expand .none "ds_0.a" = .ok ["ds_0.a"] := rfl
  rw [hexpand] at hentries
  cases hentries
  obtain ⟨n, hn, rfl⟩ := forall₂_singleton_left.1 hparsed
  have hread : DataNode.parse? "ds_0.a" = some ⟨"ds_0", "a"⟩ := rfl
  rw [hread] at hn
  cases hn
  exact absurd hnodes (by decide)

end ShardedSql
