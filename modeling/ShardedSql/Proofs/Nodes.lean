import ShardedSql.Proofs.RowTargets
import ShardedSql.Route.Placement

/-! The data nodes of a table under one condition: a data source that the database strategy chooses,
and an actual table that the table strategy chooses among those on it. -/

namespace ShardedSql

theorem TableRule.tablesOn_congr {t : TableRule} {a b : String} (h : Text.sameName a b = true) :
    t.tablesOn a = t.tablesOn b := by
  simp only [tablesOn, Text.sameName_congr_right h]

/-- The columns by which the data nodes of a table are chosen. -/
def ShardingRule.columnsOf (rule : ShardingRule) (t : TableRule) : List String :=
  (rule.databaseStrategy t).columns ++ (rule.tableStrategy t).columns

namespace Placement

variable {rule : ShardingRule} {hint hint' : Hint} {t : TableRule} {condition : Option Condition}
  {nodes nodes' : List DataNode}

/-- A node is there just when both strategies choose it. -/
theorem mem_nodesUnder (h : nodesUnder rule hint t condition = .ok nodes) :
    ∃ sources, (rule.databaseStrategy t).targets t.dataSources t.logicTable condition
        (hint.databaseValuesOf t.logicTable) = .ok sources ∧
      (∀ source ∈ sources, ∃ tables, (rule.tableStrategy t).targets (t.tablesOn source)
        t.logicTable condition (hint.tableValuesOf t.logicTable) = .ok tables) ∧
      ∀ n, n ∈ nodes ↔ n.dataSource ∈ sources ∧ ∃ tables, n.table ∈ tables ∧
        (rule.tableStrategy t).targets (t.tablesOn n.dataSource) t.logicTable condition
          (hint.tableValuesOf t.logicTable) = .ok tables := by
  obtain ⟨sources, hsources, h⟩ := bind_eq_ok.1 h
  obtain ⟨lists, hlists, h⟩ := bind_eq_ok.1 h
  cases h
  have hall := mapM_eq_ok.1 hlists
  refine ⟨sources, hsources, fun source hs => ?_, fun n => ?_⟩
  · obtain ⟨_, -, hl⟩ := exists_of_mem_left hall hs
    obtain ⟨tables, htables, -⟩ := bind_eq_ok.1 hl
    exact ⟨tables, htables⟩
  · rw [mem_distinct, List.mem_flatten]
    constructor
    · rintro ⟨l, hl, hn⟩
      obtain ⟨source, hs, hl⟩ := exists_of_mem_right hall hl
      obtain ⟨tables, htables, hl⟩ := bind_eq_ok.1 hl
      cases hl
      obtain ⟨table, ht, rfl⟩ := List.mem_map.1 hn
      exact ⟨hs, tables, ht, htables⟩
    · rintro ⟨hs, tables, ht, htables⟩
      obtain ⟨l, hl, hl'⟩ := exists_of_mem_left hall hs
      obtain ⟨tables', htables', hl'⟩ := bind_eq_ok.1 hl'
      rw [htables] at htables'
      cases htables'
      cases hl'
      exact ⟨_, hl, List.mem_map_of_mem ht⟩

/-- The nodes lie where the table has them. -/
theorem mem_of_nodesUnder (h : nodesUnder rule hint t condition = .ok nodes) {n : DataNode}
    (hn : n ∈ nodes) : n.dataSource ∈ t.dataSources ∧ n.table ∈ t.tablesOn n.dataSource := by
  obtain ⟨sources, hsources, -, hmem⟩ := mem_nodesUnder h
  obtain ⟨hs, tables, ht, htables⟩ := (hmem n).1 hn
  exact ⟨Strategy.targets_subset hsources hs, Strategy.targets_subset htables ht⟩

/-- Under whatever conditions, the nodes lie where the table has them. -/
theorem mem_of_nodesOf {conditions : Conditions} {lists : List (List DataNode)}
    (h : nodesOf rule hint t conditions = .ok lists) {n : DataNode} (hn : n ∈ lists.flatten) :
    n.dataSource ∈ t.dataSources ∧ n.table ∈ t.tablesOn n.dataSource := by
  obtain ⟨nodes, hmem, hn⟩ := List.mem_flatten.1 hn
  obtain ⟨condition, hunder⟩ : ∃ condition, nodesUnder rule hint t condition = .ok nodes := by
    unfold nodesOf at h
    split at h
    · obtain ⟨nodes', hnodes', h⟩ := bind_eq_ok.1 h
      cases h
      exact ⟨none, List.mem_singleton.1 hmem ▸ hnodes'⟩
    · obtain ⟨c, -, hc⟩ := (mem_of_mapM_ok h nodes).1 hmem
      exact ⟨some c, hc⟩
  exact mem_of_nodesUnder hunder hn

/-- Where both strategies choose no more under the first condition, there are no more nodes. -/
theorem nodesUnder_mono {condition' : Option Condition}
    (hdb : ∀ {available ts ts'}, (rule.databaseStrategy t).targets available t.logicTable condition
        (hint.databaseValuesOf t.logicTable) = .ok ts →
      (rule.databaseStrategy t).targets available t.logicTable condition'
        (hint'.databaseValuesOf t.logicTable) = .ok ts' → ts ⊆ ts')
    (htb : ∀ {available ts ts'}, (rule.tableStrategy t).targets available t.logicTable condition
        (hint.tableValuesOf t.logicTable) = .ok ts →
      (rule.tableStrategy t).targets available t.logicTable condition'
        (hint'.tableValuesOf t.logicTable) = .ok ts' → ts ⊆ ts')
    (h : nodesUnder rule hint t condition = .ok nodes)
    (h' : nodesUnder rule hint' t condition' = .ok nodes') : nodes ⊆ nodes' := by
  obtain ⟨sources, hsources, -, hmem⟩ := mem_nodesUnder h
  obtain ⟨sources', hsources', hok', hmem'⟩ := mem_nodesUnder h'
  intro n hn
  obtain ⟨hs, tables, ht, htables⟩ := (hmem n).1 hn
  have hs' : n.dataSource ∈ sources' := hdb hsources hsources' hs
  obtain ⟨tables', htables'⟩ := hok' _ hs'
  exact (hmem' n).2 ⟨hs', tables', htb htables htables' ht, htables'⟩

/-- The nodes of a row are among those of every condition that is true of the row. -/
theorem nodesUnder_covers {value : String → Option Value} {d : Condition}
    (hdb : (rule.databaseStrategy t).isHint = false) (htb : (rule.tableStrategy t).isHint = false)
    (hd : d.Pins (rule.columnsOf t) t.logicTable value)
    (hc : ∀ c ∈ condition, c.TrueOf (rule.columnsOf t) t.logicTable value)
    (h : nodesUnder rule hint t (some d) = .ok nodes)
    (h' : nodesUnder rule hint' t condition = .ok nodes') : nodes ⊆ nodes' := by
  have hddb : d.Pins (rule.databaseStrategy t).columns t.logicTable value :=
    fun column hcol => hd column (List.mem_append_left _ hcol)
  have hdtb : d.Pins (rule.tableStrategy t).columns t.logicTable value :=
    fun column hcol => hd column (List.mem_append_right _ hcol)
  have hcdb : ∀ c ∈ condition, c.TrueOf (rule.databaseStrategy t).columns t.logicTable value :=
    fun c hm column hcol => hc c hm column (List.mem_append_left _ hcol)
  have hctb : ∀ c ∈ condition, c.TrueOf (rule.tableStrategy t).columns t.logicTable value :=
    fun c hm column hcol => hc c hm column (List.mem_append_right _ hcol)
  exact nodesUnder_mono (Strategy.targets_covers hdb hddb hcdb) (Strategy.targets_covers htb hdtb hctb) h h'

section Single

variable {c c' : Option Condition} {n m : DataNode}

/-- Two names of one spelling, each the first of it, are one. -/
theorem eq_of_first {l : List String} {a b : String}
    (ha : l.find? (fun x => Text.sameName x a) = some a)
    (hb : l.find? (fun x => Text.sameName x b) = some b) (h : Text.sameName a b = true) : a = b := by
  simp only [Text.sameName_congr_right h] at ha
  rw [hb] at ha
  exact (Option.some.inj ha).symm

/-- The one node of a condition is on a data source chosen for its spelling, or it is the only
spelling there is. -/
theorem source_of_single (h : nodesUnder rule hint t c = .ok [n]) :
    (∀ source ∈ t.dataSources, Text.sameName n.dataSource source = true → source = n.dataSource) ∨
      t.dataSources.find? (fun x => Text.sameName x n.dataSource) = some n.dataSource := by
  obtain ⟨sources, hsources, -, hmem⟩ := mem_nodesUnder h
  obtain ⟨hs, tables, ht, htables⟩ := (hmem n).1 (List.mem_singleton_self n)
  rcases Strategy.targets_settled hsources with rfl | hfirst
  · left
    intro source hsource hsame
    have hother : (⟨source, n.table⟩ : DataNode) ∈ [n] :=
      (hmem _).2 ⟨hsource, tables, ht, by rwa [← TableRule.tablesOn_congr hsame]⟩
    exact congrArg DataNode.dataSource (List.mem_singleton.1 hother)
  · exact .inr (hfirst _ hs)

theorem table_of_single (h : nodesUnder rule hint t c = .ok [n]) :
    (∀ table ∈ t.tablesOn n.dataSource, Text.sameName n.table table = true → table = n.table) ∨
      (t.tablesOn n.dataSource).find? (fun x => Text.sameName x n.table) = some n.table := by
  obtain ⟨sources, hsources, -, hmem⟩ := mem_nodesUnder h
  obtain ⟨hs, tables, ht, htables⟩ := (hmem n).1 (List.mem_singleton_self n)
  rcases Strategy.targets_settled htables with rfl | hfirst
  · left
    intro table htable _
    have hother : (⟨n.dataSource, table⟩ : DataNode) ∈ [n] := (hmem _).2 ⟨hs, _, htable, htables⟩
    exact congrArg DataNode.table (List.mem_singleton.1 hother)
  · exact .inr (hfirst _ ht)

/-- Two conditions that each have one node do not have it in two spellings. -/
theorem eq_of_single (h : nodesUnder rule hint t c = .ok [n])
    (h' : nodesUnder rule hint t c' = .ok [m]) (hsource : Text.sameName n.dataSource m.dataSource = true)
    (htable : Text.sameName n.table m.table = true) : n = m := by
  obtain ⟨hn, hnt⟩ := mem_of_nodesUnder h (List.mem_singleton_self n)
  obtain ⟨hm, hmt⟩ := mem_of_nodesUnder h' (List.mem_singleton_self m)
  have hs : n.dataSource = m.dataSource := by
    rcases source_of_single h with hall | hfirst
    · exact (hall _ hm hsource).symm
    · rcases source_of_single h' with hall' | hfirst'
      · exact hall' _ hn (Text.sameName_symm hsource)
      · exact eq_of_first hfirst hfirst' hsource
  have ht : n.table = m.table := by
    have ht := table_of_single h
    rw [hs] at ht hnt
    rcases ht with hall | hfirst
    · exact (hall _ hmt htable).symm
    · rcases table_of_single h' with hall' | hfirst'
      · exact hall' _ hnt (Text.sameName_symm htable)
      · exact eq_of_first hfirst hfirst' htable
  cases n
  cases m
  cases hs
  cases ht
  rfl

end Single

end Placement

end ShardedSql
