import ShardedSql.Proofs.Caching
import ShardedSql.Proofs.Placed

/-! Where a routed table lies. The data sources of a table are told apart by their spelling, its actual
tables on one of them are looked up in any letter case. So every routed table is one of the nodes but
perhaps for the letter case of its data source, and it is one as it stands where the rule spells its
data sources alike. -/

namespace ShardedSql

open Text (sameName)

namespace TableRule

variable {t : TableRule} {source table : String}

theorem mem_tablesOn : table ∈ t.tablesOn source ↔
    ∃ n ∈ t.nodes, sameName n.dataSource source = true ∧ n.table = table := by
  simp [tablesOn, and_assoc]

/-- Every actual table that is found on the data source is declared there in this spelling. -/
def Spells (t : TableRule) (source : String) : Prop :=
  ∀ table ∈ t.tablesOn source, ⟨source, table⟩ ∈ t.nodes

end TableRule

/-- Tables that are placed by each other, bound ones or one table, spell the data sources alike. -/
def ShardingRule.SpellsAlike (rule : ShardingRule) (tables : List String) : Prop :=
  ∀ lead ∈ tables, ∀ table ∈ tables,
    sameName table lead = true ∨ rule.allBinding [lead, table] = true →
    ∀ t ∈ rule.table? lead, ∀ t' ∈ rule.table? table, ∀ source ∈ t.dataSources, t'.Spells source

/-- The statement is a definition, which goes to the nodes as they are declared, or finds its tables in the
spelling in which they are. -/
def ShardingRule.SpellsFor (rule : ShardingRule) (statement : Statement) : Prop :=
  statement.kind = .ddl ∨ rule.SpellsAlike (rule.shardingTables statement.tables)

/-- No data source is spelled in two ways. -/
def ShardingRule.SpellsOnce (rule : ShardingRule) : Prop :=
  ∀ t ∈ rule.tables.values, ∀ t' ∈ rule.tables.values, ∀ n ∈ t.nodes, ∀ n' ∈ t'.nodes,
    sameName n'.dataSource n.dataSource = true → n'.dataSource = n.dataSource

theorem ShardingRule.SpellsOnce.alike {rule : ShardingRule} (h : rule.SpellsOnce)
    (tables : List String) : rule.SpellsAlike tables := by
  intro lead _ table _ _ t ht t' ht' source hsource actual hactual
  obtain ⟨n, hn, rfl⟩ := TableRule.mem_dataSources.1 hsource
  obtain ⟨n', hn', hsame, rfl⟩ := TableRule.mem_tablesOn.1 hactual
  have hspelled := h t (ShardingRule.mem_values_of_table? ht) t'
    (ShardingRule.mem_values_of_table? ht') n hn n' hn' hsame
  rw [← hspelled]
  exact hn'

namespace RouteUnit

/-- Every table of the unit has the actual table, on the data source of the unit, among its nodes. -/
def Declared (u : RouteUnit) (rule : ShardingRule) : Prop :=
  ∀ m ∈ u.tables, ∃ t, rule.table? m.logic = some t ∧ ⟨u.dataSource, m.actual⟩ ∈ t.nodes

/-- Every table of the unit has the actual table among its nodes, the data source in some letter case. -/
def Found (u : RouteUnit) (rule : ShardingRule) : Prop :=
  ∀ m ∈ u.tables, ∃ t, rule.table? m.logic = some t ∧
    ∃ n ∈ t.nodes, sameName n.dataSource u.dataSource = true ∧ n.table = m.actual

theorem Declared.found {u : RouteUnit} {rule : ShardingRule} (h : u.Declared rule) : u.Found rule := by
  intro m hm
  obtain ⟨t, ht, hn⟩ := h m hm
  exact ⟨t, ht, _, hn, Text.sameName_refl _, rfl⟩

end RouteUnit

/-- The statement asks for all rows of its tables. -/
structure Query.AsksAll (query : Query) : Prop where
  rows : query.statement.kind ≠ .insert
  definition : query.statement.kind ≠ .ddl
  groups : query.statement.groups = []
  databaseHint : ∀ table, query.hint.databaseValuesOf table = none
  tableHint : ∀ table, query.hint.tableValuesOf table = none

/-- Without a condition and without hint values every target is chosen. -/
theorem Strategy.targets_all (s : Strategy) (available : List String) (table : String) :
    s.targets available table none none = .ok available := by
  cases s <;> rfl

namespace Extraction

/-- A statement that asks for everything puts no condition on it. -/
theorem extract_all (rule : ShardingRule) {query : Query} (h : query.AsksAll) (keys : KeyCounters) :
    ∃ merge, (extract rule query keys).1 = .ok ⟨.of [] merge, []⟩ := by
  cases hneeds : query.statement.needsConditions with
  | true =>
    rw [extract_where keys hneeds fun hinsert => absurd hinsert h.rows, h.groups]
    exact ⟨_, rfl⟩
  | false =>
    rw [extract, hneeds]
    exact ⟨false, rfl⟩

end Extraction

/-- Nothing is left to merge in it. -/
theorem ShardingRouter.effective_all (query : Query) (merge : Bool) :
    effective query (.of [] merge) = .of [] merge := by
  cases merge <;> simp [effective, Conditions.needsMerge, Conditions.of]

namespace Placement

variable {rule : ShardingRule} {query : Query} {topology : Topology} {conditions : Conditions}
  {tables : List String} {route : Route} {u : RouteUnit}

theorem partnerTable?_eq_some {source lead actual partner table : String}
    (h : rule.partnerTable? source lead actual partner = some table) :
    ∃ t, rule.table? partner = some t ∧ table ∈ t.tablesOn source := by
  obtain ⟨_, -, h⟩ := Option.bind_eq_some_iff.1 h
  obtain ⟨index, -, h⟩ := Option.bind_eq_some_iff.1 h
  obtain ⟨t, ht, h⟩ := Option.bind_eq_some_iff.1 h
  exact ⟨t, ht, List.mem_of_getElem? h⟩

/-- A piece has the lead where its node is, and every partner where its own rule finds it. -/
theorem mem_piece {lead : Lead} {node : DataNode} {q : Piece} (h : piece rule lead node = .ok q)
    {m : Mapping} (hm : m ∈ q.tables) :
    m = ⟨lead.table, node.table⟩ ∨ m.logic ∈ lead.partners ∧
      ∃ t, rule.table? m.logic = some t ∧ m.actual ∈ t.tablesOn node.dataSource := by
  obtain ⟨partners, hpartners, h⟩ := bind_eq_ok.1 h
  cases h
  refine (List.mem_cons.1 hm).imp_right fun hm => ?_
  obtain ⟨partner, hpartner, hpair⟩ := (mem_of_mapM_ok hpartners m).1 hm
  unfold pairing at hpair
  split at hpair
  · rename_i actual hactual
    cases hpair
    exact ⟨hpartner, partnerTable?_eq_some hactual⟩
  · cases hpair

/-- Every table of a piece lies, by its own rule, on a data source that its lead has. -/
theorem PieceOf.mem_tablesOn {lead : Lead} {q : Piece} (h : PieceOf rule query conditions lead q)
    {m : Mapping} (hm : m ∈ q.tables) :
    ∃ t t', rule.table? lead.table = some t ∧ rule.table? m.logic = some t' ∧
      q.source ∈ t.dataSources ∧ m.actual ∈ t'.tablesOn q.source ∧
      (m.logic = lead.table ∨ m.logic ∈ lead.partners) := by
  obtain ⟨t, lists, node, ht, hlists, hnode, hpiece⟩ := h
  obtain ⟨hsource, htable⟩ := mem_of_nodesOf hlists hnode
  rw [(piece_eq_ok hpiece).1]
  rcases mem_piece hpiece hm with rfl | ⟨hpartner, t', ht', hactual⟩
  · exact ⟨t, t, ht, ht, hsource, htable, .inl rfl⟩
  · exact ⟨t, t', ht, ht', hsource, hactual, .inr hpartner⟩

/-- Every table of a unit lies, by its own rule, on a data source that its lead has. -/
theorem mem_tablesOn_of_standard (h : standard rule query conditions tables = .ok route)
    (hu : u ∈ route.units) {m : Mapping} (hm : m ∈ u.tables) :
    ∃ lead ∈ leads rule tables, ∃ t t', rule.table? lead.table = some t ∧
      rule.table? m.logic = some t' ∧ u.dataSource ∈ t.dataSources ∧
      m.actual ∈ t'.tablesOn u.dataSource ∧ (m.logic = lead.table ∨ m.logic ∈ lead.partners) := by
  obtain ⟨-, hsame, qs, hqs, htables⟩ := mem_standard h hu
  rw [htables] at hm
  obtain ⟨q, hq, hm⟩ := List.mem_flatMap.1 hm
  obtain ⟨lead, hlead, hpiece, hsource⟩ := exists_of_mem_right hqs hq
  rw [RouteUnit.dataSource, hsame, ← hsource]
  exact ⟨lead, hlead, hpiece.mem_tablesOn hm⟩

theorem found_of_standard (h : standard rule query conditions tables = .ok route)
    (hu : u ∈ route.units) : u.Found rule := by
  intro m hm
  obtain ⟨-, -, -, t, -, ht, -, hactual, -⟩ := mem_tablesOn_of_standard h hu hm
  exact ⟨t, ht, TableRule.mem_tablesOn.1 hactual⟩

theorem declared_of_standard (hspells : rule.SpellsAlike tables)
    (h : standard rule query conditions tables = .ok route) (hu : u ∈ route.units) :
    u.Declared rule := by
  intro m hm
  obtain ⟨lead, hlead, t, t', ht, ht', hsource, hactual, hled⟩ := mem_tablesOn_of_standard h hu hm
  obtain ⟨htable, hpartners⟩ := mem_leads hlead
  refine ⟨t', ht', ?_⟩
  rcases hled with hled | hled
  · have hsame : sameName m.logic lead.table = true := hled ▸ Text.sameName_refl _
    exact hspells _ htable _ (hled ▸ htable) (.inl hsame) t ht t' ht' _ hsource _ hactual
  · rw [hpartners, List.mem_filter, Bool.and_eq_true] at hled
    exact hspells _ htable _ hled.1 (.inr hled.2.2) t ht t' ht' _ hsource _ hactual

theorem declared_of_everyNode (h : everyNode rule tables = .ok route) (hu : u ∈ route.units) :
    u.Declared rule := by
  obtain ⟨table, t, n, ht, hn, rfl⟩ := mem_everyNode h hu
  intro m hm
  rw [List.mem_singleton.1 hm]
  exact ⟨t, ht, hn⟩

/-- Asked for everything, a table is found in every spelling of its data sources. -/
theorem mem_nodesUnder_all {hint : Hint} {t : TableRule} {nodes : List DataNode}
    (hdatabase : hint.databaseValuesOf t.logicTable = none)
    (htable : hint.tableValuesOf t.logicTable = none)
    (h : nodesUnder rule hint t none = .ok nodes) (n : DataNode) :
    n ∈ nodes ↔ n.dataSource ∈ t.dataSources ∧ n.table ∈ t.tablesOn n.dataSource := by
  obtain ⟨sources, hsources, -, hmem⟩ := mem_nodesUnder h
  rw [hdatabase, Strategy.targets_all] at hsources
  cases hsources
  rw [hmem, htable]
  simp [Strategy.targets_all]

/-- A statement that asks for everything is placed by its tables. -/
theorem place_all (hask : query.AsksAll)
    (hbroadcast : rule.allBroadcast query.statement.tables = false) (merge : Bool)
    (hne : tables ≠ []) :
    place rule query topology (.of [] merge) tables = standard rule query (.of [] merge) tables := by
  have hgoes : (tables.isEmpty || (Conditions.of [] merge).alwaysFalse) = false := by
    simpa [Conditions.of] using hne
  have hkind : (query.statement.kind == .ddl) = false := beq_false_of_ne hask.definition
  rw [place, hbroadcast, if_neg Bool.false_ne_true, hgoes, if_neg Bool.false_ne_true, hkind,
    if_neg Bool.false_ne_true]

/-- A statement that asks one table for everything has a unit for each of these nodes. -/
theorem mem_standard_all {table : String} {t : TableRule} (hask : query.AsksAll)
    (ht : rule.table? table = some t) (hempty : conditions.isEmpty = true)
    (h : standard rule query conditions [table] = .ok route) :
    u ∈ route.units ↔ ∃ n : DataNode, (n.dataSource ∈ t.dataSources ∧
      n.table ∈ t.tablesOn n.dataSource) ∧ loneUnit table n = u := by
  obtain ⟨lists, hlists, -, hunits, -⟩ := standard_lone ht h
  rw [nodesOf, hempty, if_pos rfl] at hlists
  obtain ⟨nodes, hnodes, hlists⟩ := bind_eq_ok.1 hlists
  cases hlists
  have hmem := mem_nodesUnder_all (hask.databaseHint _) (hask.tableHint _) hnodes
  simp only [hunits, List.flatten_singleton, hmem]

end Placement

open ShardingRouter (serve)

/-- A routed statement that is not all broadcast, behind whatever statements were served. Every table of
every unit is one of the nodes of its rule, but for the letter case of the data source. It is one as it
stands if the statement is a definition, or if tables that are placed by each other spell the data sources
alike; and a statement that asks one table for everything goes to declared nodes only if that table does
so. -/
theorem routed_tables_declared {r : ShardingRouter} {topology : Topology} {served : List Query}
    {query : Query} {route : Route}
    (hbroadcast : ∀ q ∈ query :: served, q.sql = query.sql →
      r.rule.allBroadcast q.statement.tables = false)
    (h : (r.route query topology (r.serve topology served).2).1 = .ok route) :
    (∀ u ∈ route.units, u.Found r.rule) ∧
    ((∀ q ∈ query :: served, q.sql = query.sql → r.rule.SpellsFor q.statement) →
      ∀ u ∈ route.units, u.Declared r.rule) ∧
    (query.AsksAll → (∀ q ∈ served, q.sql = query.sql → q.statement = query.statement) →
      ∀ table t, r.rule.shardingTables query.statement.tables = [table] →
        r.rule.table? table = some t →
        ((∀ u ∈ route.units, u.Declared r.rule) ↔ ∀ source ∈ t.dataSources, t.Spells source)) := by
  have hcache : r.PlacedFor topology (· ∈ query :: served) (r.serve topology served).2.cache :=
    ShardingRouter.serve_placedFor fun q hq => List.mem_cons_of_mem query hq
  obtain ⟨e, q, placed, he, hq, hstands, hplaced, rfl⟩ :=
    ShardingRouter.placed_of_placedFor List.mem_cons_self hcache h
  have hsharded := hbroadcast q hq hstands.sql
  have hdeclared : r.rule.SpellsFor q.statement → ∀ u ∈ placed.units, u.Declared r.rule := by
    intro hspells u hu
    rcases Placement.place_sharded hsharded hplaced hu with ⟨-, hall⟩ | ⟨hkind, hstandard⟩
    · exact Placement.declared_of_everyNode hall hu
    · exact Placement.declared_of_standard (hspells.resolve_left hkind) hstandard hu
  refine ⟨fun u hu => ?_, fun hspells => hdeclared (hspells q hq hstands.sql),
    fun hask hread table t htables ht => ?_⟩
  · rcases Placement.place_sharded hsharded hplaced hu with ⟨-, hall⟩ | ⟨-, hstandard⟩
    · exact (Placement.declared_of_everyNode hall hu).found
    · exact Placement.found_of_standard hstandard hu
  have hs : q.statement = query.statement := by
    rcases List.mem_cons.1 hq with rfl | hq
    · rfl
    · exact hread q hq hstands.sql
  constructor
  · intro hall source hsource actual hactual
    obtain ⟨merge, hextract⟩ := Extraction.extract_all r.rule hask (r.serve topology served).2.keys
    rw [hextract] at he
    cases he
    rw [hs] at hsharded hplaced
    rw [ShardingRouter.effective_all, Placement.place_congr topology _ _ hstands hs, htables,
      Placement.place_all hask hsharded merge (List.cons_ne_nil _ _)] at hplaced
    have hunit : Placement.loneUnit table ⟨source, actual⟩ ∈ placed.units :=
      (Placement.mem_standard_all hask ht rfl hplaced).2 ⟨⟨source, actual⟩, ⟨hsource, hactual⟩, rfl⟩
    obtain ⟨t', ht', hn⟩ := hall _ hunit ⟨table, actual⟩ (List.mem_singleton_self _)
    rw [ht] at ht'
    cases ht'
    exact hn
  · intro hspells
    refine hdeclared (.inr ?_)
    rw [hs, htables]
    intro lead hlead other hother _ t₁ ht₁ t₂ ht₂
    rw [List.mem_singleton.1 hlead, ht] at ht₁
    rw [List.mem_singleton.1 hother, ht] at ht₂
    cases ht₁
    cases ht₂
    exact hspells

/-- Items beside their orders, in another order of the data sources. -/
def scatteredItems : TableRule where
  logicTable := "t_item"
  nodes := [⟨"ds_1", "t_item_1"⟩, ⟨"ds_0", "t_item_0"⟩, ⟨"ds_1", "t_item_3"⟩, ⟨"ds_0", "t_item_2"⟩]
  databaseStrategy := none
  tableStrategy := none
  keyStrategy := none
  nodes_ne_nil := List.cons_ne_nil _ _

def ordersWithItems : ShardingRouter where
  rule := { orders.withTable scatteredItems with
    bindingGroups := [["t_order", "t_item"]]
    cache := some .default }
  validators := []

def readOrders : Query := ⟨"SELECT * FROM t_order", .of .select ["t_order"], [], .none⟩

def readItems : Query where
  sql := "SELECT * FROM t_order JOIN t_item ON … WHERE user_id > 5 AND order_id = 7"
  statement := { Statement.of .select ["T_ORDER", "t_item"] with
    groups := [[⟨"t_order", "user_id", .greaterThan (.literal (.int 5))⟩,
      ⟨"t_order", "order_id", .equal (.literal (.int 7))⟩]] }
  params := []
  hint := .none

def itemsRoute : Route :=
  ⟨[⟨⟨"ds_0", "ds_0"⟩, [⟨"T_ORDER", "t_order_1"⟩, ⟨"t_item", "t_item_2"⟩]⟩,
    ⟨⟨"ds_1", "ds_1"⟩, [⟨"T_ORDER", "t_order_1"⟩, ⟨"t_item", "t_item_3"⟩]⟩], [], []⟩

theorem routed_tables_declared_items :
    (ordersWithItems.route readItems ⟨"shop", ∅⟩
        (ordersWithItems.serve ⟨"shop", ∅⟩ [readOrders, readItems]).2).1 = .ok itemsRoute ∧
      ∀ u ∈ itemsRoute.units, u.Declared ordersWithItems.rule := by
  have hroute : (ordersWithItems.route readItems ⟨"shop", ∅⟩
      (ordersWithItems.serve ⟨"shop", ∅⟩ [readOrders, readItems]).2).1 = .ok itemsRoute := rfl
  have hsharded : ∀ q ∈ [readItems, readOrders, readItems], q.sql = readItems.sql →
      ordersWithItems.rule.allBroadcast q.statement.tables = false := by decide
  have hspelled : ordersWithItems.rule.SpellsOnce := by unfold ShardingRule.SpellsOnce; decide
  exact ⟨hroute, (routed_tables_declared hsharded hroute).2.1 fun q _ _ => .inr (hspelled.alike _)⟩

/-- Orders on two data sources that differ in letter case only, each with a table of its own. -/
def ordersSpelledTwice : ShardingRouter where
  rule := ShardingRule.empty.withTable
    ⟨"t_order", [⟨"ds_0", "t_order_0"⟩, ⟨"DS_0", "t_order_1"⟩], none, none, none, List.cons_ne_nil _ _⟩
  validators := []

/-- Both tables are looked for on both data sources. -/
def crossedOrders : Route :=
  ⟨[⟨⟨"ds_0", "ds_0"⟩, [⟨"t_order", "t_order_0"⟩]⟩, ⟨⟨"ds_0", "ds_0"⟩, [⟨"t_order", "t_order_1"⟩]⟩,
    ⟨⟨"DS_0", "DS_0"⟩, [⟨"t_order", "t_order_0"⟩]⟩, ⟨⟨"DS_0", "DS_0"⟩, [⟨"t_order", "t_order_1"⟩]⟩],
    [], []⟩

theorem crossed_orders_undeclared :
    (ordersSpelledTwice.route readOrders ⟨"shop", ∅⟩ ⟨∅, none⟩).1 = .ok crossedOrders ∧
      ∃ u ∈ crossedOrders.units, ¬ u.Declared ordersSpelledTwice.rule := by
  have hroute : (ordersSpelledTwice.route readOrders ⟨"shop", ∅⟩ ⟨∅, none⟩).1 = .ok crossedOrders := rfl
  have hundeclared : ⟨"ds_0", "t_order_1"⟩ ∉ ordersSpelledTwice.rule.tables.values.flatMap (·.nodes) := by
    decide
  refine ⟨hroute, _, List.mem_cons_of_mem _ List.mem_cons_self, fun h => hundeclared ?_⟩
  obtain ⟨t, ht, hn⟩ := h _ (List.mem_singleton_self _)
  exact List.mem_flatMap.2 ⟨t, ShardingRule.mem_values_of_table? ht, hn⟩

end ShardedSql
