import ShardedSql.Proofs.Insertion

/-! Stored rows are found again. A row is stored where its insertion is routed; a statement whose
`WHERE` clause the row meets is routed there as well. Both sides ask the same strategies, the one with
the values of the row and the other with conditions that are true of them. -/

namespace ShardedSql

open Text (sameName)

/-- A row as an insertion of its own writes it. -/
structure StoredRow where
  table : String
  columns : List String
  values : List Value
  deriving Inhabited

namespace StoredRow

def insertion (r : StoredRow) : Statement :=
  .ofInsert ⟨r.table, r.columns, [r.values.map .literal]⟩

/-- What the row holds in a column. -/
def value? (r : StoredRow) (column : String) : Option Value :=
  ((r.columns.zip r.values).find? fun e => sameName e.1 column).map (·.2)

/-- The insertion of the row is routed, without a cache, to this actual table. -/
def LandsOn (router : ShardingRouter) (r : StoredRow) (n : DataNode) : Prop :=
  ∃ query topology keys route state, query.statement = r.insertion ∧
    router.route query topology ⟨keys, none⟩ = (.ok route, state) ∧
    ∃ u ∈ route.units, u.dataSource = n.dataSource ∧ u.actualTable? r.table = some n.table

theorem value?_congr {r : StoredRow} {c c' : String} (h : sameName c c' = true) :
    r.value? c = r.value? c' := by
  simp only [value?, Text.sameName_congr_right h]

theorem find?_operand (r : StoredRow) (params : List Value) (column : String) :
    ((r.columns.zip (r.values.map Operand.literal)).find? fun e => sameName e.1 column).bind
      (fun e => e.2.value? params) = r.value? column := by
  rw [List.zip_map_right, List.find?_map, value?]
  change (Option.map _ ((r.columns.zip r.values).find? fun e => sameName e.1 column)).bind _ = _
  cases (r.columns.zip r.values).find? fun e => sameName e.1 column <;> rfl

/-- What the columns of the tables hold when each table has one row. -/
def contents (rows : List StoredRow) : Valuation where
  value? table column := (rows.find? fun r => sameName r.table table).bind (·.value? column)
  same := by
    intro t t' c c' ht hc
    simp only [Text.sameName_congr_right ht, value?_congr hc]

end StoredRow

/-- The statement is over the tables of the rows, and no others. -/
def Statement.IsOver (s : Statement) (rows : List StoredRow) : Prop :=
  (∀ t ∈ s.tables, ∃ r ∈ rows, sameName r.table t = true) ∧
    ∀ r ∈ rows, ∃ t ∈ s.tables, sameName r.table t = true

/-- A sharded table that neither takes hints or keys nor is copied everywhere. -/
structure ShardingRule.Stores (rule : ShardingRule) (table : String) (t : TableRule) : Prop where
  found : rule.table? table = some t
  noDatabaseHint : (rule.databaseStrategy t).isHint = false
  noTableHint : (rule.tableStrategy t).isHint = false
  noKey : t.keyStrategy = none
  noBroadcast : rule.isBroadcast table = false

namespace StoredRow

variable {router : ShardingRouter} {r : StoredRow} {t : TableRule} {n : DataNode}

/-- The condition of a row: only about its table, and with its values for the sharding columns. -/
structure Describes (rule : ShardingRule) (r : StoredRow) (d : Condition) : Prop where
  table : ∀ e ∈ d.entries, e.table = r.table
  values : ∀ column, rule.isShardingColumn r.table column = true →
    (d.find? r.table column).map (·.constraint) = (r.value? column).map fun v => .list [v]

/-- The insertion of a row has just the condition of the row. -/
theorem describes_of_extract {query : Query} {keys keys' : KeyCounters} {e : Extracted}
    (hs : router.rule.Stores r.table t) (hq : query.statement = r.insertion)
    (h : Extraction.extract router.rule query keys = (.ok e, keys')) :
    ∃ d, e.conditions = .of [d] false ∧ Describes router.rule r d := by
  obtain ⟨rows, hconditions, hrows⟩ := Extraction.extract_insertion hq hs.found h
  obtain ⟨row, ⟨k, k', hrow⟩, rfl⟩ := forall₂_singleton_left.1 hrows
  rw [Extraction.keyStrategy?, hs.noKey, Option.filter_none] at hrow
  have hentries := Extraction.row_keyless hrow
  refine ⟨row.1, hconditions, fun e he => Extraction.table_of_mem_rowEntries hentries he, ?_⟩
  intro column hcol
  have hfind := Extraction.find?_rowEntries hentries hcol
  rw [hfind, find?_operand]

/-- A row lands on the only data node under its condition. -/
theorem node_of_landsOn (hs : router.rule.Stores r.table t) (h : r.LandsOn router n) :
    ∃ d hint, Describes router.rule r d ∧
      Placement.nodesUnder router.rule hint t (some d) = .ok [n] := by
  obtain ⟨query, topology, keys, route, state, hq, hroute, u, hu, hsource, htable⟩ := h
  obtain ⟨e, keys', placed, he, hplace, rfl⟩ := ShardingRouter.placed_of_uncached rfl hroute
  obtain ⟨d, hconditions, hd⟩ := describes_of_extract hs hq he
  have heffective : ShardingRouter.effective query e.conditions = .of [d] false := by
    rw [hconditions, ShardingRouter.effective, Conditions.needsMerge]
    simp [Conditions.of]
  rw [heffective] at hplace
  obtain ⟨nodes, hplaces⟩ := Placement.place_places_rows hq hs.found hs.noBroadcast rfl hplace
  obtain ⟨node, hnode, rfl⟩ :=
    forall₂_singleton_left.1 (Placement.nodesOf_alternatives rfl hplaces.rows)
  obtain ⟨m, hm, rfl⟩ := (hplaces.units u).1 hu
  have hn : node = n := by
    rw [← List.mem_singleton.1 hm]
    exact Placement.eq_of_loneUnit hsource htable
  exact ⟨d, query.hint, hd, hn ▸ hnode⟩

/-- What a row holds in the columns of a table, if it is a row of that table. -/
def valueIn? (r : StoredRow) (table : String) (column : String) : Option Value :=
  if sameName r.table table then r.value? column else none

theorem pins_of_describes {d : Condition} (hs : router.rule.Stores r.table t)
    (h : Describes router.rule r d) :
    d.Pins (router.rule.columnsOf t) t.logicTable (r.valueIn? t.logicTable) := by
  intro column hcol
  unfold valueIn?
  split
  · rename_i hsame
    have hfind : d.find? t.logicTable column = d.find? r.table column := by
      simp only [Condition.find?, Text.sameName_congr_right hsame]
    rw [hfind]
    exact h.values column
      ((ShardingRule.isShardingColumn_iff hs.found).2 ⟨column, hcol, Text.sameName_refl _⟩)
  · rename_i hother
    have hnone : d.find? t.logicTable column = none := by
      refine List.find?_eq_none.2 fun e he hm => hother ?_
      rw [Bool.and_eq_true, h.table e he] at hm
      exact hm.1
    rw [hnone]
    rfl

/-- The node of a row is among those of every condition that is true of what it holds. -/
theorem mem_nodesUnder_of_trueOf (hs : router.rule.Stores r.table t) (h : r.LandsOn router n)
    {hint : Hint} {condition : Option Condition} {nodes : List DataNode}
    (hc : ∀ c ∈ condition,
      c.TrueOf (router.rule.columnsOf t) t.logicTable (r.valueIn? t.logicTable))
    (hnodes : Placement.nodesUnder router.rule hint t condition = .ok nodes) : n ∈ nodes := by
  obtain ⟨d, hint', hd, hnode⟩ := node_of_landsOn hs h
  exact Placement.nodesUnder_covers hs.noDatabaseHint hs.noTableHint (pins_of_describes hs hd) hc
    hnode hnodes (List.mem_singleton_self n)

/-- Two rows of one table that are the same are one. -/
def Apart (rows : List StoredRow) : Prop :=
  rows.Pairwise fun r r' => sameName r.table r'.table = false

theorem Apart.eq {rows : List StoredRow} (h : Apart rows) {r r' : StoredRow} (hr : r ∈ rows)
    (hr' : r' ∈ rows) (hs : sameName r.table r'.table = true) : r = r' := by
  by_contra hne
  have : Std.Symm fun a b : StoredRow => sameName a.table b.table = false :=
    ⟨fun a b hab => by rwa [Text.sameName_comm]⟩
  rw [List.Pairwise.forall h hr hr' hne] at hs
  cases hs

theorem contents_value? {rows : List StoredRow} {table column : String} {v : Value}
    (hv : (contents rows).value? table column = some v) :
    ∃ r ∈ rows, sameName r.table table = true ∧ r.value? column = some v := by
  obtain ⟨r, hr, hv⟩ := Option.bind_eq_some_iff.1 hv
  have hs := List.find?_some hr
  exact ⟨r, List.mem_of_find?_eq_some hr, hs, hv⟩

/-- A condition that the rows satisfy is true of the row of the table. -/
theorem trueOf_of_satisfied {rows : List StoredRow} (hrows : Apart rows) (hr : r ∈ rows)
    {table : String} (hs : sameName r.table table = true) {c : Condition}
    (hc : c.Satisfied (contents rows)) (columns : List String) :
    c.TrueOf columns table (r.valueIn? table) := by
  intro column _ e he
  obtain ⟨v, hv, hadm⟩ := hc e (List.mem_of_find?_eq_some he)
  obtain ⟨r', hr', hs', hv⟩ := contents_value? hv
  have hfound := List.find?_some he
  rw [Bool.and_eq_true] at hfound
  have heq : r' = r := hrows.eq hr' hr
    (Text.sameName_trans (Text.sameName_trans hs' hfound.1) (Text.sameName_symm hs))
  subst heq
  refine ⟨v, ?_, hadm⟩
  rw [valueIn?, if_pos hs, ← value?_congr hfound.2, hv]

/-- Rows of several tables, each on its data node. -/
structure Stored (router : ShardingRouter) (rows : List StoredRow) (node : StoredRow → DataNode) :
    Prop where
  apart : Apart rows
  stores : ∀ r ∈ rows, ∃ t, router.rule.Stores r.table t
  lands : ∀ r ∈ rows, r.LandsOn router (node r)

/-- The node of a row is among those of every condition that the rows satisfy. -/
theorem Stored.mem_nodesUnder {rows : List StoredRow} {node : StoredRow → DataNode}
    (h : Stored router rows node) (hr : r ∈ rows) (hs : router.rule.Stores r.table t) {hint : Hint}
    {condition : Option Condition} {nodes : List DataNode}
    (hc : ∀ c ∈ condition, c.Satisfied (contents rows))
    (hnodes : Placement.nodesUnder router.rule hint t condition = .ok nodes) : node r ∈ nodes := by
  by_cases hown : sameName r.table t.logicTable = true
  · exact mem_nodesUnder_of_trueOf hs (h.lands r hr)
      (fun c hm => trueOf_of_satisfied h.apart hr hown (hc c hm) _) hnodes
  by_cases hlogic : ∃ r' ∈ rows, sameName r'.table t.logicTable = true
  · obtain ⟨r', hr', hs'⟩ := hlogic
    have hkey : Text.lower r.table = Text.lower t.logicTable :=
      router.rule.keyed _ (NameMap.get?_eq_some.1 hs.found)
    have hstores' : router.rule.Stores r'.table t := by
      obtain ⟨t', ht'⟩ := h.stores r' hr'
      have hfound := ht'.found
      rw [ShardingRule.table?, Text.lower_congr hs', ← hkey, ← ShardingRule.table?, hs.found] at hfound
      cases hfound
      exact ht'
    have hmem := mem_nodesUnder_of_trueOf hstores' (h.lands r' hr')
      (fun c hm => trueOf_of_satisfied h.apart hr' hs' (hc c hm) _) hnodes
    -- a row whose table only has the key of the logic table is nowhere constrained, so that its one
    -- node is the one of the other row
    obtain ⟨d, hint', hd, hnode⟩ := node_of_landsOn hs (h.lands r hr)
    have hsame : node r' ∈ [node r] := by
      refine mem_nodesUnder_of_trueOf hstores' (h.lands r' hr') (fun c hm => ?_) hnode
      cases hm
      intro column _ e he
      have hfound := List.find?_some he
      rw [Bool.and_eq_true, hd.table e (List.mem_of_find?_eq_some he)] at hfound
      exact absurd hfound.1 hown
    rwa [← List.mem_singleton.1 hsame]
  · refine mem_nodesUnder_of_trueOf hs (h.lands r hr) (fun c hm column _ e he => ?_) hnodes
    obtain ⟨v, hv, -⟩ := hc c hm e (List.mem_of_find?_eq_some he)
    obtain ⟨r', hr', hs', -⟩ := contents_value? hv
    have hfound := List.find?_some he
    rw [Bool.and_eq_true] at hfound
    exact absurd ⟨r', hr', Text.sameName_trans hs' hfound.1⟩ hlogic

end StoredRow

/-- The conditions leave room for what the columns hold. -/
def Conditions.Allows (a : Valuation) (c : Conditions) : Prop :=
  c.alwaysFalse = false ∧ (c.alternatives = [] ∨ ∃ k ∈ c.alternatives, k.Satisfied a)

theorem extract_allows {rule : ShardingRule} {query : Query} {keys keys' : KeyCounters}
    {e : Extracted} {a : Valuation} (hneeds : query.statement.needsConditions = true)
    (hrows : query.statement.kind = .insert → query.statement.insert = none)
    (h : Extraction.extract rule query keys = (.ok e, keys'))
    (hg : ∃ g ∈ query.statement.groups, GroupHolds rule query.params a g) :
    e.conditions.Allows a := by
  rw [Extraction.extract_where keys hneeds hrows, Prod.mk.injEq, map_eq_ok] at h
  obtain ⟨⟨c, hgroups, rfl⟩, -⟩ := h
  rcases Extraction.groupsFrom_allows a hgroups with ⟨rfl, -⟩ | ⟨-, hiff, hnone, -⟩
  · exact ⟨rfl, .inl rfl⟩
  · obtain ⟨k, hk, hsat⟩ := hiff.2 (.inr hg)
    refine ⟨Bool.eq_false_iff.2 fun hf => ?_, .inr ⟨k, hk, hsat⟩⟩
    rw [hnone hf] at hk
    exact List.not_mem_nil hk

theorem effective_allows {query : Query} {c : Conditions} {a : Valuation} (h : c.Allows a) :
    (ShardingRouter.effective query c).Allows a := by
  unfold ShardingRouter.effective
  split
  · obtain ⟨hf, hnil | ⟨k, hk, hsat⟩⟩ := h
    · refine ⟨hf, .inl ?_⟩
      rw [Conditions.merge, hnil]
      rfl
    · exact ⟨hf, .inr ⟨k, mem_distinct.2 hk, hsat⟩⟩
  · exact h

namespace Placement

variable {rule : ShardingRule} {hint : Hint} {t : TableRule}

/-- Some of the nodes of a table are those under a condition that is true of the columns. -/
theorem nodesOf_allows {c : Conditions} {a : Valuation} {lists : List (List DataNode)}
    (hc : c.Allows a) (h : nodesOf rule hint t c = .ok lists) :
    ∃ condition, (∀ k ∈ condition, k.Satisfied a) ∧
      ∃ nodes ∈ lists, nodesUnder rule hint t condition = .ok nodes := by
  unfold nodesOf at h
  split at h
  · obtain ⟨nodes, hnodes, h⟩ := bind_eq_ok.1 h
    cases h
    exact ⟨none, fun k hk => (Option.not_mem_none k hk).elim, nodes, List.mem_singleton_self _, hnodes⟩
  · rename_i hne
    rcases hc.2 with hnil | ⟨k, hk, hsat⟩
    · exact absurd (List.isEmpty_iff.2 hnil) hne
    · obtain ⟨nodes, hmem, hnodes⟩ := exists_of_mem_left (mapM_eq_ok.1 h) hk
      refine ⟨some k, fun k' hk' => ?_, nodes, hmem, hnodes⟩
      cases hk'
      exact hsat

/-- Where every table has a node on one data source, one unit joins those nodes. -/
theorem standard_joins {query : Query} {conditions : Conditions} {tables : List String}
    {route : Route} {source : String} {actual : String → String} (hne : tables ≠ [])
    (hapart : tables.Pairwise fun a b => sameName a b = false)
    (hfree : ∀ a ∈ tables, ∀ b ∈ tables, sameName b a = true ∨ rule.Unbound a b)
    (hnodes : ∀ table ∈ tables, ∀ t lists, rule.table? table = some t →
      nodesOf rule query.hint t conditions = .ok lists →
      ⟨source, actual table⟩ ∈ lists.flatten)
    (h : standard rule query conditions tables = .ok route) :
    ⟨⟨source, source⟩, tables.map fun table => ⟨table, actual table⟩⟩ ∈ route.units := by
  rw [standard, leads_unbound hapart hfree] at h
  obtain ⟨placed, hplaced, h⟩ := bind_eq_ok.1 h
  cases h
  have hall := mapM_eq_ok.1 hplaced
  rw [List.forall₂_map_left_iff] at hall
  -- the chosen piece of each table
  have hpieces : List.Forall₂ (fun q g => q ∈ g ∧ q.source = source)
      (tables.map fun table => lonePiece table ⟨source, actual table⟩) (placed.map (·.2)) := by
    rw [List.forall₂_map_left_iff, List.forall₂_map_right_iff]
    refine List.Forall₂.imp ?_ ((List.forall₂_and_left _ _).2 ⟨hnodes, hall⟩)
    rintro table ⟨lists, pieces⟩ ⟨hmem, hplace⟩
    obtain ⟨t, ht, hlists, -, rfl⟩ := placeLead_lone hplace
    exact ⟨mem_distinct.2 (List.mem_map_of_mem (hmem t lists ht hlists)), rfl⟩
  have hchosen : (tables.map fun table => lonePiece table ⟨source, actual table⟩) ≠ [] :=
    mt List.map_eq_nil_iff.1 hne
  have hunit := unit_mem_joinAll hchosen hpieces
  have htables : (tables.map fun table => lonePiece table ⟨source, actual table⟩).flatMap
      (·.tables) = tables.map fun table => ⟨table, actual table⟩ := by
    rw [List.flatMap_map]
    exact List.map_eq_flatMap.symm
  rwa [htables] at hunit

end Placement

/-- A unit that has just the tables of the rows finds each of them. -/
theorem actualTable?_of_rows {rows : List StoredRow} {node : StoredRow → DataNode}
    (hrows : StoredRow.Apart rows) {u : RouteUnit} {r : StoredRow} (hr : r ∈ rows)
    (hsound : ∀ m ∈ u.tables, ∃ r ∈ rows, sameName m.logic r.table = true ∧ m.actual = (node r).table)
    (hcomplete : ∃ m ∈ u.tables, sameName m.logic r.table = true) :
    u.actualTable? r.table = some (node r).table := by
  rw [RouteUnit.actualTable?]
  cases hfind : u.tables.find? fun m => sameName m.logic r.table with
  | none =>
    obtain ⟨m, hm, hs⟩ := hcomplete
    exact absurd hs (List.find?_eq_none.1 hfind m hm)
  | some m =>
    obtain ⟨r', hr', hs', hactual⟩ := hsound m (List.mem_of_find?_eq_some hfind)
    have hs := List.find?_some hfind
    have heq : r' = r := hrows.eq hr' hr (Text.sameName_trans (Text.sameName_symm hs') hs)
    rw [Option.map_some, hactual, heq]

namespace StoredRow

variable {router : ShardingRouter} {rows : List StoredRow} {node : StoredRow → DataNode}

theorem Stored.sharded (h : Stored router rows node) {r : StoredRow} (hr : r ∈ rows) {table : String}
    (hs : sameName r.table table = true) : ∃ t, router.rule.Stores table t ∧
      router.rule.Stores r.table t := by
  obtain ⟨t, ht⟩ := h.stores r hr
  refine ⟨t, ⟨?_, ht.noDatabaseHint, ht.noTableHint, ht.noKey, ?_⟩, ht⟩
  · rw [← ShardingRule.table?_congr hs]
    exact ht.found
  · rw [← ShardingRule.isBroadcast_congr hs]
    exact ht.noBroadcast

/-- Tables of different rows are not bound together, where those of the rows are not. -/
theorem unbound_of_rows {rule : ShardingRule}
    (hunbound : rows.Pairwise fun r r' => rule.Unbound r.table r'.table) {r r' : StoredRow}
    (hr : r ∈ rows) (hr' : r' ∈ rows) {a b : String} (ha : sameName r.table a = true)
    (hb : sameName r'.table b = true) : sameName b a = true ∨ rule.Unbound a b := by
  by_cases hrr : r = r'
  · subst hrr
    exact .inl (Text.sameName_trans (Text.sameName_symm hb) ha)
  · right
    have : Std.Symm fun r r' : StoredRow => rule.Unbound r.table r'.table :=
      ⟨fun r r' h group hg hm => h group hg hm.symm⟩
    have hapart := hunbound.forall hr hr' hrr
    rwa [ShardingRule.Unbound, Text.lower_congr ha, Text.lower_congr hb] at hapart

/-- A statement over the tables of stored rows is placed by its conditions. -/
theorem Stored.place_eq_standard (h : Stored router rows node) (hne : rows ≠ []) {query : Query}
    (topology : Topology) {conditions : Conditions} (htables : query.statement.IsOver rows)
    (hkind : query.statement.kind ≠ .ddl) (hfalse : conditions.alwaysFalse = false) :
    router.rule.shardingTables query.statement.tables ≠ [] ∧
    Placement.place router.rule query topology conditions
      (router.rule.shardingTables query.statement.tables) =
    Placement.standard router.rule query conditions
      (router.rule.shardingTables query.statement.tables) := by
  obtain ⟨r, hr⟩ := List.exists_mem_of_ne_nil rows hne
  obtain ⟨table, htable, hs⟩ := htables.2 r hr
  obtain ⟨t, ht, -⟩ := h.sharded hr hs
  obtain ⟨_, hmem, -⟩ := exists_mem_shardingTables htable ht.found
  have hnone := List.ne_nil_of_mem hmem
  have hbroadcast : router.rule.allBroadcast query.statement.tables = false := by
    rw [ShardingRule.allBroadcast, Bool.and_eq_false_iff]
    right
    rw [List.all_eq_false]
    exact ⟨table, htable, by rw [ht.noBroadcast]; exact Bool.false_ne_true⟩
  refine ⟨hnone, ?_⟩
  rw [Placement.place, hbroadcast, hfalse, Bool.or_false, List.isEmpty_eq_false_iff.2 hnone,
    if_neg Bool.false_ne_true, if_neg Bool.false_ne_true, if_neg (by simpa using hkind)]

end StoredRow

/-- The rows of several tables, no two of them bound together, are stored on one data source. A later
statement over just these tables, some group of which the rows meet, is routed to a unit on that data
source which has for each table the actual table of its row. -/
theorem stored_rows_found {router : ShardingRouter} {rows : List StoredRow}
    {node : StoredRow → DataNode} {source : String} {query : Query} {topology : Topology}
    {keys : KeyCounters} {route : Route} {state : ShardingState} (hne : rows ≠ [])
    (hstored : StoredRow.Stored router rows node)
    (hunbound : rows.Pairwise fun r r' => router.rule.Unbound r.table r'.table)
    (hsource : ∀ r ∈ rows, (node r).dataSource = source)
    (hkind : query.statement.kind ∈ [.select, .update, .delete])
    (htables : query.statement.IsOver rows)
    (hgroup : ∃ g ∈ query.statement.groups,
      GroupHolds router.rule query.params (StoredRow.contents rows) g)
    (h : router.route query topology ⟨keys, none⟩ = (.ok route, state)) :
    ∃ u ∈ route.units, u.source = ⟨source, source⟩ ∧
      (∀ r ∈ rows, u.actualTable? r.table = some (node r).table) ∧
      ∀ m ∈ u.tables, ∃ r ∈ rows, sameName m.logic r.table = true ∧ m.actual = (node r).table := by
  obtain ⟨e, keys', placed, he, hplace, rfl⟩ := ShardingRouter.placed_of_uncached rfl h
  have hdml : query.statement.kind.isDml = true ∧ query.statement.kind ≠ .insert ∧
      query.statement.kind ≠ .ddl := by
    simp only [List.mem_cons, List.not_mem_nil, or_false] at hkind
    rcases hkind with hk | hk | hk <;> simp [hk, StatementKind.isDml]
  have hallows : (ShardingRouter.effective query e.conditions).Allows (StoredRow.contents rows) :=
    effective_allows (extract_allows (by simp [Statement.needsConditions, hdml.1])
      (fun hk => absurd hk hdml.2.1) he hgroup)
  obtain ⟨hsome, heq⟩ := hstored.place_eq_standard hne topology htables hdml.2.2 hallows.1
  rw [heq] at hplace
  -- each table of the statement is the one of a row
  have hrow : ∀ table ∈ router.rule.shardingTables query.statement.tables,
      ∃ r, r ∈ rows ∧ sameName r.table table = true := by
    intro table ht
    exact htables.1 table (mem_shardingTables ht).1
  choose! rowOf hmem hsame using hrow
  have hfree : ∀ a ∈ router.rule.shardingTables query.statement.tables,
      ∀ b ∈ router.rule.shardingTables query.statement.tables,
      sameName b a = true ∨ router.rule.Unbound a b := fun a ha b hb =>
    StoredRow.unbound_of_rows hunbound (hmem a ha) (hmem b hb) (hsame a ha) (hsame b hb)
  have hunit : ⟨⟨source, source⟩, (router.rule.shardingTables query.statement.tables).map
      fun table => ⟨table, (node (rowOf table)).table⟩⟩ ∈ placed.units := by
    refine Placement.standard_joins hsome (distinctBy_pairwise _ _) hfree ?_ hplace
    intro table ht t lists hfound hlists
    obtain ⟨t', ht', hr⟩ := hstored.sharded (hmem table ht) (hsame table ht)
    rw [ht'.found] at hfound
    cases hfound
    obtain ⟨condition, hsat, nodes, hnodes, hunder⟩ := Placement.nodesOf_allows hallows hlists
    have hnode := hstored.mem_nodesUnder (hmem table ht) hr hsat hunder
    rw [← hsource _ (hmem table ht)]
    exact List.mem_flatten.2 ⟨nodes, hnodes, hnode⟩
  have hsound : ∀ m ∈ (router.rule.shardingTables query.statement.tables).map
      (fun table => Mapping.mk table (node (rowOf table)).table),
      ∃ r ∈ rows, sameName m.logic r.table = true ∧ m.actual = (node r).table := by
    intro m hm
    obtain ⟨table, ht, rfl⟩ := List.mem_map.1 hm
    exact ⟨rowOf table, hmem table ht, Text.sameName_symm (hsame table ht), rfl⟩
  refine ⟨_, hunit, rfl, fun r hr => ?_, hsound⟩
  refine actualTable?_of_rows hstored.apart hr hsound ?_
  obtain ⟨table, htable, hs⟩ := htables.2 r hr
  obtain ⟨t, ht, -⟩ := hstored.sharded hr hs
  obtain ⟨table', htable', hs'⟩ := exists_mem_shardingTables htable ht.found
  exact ⟨_, List.mem_map_of_mem htable',
    Text.sameName_trans hs' (Text.sameName_symm hs)⟩

/-- The items of orders, one table on each data source. -/
def itemTable : TableRule where
  logicTable := "t_item"
  nodes := [⟨"ds_0", "t_item"⟩, ⟨"ds_1", "t_item"⟩]
  databaseStrategy := some (.standard "user_id" (.mod ⟨2, Nat.zero_lt_two⟩))
  tableStrategy := none
  keyStrategy := none
  nodes_ne_nil := List.cons_ne_nil _ _

def shop : ShardingRouter := ⟨orders.withTable itemTable, [.dml (orders.withTable itemTable)]⟩

def sampleOrder : StoredRow := ⟨"t_order", ["order_id", "user_id"], [.int 7, .int 4]⟩

def sampleItem : StoredRow := ⟨"t_item", ["user_id", "item_id"], [.int 4, .int 3]⟩

def sampleNode (r : StoredRow) : DataNode :=
  if r.table = "t_item" then ⟨"ds_0", "t_item"⟩ else ⟨"ds_0", "t_order_1"⟩

/-- A join of which the order and the item meet the second group; the first contradicts itself. -/
def joinedOrders : Query where
  sql := "SELECT * FROM t_order JOIN t_item WHERE …"
  statement := { Statement.of .select ["T_ORDER", "t_item"] with
    groups := [[⟨"t_order", "user_id", .equal (.literal (.int 5))⟩,
        ⟨"t_order", "user_id", .equal (.literal (.int 6))⟩],
      [⟨"t_order", "Order_Id", .between (.parameter 0) (.literal (.int 8))⟩,
        ⟨"t_order", "user_id", .equal (.literal (.int 4))⟩,
        ⟨"t_item", "user_id", .oneOf [.literal (.int 1), .literal (.int 4)]⟩]] }
  params := [.int 6]
  hint := .none

theorem stored_rows_found_shop :
    let route : Route := ⟨[⟨⟨"ds_0", "ds_0"⟩, [⟨"T_ORDER", "t_order_0"⟩, ⟨"t_item", "t_item"⟩]⟩,
      ⟨⟨"ds_0", "ds_0"⟩, [⟨"T_ORDER", "t_order_1"⟩, ⟨"t_item", "t_item"⟩]⟩], [], []⟩
    shop.route joinedOrders ⟨"", ∅⟩ ⟨∅, none⟩ = (.ok route, ⟨∅, none⟩) ∧
      ∃ u ∈ route.units, u.source = ⟨"ds_0", "ds_0"⟩ ∧
        (∀ r ∈ [sampleOrder, sampleItem], u.actualTable? r.table = some (sampleNode r).table) ∧
        ∀ m ∈ u.tables, ∃ r ∈ [sampleOrder, sampleItem],
          sameName m.logic r.table = true ∧ m.actual = (sampleNode r).table := by
  have hlands : ∀ r ∈ [sampleOrder, sampleItem], r.LandsOn shop (sampleNode r) := by
    refine List.forall_mem_cons.2 ⟨?_, List.forall_mem_singleton.2 ?_⟩
    · exact ⟨⟨"", sampleOrder.insertion, [], .none⟩, ⟨"", ∅⟩, ∅, _, _, rfl, rfl, _,
        List.mem_singleton_self _, rfl, rfl⟩
    · exact ⟨⟨"", sampleItem.insertion, [], .none⟩, ⟨"", ∅⟩, ∅, _, _, rfl, rfl, _,
        List.mem_singleton_self _, rfl, rfl⟩
  have hstores : ∀ r ∈ [sampleOrder, sampleItem], ∃ t, shop.rule.Stores r.table t :=
    List.forall_mem_cons.2 ⟨⟨orderTable, rfl, rfl, rfl, rfl, rfl⟩,
      List.forall_mem_singleton.2 ⟨itemTable, rfl, rfl, rfl, rfl, rfl⟩⟩
  have hapart : StoredRow.Apart [sampleOrder, sampleItem] :=
    List.pairwise_pair.2 (by decide)
  have hunbound : [sampleOrder, sampleItem].Pairwise fun r r' =>
      shop.rule.Unbound r.table r'.table :=
    List.pairwise_pair.2 fun group hg => absurd hg List.not_mem_nil
  have hover : joinedOrders.statement.IsOver [sampleOrder, sampleItem] := by
    constructor <;> simp [joinedOrders, Statement.of, sampleOrder, sampleItem] <;> decide
  have hgroup : ∃ g ∈ joinedOrders.statement.groups, GroupHolds shop.rule joinedOrders.params
      (StoredRow.contents [sampleOrder, sampleItem]) g := by
    refine ⟨_, List.mem_cons_of_mem _ (List.mem_singleton_self _), ?_⟩
    intro p hp _
    simp only [List.mem_cons, List.not_mem_nil, or_false] at hp
    rcases hp with rfl | rfl | rfl
    · exact ⟨.int 7, rfl, .int 6, .int 8, rfl, rfl, by decide, by decide⟩
    · exact ⟨.int 4, rfl, rfl⟩
    · exact ⟨.int 4, rfl, .literal (.int 4), by simp, rfl⟩
  have hroute : shop.route joinedOrders ⟨"", ∅⟩ ⟨∅, none⟩ =
      (.ok ⟨[⟨⟨"ds_0", "ds_0"⟩, [⟨"T_ORDER", "t_order_0"⟩, ⟨"t_item", "t_item"⟩]⟩,
        ⟨⟨"ds_0", "ds_0"⟩, [⟨"T_ORDER", "t_order_1"⟩, ⟨"t_item", "t_item"⟩]⟩], [], []⟩, ⟨∅, none⟩) :=
    rfl
  refine ⟨hroute, ?_⟩
  exact stored_rows_found (List.cons_ne_nil _ _) ⟨hapart, hstores, hlands⟩ hunbound
    (List.forall_mem_cons.2 ⟨rfl, List.forall_mem_singleton.2 rfl⟩) (by decide) hover hgroup hroute

end ShardedSql
