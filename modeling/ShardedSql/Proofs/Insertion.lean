import ShardedSql.Proofs.Joins
import ShardedSql.Proofs.Nodes
import ShardedSql.Proofs.Where
import ShardedSql.Route.Sharding

/-! How an insertion into a sharded table is placed: every row becomes one alternative, and every
alternative has just one data node. -/

namespace ShardedSql

open Text (sameName)

namespace ShardingRule

variable {rule : ShardingRule}

theorem table?_congr {a b : String} (h : sameName a b = true) : rule.table? a = rule.table? b := by
  rw [table?, table?, Text.lower_congr h]

theorem isBroadcast_congr {a b : String} (h : sameName a b = true) :
    rule.isBroadcast a = rule.isBroadcast b := by
  rw [isBroadcast, isBroadcast, Text.lower_congr h]

theorem isShardingColumn_iff {table column : String} {t : TableRule}
    (ht : rule.table? table = some t) :
    rule.isShardingColumn table column = true ↔
      ∃ c ∈ rule.columnsOf t, sameName c column = true := by
  rw [isShardingColumn, ht, Option.any_some, List.any_eq_true]
  rfl

theorem isShardingColumn_congr {table c c' : String} (h : sameName c c' = true) :
    rule.isShardingColumn table c = rule.isShardingColumn table c' := by
  rw [isShardingColumn, isShardingColumn]
  simp only [Text.sameName_congr_right h]

end ShardingRule

namespace Extraction

variable {rule : ShardingRule} {params : List Value}

/-- The entries of a row say what the row holds: for a column the first value written for it. -/
theorem find?_rowEntries {table column : String} {l : List (String × Operand)}
    {entries : List ColumnConstraint} (h : rowEntries rule params table l = .ok entries)
    (hcol : rule.isShardingColumn table column = true) :
    ((Condition.mk entries).find? table column).map (·.constraint) =
      ((l.find? fun e => sameName e.1 column).bind (·.2.value? params)).map
        fun v => .list [v] := by
  induction l generalizing entries with
  | nil =>
    cases h
    rfl
  | cons e l ih =>
    obtain ⟨c, o⟩ := e
    rw [rowEntries] at h
    split at h
    · obtain ⟨v, hv, h⟩ := bind_eq_ok.1 h
      obtain ⟨entries', hentries', h⟩ := bind_eq_ok.1 h
      cases h
      rw [resolve_eq_ok] at hv
      rw [Condition.find?, List.find?_cons, List.find?_cons, Text.sameName_refl, Bool.true_and]
      cases hs : sameName c column with
      | true => simp [hv, Constraint.ofValues, distinct, distinctBy, distinctFrom]
      | false => exact ih hentries'
    · rename_i hfree
      have hs : sameName c column = false := by
        by_contra hs
        rw [ShardingRule.isShardingColumn_congr (by simpa using hs)] at hfree
        exact hfree hcol
      rw [List.find?_cons, hs]
      exact ih h

/-- All entries of a row are about its table. -/
theorem table_of_mem_rowEntries {table : String} {l : List (String × Operand)}
    {entries : List ColumnConstraint} (h : rowEntries rule params table l = .ok entries)
    {e : ColumnConstraint} (he : e ∈ entries) : e.table = table := by
  induction l generalizing entries with
  | nil =>
    cases h
    exact absurd he List.not_mem_nil
  | cons d l ih =>
    obtain ⟨c, o⟩ := d
    rw [rowEntries] at h
    split at h
    · obtain ⟨v, -, h⟩ := bind_eq_ok.1 h
      obtain ⟨entries', hentries', h⟩ := bind_eq_ok.1 h
      cases h
      rcases List.mem_cons.1 he with rfl | he
      · rfl
      · exact ih hentries' he
    · exact ih h he

/-- A row without a key of its own is read by its operands. -/
theorem row_keyless {data : InsertData} {operands : List Operand} {keys keys' : KeyCounters}
    {r : Condition × List Value} (h : row rule params data none operands keys = (.ok r, keys')) :
    rowEntries rule params data.table (data.columns.zip operands) = .ok r.1.entries := by
  obtain ⟨entries, k, hentries, h⟩ := run_bind_eq_ok.1 h
  cases h
  exact congrArg Prod.fst hentries

/-- Every row of an insertion is an alternative. -/
theorem extract_insertion {query : Query} {data : InsertData} {t : TableRule}
    {keys keys' : KeyCounters} {e : Extracted} (hq : query.statement = .ofInsert data)
    (ht : rule.table? data.table = some t) (h : extract rule query keys = (.ok e, keys')) :
    ∃ rows, e.conditions = .of (rows.map (·.1)) false ∧
      List.Forall₂ (fun operands r => ∃ k k', row rule query.params data
        (keyStrategy? t data.columns) operands k = (.ok r, k')) data.rows rows := by
  rw [extract, hq] at h
  change insertion rule query.params data keys = _ at h
  rw [insertion, ht] at h
  obtain ⟨rows, k, hrows, h⟩ := run_bind_eq_ok.1 h
  cases h
  exact ⟨rows, rfl, run_mapM_ok hrows⟩

end Extraction

namespace Placement

/-- The unit of one table on its own. -/
def loneUnit (table : String) (n : DataNode) : RouteUnit := (lonePiece table n).unit

/-- The unit of a node tells where it is. -/
theorem eq_of_loneUnit {table : String} {n m : DataNode}
    (hsource : (loneUnit table m).dataSource = n.dataSource)
    (htable : (loneUnit table m).actualTable? table = some n.table) : m = n := by
  have hactual : (loneUnit table m).actualTable? table = some m.table := by
    simp [loneUnit, lonePiece, Piece.unit, RouteUnit.actualTable?]
  rw [hactual] at htable
  cases m
  cases n
  cases htable
  cases hsource
  rfl

/-- The rows of an insertion are placed on these nodes, one for each alternative. -/
structure PlacesRows (rule : ShardingRule) (hint : Hint) (table : String) (t : TableRule)
    (conditions : Conditions) (nodes : List DataNode) (route : Route) : Prop where
  rows : nodesOf rule hint t conditions = .ok (nodes.map ([·]))
  rowNodes : route.rowNodes = nodes.map ([·])
  units : ∀ u, u ∈ route.units ↔ ∃ n ∈ nodes, loneUnit table n = u
  nodup : route.units.Nodup

theorem checkRows_ok {table : String} {rows : List (List DataNode)}
    (h : checkRows table rows = .ok ()) : ∃ nodes : List DataNode, rows = nodes.map ([·]) := by
  unfold checkRows at h
  split at h
  · cases h
  · rename_i hnone
    rw [List.find?_eq_none] at hnone
    have hone : rows ∈ Set.range (List.map fun n : DataNode => [n]) := by
      rw [Set.range_list_map]
      intro l hl
      obtain ⟨n, hn⟩ := List.length_eq_one_iff.1 (by simpa using hnone l hl)
      exact ⟨n, hn.symm⟩
    obtain ⟨nodes, hnodes⟩ := hone
    exact ⟨nodes, hnodes.symm⟩

theorem nodesOf_alternatives {rule : ShardingRule} {hint : Hint} {t : TableRule}
    {conditions : Conditions} {nodes : List DataNode} (hne : conditions.isEmpty = false)
    (h : nodesOf rule hint t conditions = .ok (nodes.map ([·]))) :
    List.Forall₂ (fun c n => nodesUnder rule hint t (some c) = .ok [n])
      conditions.alternatives nodes := by
  rw [nodesOf, hne, if_neg Bool.false_ne_true, mapM_eq_ok, List.forall₂_map_right_iff] at h
  exact h

theorem single_of_nodesOf {rule : ShardingRule} {hint : Hint} {t : TableRule}
    {conditions : Conditions} {nodes : List DataNode}
    (h : nodesOf rule hint t conditions = .ok (nodes.map ([·]))) {n : DataNode} (hn : n ∈ nodes) :
    ∃ c, nodesUnder rule hint t c = .ok [n] := by
  cases hempty : conditions.isEmpty with
  | true =>
    rw [nodesOf, hempty, if_pos rfl] at h
    obtain ⟨l, hl, h⟩ := bind_eq_ok.1 h
    have hmem : [n] ∈ [l] := by
      rw [Except.ok.inj h]
      exact List.mem_map_of_mem hn
    rw [List.mem_singleton.1 hmem]
    exact ⟨none, hl⟩
  | false =>
    obtain ⟨c, -, hc⟩ := exists_of_mem_right (nodesOf_alternatives hempty h) hn
    exact ⟨some c, hc⟩

/-- One table is placed by its own nodes, each a unit. -/
theorem standard_lone {rule : ShardingRule} {query : Query} {conditions : Conditions}
    {table : String} {t : TableRule} {route : Route} (ht : rule.table? table = some t)
    (h : standard rule query conditions [table] = .ok route) :
    ∃ lists, nodesOf rule query.hint t conditions = .ok lists ∧
      (query.statement.kind = .insert → checkRows table lists = .ok () ∧ route.rowNodes = lists) ∧
      (∀ u, u ∈ route.units ↔ ∃ n ∈ lists.flatten, loneUnit table n = u) ∧ route.units.Nodup := by
  have hleads : leads rule [table] = [⟨table, []⟩] :=
    leads_unbound (List.pairwise_singleton _ _) fun a ha b hb => by
      rw [List.mem_singleton.1 ha, List.mem_singleton.1 hb]
      exact .inl (Text.sameName_refl _)
  rw [standard, hleads] at h
  obtain ⟨placed, hplaced, h⟩ := bind_eq_ok.1 h
  cases h
  obtain ⟨⟨lists, pieces⟩, hplace, rfl⟩ := forall₂_singleton_left.1 (mapM_eq_ok.1 hplaced)
  obtain ⟨t', ht', hlists, hcheck, rfl⟩ := placeLead_lone hplace
  rw [ht] at ht'
  cases ht'
  refine ⟨lists, hlists, fun hkind => ⟨hcheck hkind, ?_⟩, fun u => ?_, nodup_distinct _⟩
  · rw [hkind]
    rfl
  · simp only [joinAll, List.map_cons, List.map_nil, List.foldl_nil, mem_distinct, List.mem_map,
      exists_exists_and_eq_and, loneUnit]

theorem standard_places_rows {rule : ShardingRule} {query : Query} {conditions : Conditions}
    {table : String} {t : TableRule} {route : Route} (hkind : query.statement.kind = .insert)
    (ht : rule.table? table = some t)
    (h : standard rule query conditions [table] = .ok route) :
    ∃ nodes, PlacesRows rule query.hint table t conditions nodes route := by
  obtain ⟨lists, hlists, hrows, hunits, hnodup⟩ := standard_lone ht h
  obtain ⟨hcheck, rfl⟩ := hrows hkind
  obtain ⟨nodes, hnodes⟩ := checkRows_ok hcheck
  rw [hnodes] at hlists
  refine ⟨nodes, hlists, hnodes, fun u => ?_, hnodup⟩
  rw [hunits, hnodes, ← List.flatMap_def, List.flatMap_singleton']

theorem shardingTables_insertion {rule : ShardingRule} {table : String} {t : TableRule}
    (ht : rule.table? table = some t) : rule.shardingTables [table] = [table] := by
  simp [ShardingRule.shardingTables, ShardingRule.isSharding, ht, distinctBy, distinctFrom]

/-- An insertion that is placed at all is placed by its rows. -/
theorem place_places_rows {rule : ShardingRule} {query : Query} {topology : Topology}
    {conditions : Conditions} {data : InsertData} {t : TableRule} {route : Route}
    (hq : query.statement = .ofInsert data) (ht : rule.table? data.table = some t)
    (hb : rule.isBroadcast data.table = false) (hfalse : conditions.alwaysFalse = false)
    (h : place rule query topology conditions (rule.shardingTables query.statement.tables) =
      .ok route) :
    ∃ nodes, PlacesRows rule query.hint data.table t conditions nodes route := by
  have hkind : query.statement.kind = .insert := by rw [hq]; rfl
  have htables : query.statement.tables = [data.table] := by rw [hq]; rfl
  rw [htables, shardingTables_insertion ht, place, htables, hkind] at h
  simp only [ShardingRule.allBroadcast, List.all_cons, hb, hfalse] at h
  exact standard_places_rows hkind ht h

end Placement

namespace ShardingRouter

variable {r : ShardingRouter} {query : Query} {topology : Topology} {route : Route}

/-- A routed statement passed the extraction, and what comes behind it. -/
theorem route_eq_ok {s s' : ShardingState} (h : r.route query topology s = (.ok route, s')) :
    ∃ e keys, Extraction.extract r.rule query s.keys = (.ok e, keys) ∧
      r.routeExtracted query topology e s.cache = (.ok route, s'.cache) := by
  unfold ShardingRouter.route at h
  rcases he : Extraction.extract r.rule query s.keys with ⟨_ | e, keys⟩
  · rw [he] at h
    cases h
  · rw [he] at h
    dsimp only at h
    rcases hr : r.routeExtracted query topology e s.cache with ⟨result, cache⟩
    rw [hr] at h
    cases h
    exact ⟨e, keys, rfl, hr⟩

/-- What was routed came from the cache or was placed. -/
theorem routeExtracted_eq_ok {e : Extracted} {cache cache' : Option RouteCache}
    (h : r.routeExtracted query topology e cache = (.ok route, cache')) :
    ∃ found, r.cachedPlace query topology (effective query e.conditions)
        (r.rule.shardingTables query.statement.tables) e.generatedKeys cache = .ok (found, cache') ∧
      route = { found with generatedKeys := e.generatedKeys } := by
  unfold routeExtracted at h
  dsimp only at h
  split at h
  · cases h
  · split at h
    · cases h
    · rename_i found cache'' hplace
      rw [Prod.mk.injEq, map_eq_ok] at h
      obtain ⟨⟨_, -, rfl⟩, rfl⟩ := h
      exact ⟨found, hplace, rfl⟩

/-- Without a cache it was placed. -/
theorem placed_of_uncached {s s' : ShardingState} (hs : s.cache = none)
    (h : r.route query topology s = (.ok route, s')) :
    ∃ e keys placed, Extraction.extract r.rule query s.keys = (.ok e, keys) ∧
      Placement.place r.rule query topology (effective query e.conditions)
        (r.rule.shardingTables query.statement.tables) = .ok placed ∧
      route = { placed with generatedKeys := e.generatedKeys } := by
  obtain ⟨e, keys, he, hr⟩ := route_eq_ok h
  obtain ⟨found, hfound, hroute⟩ := routeExtracted_eq_ok hr
  rw [hs, cachedPlace, usable, Option.filter_none] at hfound
  obtain ⟨placed, hplaced, hfound⟩ := bind_eq_ok.1 hfound
  rw [Except.ok.injEq, Prod.mk.injEq] at hfound
  obtain ⟨rfl, -⟩ := hfound
  exact ⟨e, keys, placed, he, hplaced, hroute⟩

end ShardingRouter

end ShardedSql
