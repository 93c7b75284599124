import ShardedSql.Proofs.Insertion
import ShardedSql.Route.Readwrite

/-! Where a placed statement goes. A unit of the standard route joins one piece of every lead, all on
one data source; whichever way a statement is placed, its data sources are those of the tables, or the
storage units where no table has any. -/

namespace ShardedSql

theorem TableRule.mem_dataSources {t : TableRule} {source : String} :
    source ∈ t.dataSources ↔ ∃ n ∈ t.nodes, n.dataSource = source := by
  rw [dataSources, mem_distinctOn, List.mem_map]

namespace Topology

variable {topology : Topology}

theorem contains_iff {name : String} : topology.contains name = true ↔ name ∈ topology.names :=
  NameMap.contains_iff

theorem not_mem_names {name : String} (h : topology.contains name = false) : name ∉ topology.names := by
  rw [← contains_iff, h]
  exact Bool.false_ne_true

theorem names_nodup (topology : Topology) : topology.names.Nodup := topology.units.names_nodup

end Topology

namespace ShardingRule

variable {rule : ShardingRule}

/-- Some table has data nodes on the data source. -/
def Uses (rule : ShardingRule) (source : String) : Prop :=
  ∃ t ∈ rule.tables.values, source ∈ t.dataSources

theorem mem_values_of_table? {table : String} {t : TableRule} (h : rule.table? table = some t) :
    t ∈ rule.tables.values :=
  List.mem_map_of_mem (NameMap.get?_eq_some.1 h)

theorem table?_of_mem_values {t : TableRule} (h : t ∈ rule.tables.values) :
    rule.table? t.logicTable = some t := by
  obtain ⟨e, he, rfl⟩ := List.mem_map.1 h
  rw [table?, ← rule.keyed e he]
  exact NameMap.get?_eq_some.2 he

/-- Without declared names the data sources are those of the tables. -/
theorem mem_dataSources (hdeclared : rule.declaredSources = []) {source : String} :
    source ∈ rule.dataSources ↔ rule.Uses source := by
  rw [dataSources, hdeclared, if_pos (by rfl), mem_distinct, List.mem_flatMap]
  rfl

theorem dataSources_nodup (hdeclared : rule.declaredSources = []) : rule.dataSources.Nodup := by
  rw [dataSources, hdeclared, if_pos (by rfl)]
  exact nodup_distinct _

theorem dataSources_eq_nil (hdeclared : rule.declaredSources = []) :
    rule.dataSources = [] ↔ rule.tables.entries = [] := by
  constructor
  · intro h
    refine List.eq_nil_iff_forall_not_mem.2 fun e he => ?_
    obtain ⟨n, hn⟩ := List.exists_mem_of_ne_nil _ e.2.nodes_ne_nil
    have huses : rule.Uses n.dataSource :=
      ⟨e.2, List.mem_map_of_mem he, TableRule.mem_dataSources.2 ⟨n, hn, rfl⟩⟩
    rw [← mem_dataSources hdeclared, h] at huses
    exact List.not_mem_nil huses
  · intro h
    refine List.eq_nil_iff_forall_not_mem.2 fun source hs => ?_
    obtain ⟨t, ht, -⟩ := (mem_dataSources hdeclared).1 hs
    rw [NameMap.values, h] at ht
    exact List.not_mem_nil ht

/-- Where broadcast tables are: on the data sources of the other tables, or on all storage units if there
are none. -/
def broadcastSources (rule : ShardingRule) (topology : Topology) : List String :=
  if rule.tables.entries = [] then topology.names else rule.dataSources

theorem mem_broadcastSources (hdeclared : rule.declaredSources = []) {topology : Topology}
    {source : String} : source ∈ rule.broadcastSources topology ↔
      rule.Uses source ∨ rule.tables.entries = [] ∧ source ∈ topology.names := by
  unfold broadcastSources
  split
  · rename_i hnil
    have hunused : ¬ rule.Uses source := by
      rw [← mem_dataSources hdeclared, (dataSources_eq_nil hdeclared).2 hnil]
      exact List.not_mem_nil
    simp [hnil, hunused]
  · rename_i hsome
    simp [hsome, mem_dataSources hdeclared]

theorem broadcastSources_nodup (hdeclared : rule.declaredSources = []) (topology : Topology) :
    (rule.broadcastSources topology).Nodup := by
  unfold broadcastSources
  split
  · exact topology.names_nodup
  · exact dataSources_nodup hdeclared

theorem names_of_broadcastSources_eq_nil (hdeclared : rule.declaredSources = []) {topology : Topology}
    (h : rule.broadcastSources topology = []) : topology.names = [] := by
  unfold broadcastSources at h
  split at h
  · exact h
  · rename_i hsome
    exact absurd ((dataSources_eq_nil hdeclared).1 h) hsome

end ShardingRule

namespace Placement

variable {rule : ShardingRule} {query : Query} {topology : Topology} {conditions : Conditions}
  {tables : List String} {route : Route} {u : RouteUnit}

/-- The piece lies on one of the nodes of its lead. -/
def PieceOf (rule : ShardingRule) (query : Query) (conditions : Conditions) (lead : Lead)
    (q : Piece) : Prop :=
  ∃ t lists node, rule.table? lead.table = some t ∧
    nodesOf rule query.hint t conditions = .ok lists ∧ node ∈ lists.flatten ∧
    piece rule lead node = .ok q

theorem pieceOf_of_placeLead {lead : Lead} {lists : List (List DataNode)} {pieces : List Piece}
    (h : placeLead rule query conditions lead = .ok (lists, pieces)) {q : Piece} (hq : q ∈ pieces) :
    PieceOf rule query conditions lead q := by
  obtain ⟨t, ps, ht, hlists, -, hps, rfl⟩ := placeLead_eq_ok h
  obtain ⟨node, hnode, hpiece⟩ := (mem_of_mapM_ok hps q).1 (mem_distinct.1 hq)
  exact ⟨t, lists, node, ht, hlists, hnode, hpiece⟩

/-- A unit of the standard route joins a piece of every lead. -/
theorem mem_standard (h : standard rule query conditions tables = .ok route) (hu : u ∈ route.units) :
    leads rule tables ≠ [] ∧ u.source.actual = u.source.logic ∧
      ∃ qs, List.Forall₂ (fun lead q => PieceOf rule query conditions lead q ∧
          q.source = u.source.logic) (leads rule tables) qs ∧
        u.tables = qs.flatMap (·.tables) := by
  obtain ⟨placed, hplaced, h⟩ := bind_eq_ok.1 h
  cases h
  obtain ⟨p, hp, rfl⟩ := List.mem_map.1 (mem_distinct.1 hu)
  obtain ⟨hne, qs, hqs, htables⟩ := mem_joinAll.1 hp
  have hall := mapM_eq_ok.1 hplaced
  refine ⟨?_, rfl, qs, ?_, htables⟩
  · intro hnil
    rw [hnil, List.forall₂_nil_left_iff] at hall
    exact hne (by rw [hall, List.map_nil])
  · rw [List.forall₂_map_right_iff] at hqs
    refine (forall₂_comp hall (List.Forall₂.flip hqs)).imp ?_
    rintro lead q ⟨⟨lists, pieces⟩, hlead, hmem, hsource⟩
    exact ⟨pieceOf_of_placeLead hlead hmem, hsource⟩

theorem piece_eq_ok {lead : Lead} {node : DataNode} {q : Piece}
    (h : piece rule lead node = .ok q) :
    q.source = node.dataSource ∧ q.tables.map (·.logic) = lead.table :: lead.partners := by
  obtain ⟨partners, hpartners, h⟩ := bind_eq_ok.1 h
  cases h
  refine ⟨rfl, congrArg (lead.table :: ·) ?_⟩
  rw [← List.forall₂_eq_eq_eq, List.forall₂_map_left_iff]
  refine (mapM_eq_ok.1 hpartners).flip.imp fun m partner hm => ?_
  unfold pairing at hm
  split at hm <;> cases hm
  rfl

theorem PieceOf.source {lead : Lead} {q : Piece} (h : PieceOf rule query conditions lead q) :
    rule.Uses q.source := by
  obtain ⟨t, lists, node, ht, hlists, hnode, hpiece⟩ := h
  rw [(piece_eq_ok hpiece).1]
  exact ⟨t, ShardingRule.mem_values_of_table? ht, (mem_of_nodesOf hlists hnode).1⟩

theorem sources_of_broadcast (hdeclared : rule.declaredSources = []) :
    (if rule.dataSources.isEmpty then topology.names else rule.dataSources) =
      rule.broadcastSources topology := by
  simp only [List.isEmpty_iff, ShardingRule.dataSources_eq_nil hdeclared]
  rfl

/-- A write goes to every place of the broadcast tables. -/
theorem broadcast_write (hdeclared : rule.declaredSources = [])
    (hwrite : ReadwriteRule.isWrite query = true) :
    (broadcast rule query topology).units.map (·.source) =
      (rule.broadcastSources topology).map fun name => ⟨name, name⟩ := by
  have hall : (query.statement.kind == .select && !query.statement.features.lock &&
      !query.hint.writeRouteOnly) = false := by
    rw [← Bool.not_eq_true', ← hwrite, ReadwriteRule.isWrite]
    cases query.hint.writeRouteOnly <;> cases query.statement.features.lock <;>
      simp [bne]
  unfold broadcast
  dsimp only
  rw [hall, if_neg Bool.false_ne_true, sources_of_broadcast hdeclared, Route.ofUnits,
    distinct_eq_self, List.map_map]
  · rfl
  · refine List.Nodup.map (fun a b h => ?_) (ShardingRule.broadcastSources_nodup hdeclared topology)
    exact congrArg (fun u : RouteUnit => u.source.logic) h

theorem everyNode_singleton {table : String} {t : TableRule} (ht : rule.table? table = some t) :
    everyNode rule [table] =
      .ok (.ofUnits (t.nodes.map fun n => Piece.unit ⟨n.dataSource, [⟨table, n.table⟩]⟩)) := by
  unfold everyNode
  simp only [List.mapM_cons, List.mapM_nil, ht]
  exact congrArg (fun units => Except.ok (Route.ofUnits units)) (List.append_nil _)

/-- The units of a definition are the nodes of its tables. -/
theorem mem_everyNode (h : everyNode rule tables = .ok route) (hu : u ∈ route.units) :
    ∃ table t n, rule.table? table = some t ∧ n ∈ t.nodes ∧ u = loneUnit table n := by
  obtain ⟨units, hunits, h⟩ := bind_eq_ok.1 h
  cases h
  obtain ⟨l, hl, hu⟩ := List.mem_flatten.1 (mem_distinct.1 hu)
  obtain ⟨table, -, htable⟩ := (mem_of_mapM_ok hunits l).1 hl
  split at htable
  · cases htable
  · rename_i t ht
    cases htable
    obtain ⟨n, hn, rfl⟩ := List.mem_map.1 hu
    exact ⟨table, t, n, ht, hn, rfl⟩

/-- What is not all broadcast goes nowhere, to every node of its tables, or where its conditions
send it. -/
theorem place_sharded (hbroadcast : rule.allBroadcast query.statement.tables = false)
    (h : place rule query topology conditions tables = .ok route) (hu : u ∈ route.units) :
    query.statement.kind = .ddl ∧ everyNode rule tables = .ok route ∨
      query.statement.kind ≠ .ddl ∧ standard rule query conditions tables = .ok route := by
  rw [place, hbroadcast, if_neg Bool.false_ne_true] at h
  split at h
  · cases h
    exact absurd hu List.not_mem_nil
  · split at h
    · rename_i hkind
      exact .inl ⟨eq_of_beq hkind, h⟩
    · rename_i hkind
      exact .inr ⟨by simpa using hkind, h⟩

/-- A placed unit is on a data source of the tables, unless a broadcast falls back to the storage
units because there are no tables. -/
theorem mem_place (hdeclared : rule.declaredSources = [])
    (h : place rule query topology conditions tables = .ok route) (hu : u ∈ route.units) :
    u.source.actual = u.source.logic ∧ (rule.Uses u.source.logic ∨
      rule.tables.entries = [] ∧ rule.allBroadcast query.statement.tables = true ∧
        u.source.logic ∈ topology.names) := by
  cases hbroadcast : rule.allBroadcast query.statement.tables with
  | true =>
    rw [place, hbroadcast, if_pos rfl] at h
    cases h
    obtain ⟨source, hsource, rfl⟩ := List.mem_map.1 (mem_distinct.1 hu)
    refine ⟨rfl, ?_⟩
    have hmem : source ∈ rule.broadcastSources topology := by
      rw [← sources_of_broadcast hdeclared]
      split at hsource
      · exact List.mem_of_mem_take hsource
      · exact hsource
    exact ((ShardingRule.mem_broadcastSources hdeclared).1 hmem).imp_right fun hfallback =>
      ⟨hfallback.1, rfl, hfallback.2⟩
  | false =>
    rcases place_sharded hbroadcast h hu with ⟨-, h⟩ | ⟨-, h⟩
    · obtain ⟨table, t, n, ht, hn, rfl⟩ := mem_everyNode h hu
      exact ⟨rfl, .inl ⟨t, ShardingRule.mem_values_of_table? ht,
        TableRule.mem_dataSources.2 ⟨n, hn, rfl⟩⟩⟩
    · obtain ⟨hne, hsame, qs, hqs, -⟩ := mem_standard h hu
      obtain ⟨lead, hlead⟩ := List.exists_mem_of_ne_nil _ hne
      obtain ⟨q, -, hq, hsource⟩ := exists_of_mem_left hqs hlead
      exact ⟨hsame, .inl (hsource ▸ hq.source)⟩

end Placement

end ShardedSql
