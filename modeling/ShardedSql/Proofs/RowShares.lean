import ShardedSql.Proofs.RowUnits
import ShardedSql.Proofs.SpelledRows
import ShardedSql.Render.Draft

/-! The rows of an insertion are shared out among its units. The rendered rows and the bound parameter
groups are filtered apart from each other, but by the same places, and every place falls to just one
unit. -/

namespace ShardedSql

open Text (sameName)

section Picked

variable {α β : Type}

/-- The members of a list at some places. -/
def picked (l : List α) (share : List Nat) : List α := share.filterMap (l[·]?)

theorem picked_map (f : α → β) (l : List α) (share : List Nat) :
    picked (l.map f) share = (picked l share).map f := by
  simp [picked, List.map_filterMap]

/-- Filtering picks the places of the members that pass. -/
theorem picked_filter (p : α → Bool) (l : List α) :
    picked l ((List.range l.length).filter fun i => l[i]?.any p) = l.filter p := by
  induction l with
  | nil => rfl
  | cons a l ih =>
    have hrest : picked (a :: l) (((List.range l.length).map Nat.succ).filter fun i =>
        (a :: l)[i]?.any p) = l.filter p := by
      rw [List.filter_map, picked, List.filterMap_map]
      exact ih
    rw [List.length_cons, List.range_succ_eq_map, List.filter_cons, List.filter_cons]
    cases hp : p a with
    | false => simpa [hp, picked] using hrest
    | true => simpa [hp, picked] using hrest

end Picked

/-- The places of the rows that go to a unit. -/
def RouteUnit.share (u : RouteUnit) (rowNodes : List (List DataNode)) : List Nat :=
  (List.range rowNodes.length).filter fun i => rowNodes[i]?.any u.coversAny

section Shares

variable {u : RouteUnit} {rowNodes : List (List DataNode)}

theorem share_increasing (u : RouteUnit) (rowNodes : List (List DataNode)) :
    (u.share rowNodes).Pairwise (· < ·) :=
  List.pairwise_lt_range.filter _

/-- The rendered rows of a unit are those of its share. -/
theorem texts_of_share {rows : List InsertRow} (h : rows.map (·.nodes) = rowNodes) :
    (rows.filter (·.belongs (some u))).map (·.text) =
      picked (rows.map (·.text)) (u.share rowNodes) := by
  rw [picked_map, ← picked_filter, RouteUnit.share, ← h, List.length_map]
  simp only [List.getElem?_map, Option.any_map]
  rfl

/-- The bound groups of a unit are those of its share. -/
theorem groupsOn_of_share {groups : List (List Value)} (h : groups.length = rowNodes.length) :
    Parameters.groupsOn u rowNodes groups = picked groups (u.share rowNodes) := by
  have hsnd : (rowNodes.zip groups).map Prod.snd = groups := List.map_snd_zip (by omega)
  have hfst : (rowNodes.zip groups).map Prod.fst = rowNodes := List.map_fst_zip (by omega)
  have hpicked := picked_filter (fun e : List DataNode × List Value => u.coversAny e.1)
    (rowNodes.zip groups)
  have hshare : u.share rowNodes = (List.range (rowNodes.zip groups).length).filter fun i =>
      (rowNodes.zip groups)[i]?.any fun e => u.coversAny e.1 := by
    rw [RouteUnit.share, ← hfst]
    simp only [List.getElem?_map, Option.any_map, List.length_map]
    rw [hfst]
  rw [Parameters.groupsOn, ← hpicked, ← hshare, ← picked_map, hsnd]

end Shares

namespace RoutesRows

variable {route : Route} {table : String} {nodes : List DataNode}

/-- A unit of the route covers the node of a row just when it is at its place. -/
theorem covers_iff (h : RoutesRows route table nodes) {u : RouteUnit} (hu : u ∈ route.units)
    {m : DataNode} (hm : m ∈ nodes) : u.coversAny [m] = true ↔ u.place = m.placeOf table := by
  obtain ⟨n, hn, hplace⟩ := (h.places u.place).1 (List.mem_map_of_mem hu)
  obtain ⟨hsource, htables⟩ := Prod.mk.inj hplace
  have hcovers : u.coversAny [m] = true ↔
      sameName n.dataSource m.dataSource = true ∧ sameName n.table m.table = true := by
    simp only [RouteUnit.coversAny, RouteUnit.mappingOnto?, List.isEmpty_cons, List.any_cons,
      List.any_nil, Bool.false_or, Bool.or_false]
    rw [← hsource, ← htables]
    cases sameName n.dataSource m.dataSource <;> cases hs : sameName n.table m.table <;> simp [hs]
  rw [hcovers, ← hplace]
  constructor
  · rintro ⟨hs, ht⟩
    rw [h.apart n hn m hm hs ht]
  · intro heq
    obtain ⟨hs, ht⟩ := Prod.mk.inj heq
    simp only [List.cons.injEq, Mapping.mk.injEq, and_true, true_and] at ht
    rw [hs, ht]
    exact ⟨Text.sameName_refl _, Text.sameName_refl _⟩

theorem mem_share_iff (h : RoutesRows route table nodes) {u : RouteUnit} (hu : u ∈ route.units)
    {i : Nat} : i ∈ u.share route.rowNodes ↔ ∃ m, nodes[i]? = some m ∧ u.place = m.placeOf table := by
  rw [RouteUnit.share, h.rowNodes, List.mem_filter, List.mem_range, List.length_map,
    List.getElem?_map, Option.any_map]
  constructor
  · rintro ⟨hi, hany⟩
    rw [List.getElem?_eq_getElem hi] at hany ⊢
    exact ⟨_, rfl, (h.covers_iff hu (List.getElem_mem hi)).1 hany⟩
  · rintro ⟨m, hm, hplace⟩
    obtain ⟨hi, rfl⟩ := List.getElem?_eq_some_iff.1 hm
    rw [hm]
    exact ⟨hi, (h.covers_iff hu (List.getElem_mem hi)).2 hplace⟩

/-- Every unit has a row. -/
theorem share_ne_nil (h : RoutesRows route table nodes) {u : RouteUnit} (hu : u ∈ route.units) :
    u.share route.rowNodes ≠ [] := by
  obtain ⟨n, hn, hplace⟩ := (h.places u.place).1 (List.mem_map_of_mem hu)
  obtain ⟨i, hi⟩ := List.getElem?_of_mem hn
  exact List.ne_nil_of_mem ((h.mem_share_iff hu).2 ⟨n, hi, hplace.symm⟩)

/-- The units share out all rows, in whatever order the units come. -/
theorem shares_perm (h : RoutesRows route table nodes) {units : List RouteUnit}
    (hunits : units.Perm route.units) :
    (units.map fun u => u.share route.rowNodes).flatten.Perm (List.range route.rowNodes.length) := by
  have honce : units.Pairwise fun u v => u.place ≠ v.place := by
    have hnodup := (hunits.map RouteUnit.place).nodup_iff.2 h.once
    rwa [List.Nodup, List.pairwise_map] at hnodup
  have hnodup : (units.map fun u => u.share route.rowNodes).flatten.Nodup := by
    refine List.nodup_flatten.2 ⟨fun l hl => ?_, List.pairwise_map.2 ?_⟩
    · obtain ⟨u, -, rfl⟩ := List.mem_map.1 hl
      exact List.nodup_range.filter _
    · refine honce.imp_of_mem fun {u v} hu hv hne i hi hi' => hne ?_
      obtain ⟨m, hm, hplace⟩ := (h.mem_share_iff (hunits.subset hu)).1 hi
      obtain ⟨m', hm', hplace'⟩ := (h.mem_share_iff (hunits.subset hv)).1 hi'
      rw [hm] at hm'
      cases hm'
      rw [hplace, hplace']
  refine (List.perm_ext_iff_of_nodup hnodup List.nodup_range).2 fun i => ?_
  rw [List.mem_flatten]
  constructor
  · rintro ⟨l, hl, hi⟩
    obtain ⟨u, -, rfl⟩ := List.mem_map.1 hl
    exact (List.mem_filter.1 hi).1
  · intro hi
    rw [List.mem_range, h.rowNodes, List.length_map] at hi
    obtain ⟨u, hu, hplace⟩ := List.mem_map.1 ((h.places _).2 ⟨_, List.getElem_mem hi, rfl⟩)
    refine ⟨_, List.mem_map_of_mem (hunits.mem_iff.2 hu), (h.mem_share_iff hu).2 ⟨_, ?_, hplace⟩⟩
    exact List.getElem?_eq_getElem hi

end RoutesRows

namespace Draft

variable {d : Draft} {conversion : Conversion} {query : Query} {route : Route} {topology : Topology}

/-- An entry is the statement of a unit on its own, in the dialect of its storage unit. -/
def EntryOf (d : Draft) (conversion : Conversion) (query : Query) (route : Route)
    (topology : Topology) (u : RouteUnit) (entry : RouteUnit × BoundSql) : Prop :=
  entry.1 = u ∧ ∃ plain target, d.textOn u = .ok plain.sql ∧ plain.params = d.boundOn route u ∧
    topology.dialect? u.dataSource = some target ∧
    conversion.convert plain query target = .ok entry.2

/-- Units that are not joined have a statement each. -/
theorem onSource_apart {units : List RouteUnit} {out : List (RouteUnit × BoundSql)}
    (hjoined : isJoined query units = false) (h : d.onSource query route units = .ok out) :
    List.Forall₂ (fun u e => e.1 = u ∧ d.textOn u = .ok e.2.sql ∧ e.2.params = d.boundOn route u)
      units out := by
  unfold onSource at h
  split at h
  · cases h
    exact .nil
  · rw [hjoined, if_neg Bool.false_ne_true] at h
    refine (mapM_eq_ok.1 h).imp fun u e he => ?_
    obtain ⟨text, htext, he⟩ := bind_eq_ok.1 he
    cases he
    exact ⟨rfl, htext, rfl⟩

theorem isJoined_of_not_select (hkind : query.statement.kind ≠ .select) (units : List RouteUnit) :
    isJoined query units = false := by
  rw [isJoined, beq_eq_false_iff_ne.2 hkind]
  rfl

theorem converted_eq_ok {entry entry' : RouteUnit × BoundSql}
    (h : converted conversion query topology entry = .ok entry') :
    entry'.1 = entry.1 ∧ ∃ target, topology.dialect? entry.1.dataSource = some target ∧
      conversion.convert entry.2 query target = .ok entry'.2 := by
  unfold converted at h
  split at h
  · cases h
  · rename_i target htarget
    split at h
    · rename_i sql hsql
      cases h
      exact ⟨rfl, target, htarget, hsql⟩
    · cases h

/-- Every unit of a statement that is no query has an entry of its own. -/
theorem render_alone {entries : List (RouteUnit × BoundSql)}
    (hkind : query.statement.kind ≠ .select)
    (h : d.render conversion query route topology = .ok entries) :
    ∃ units, units.Perm route.units ∧
      List.Forall₂ (d.EntryOf conversion query route topology) units entries := by
  obtain ⟨outs, houts, h⟩ := bind_eq_ok.1 h
  refine ⟨_, groupOn_perm RouteUnit.dataSource route.units, ?_⟩
  have hsources := (mapM_eq_ok.1 houts).imp fun _ _ hout =>
    onSource_apart (isJoined_of_not_select hkind _) hout
  have hflat := List.rel_flatten (List.forall₂_map_left_iff.2 hsources)
  refine (forall₂_comp hflat (mapM_eq_ok.1 h)).imp ?_
  rintro u entry ⟨⟨_, plain⟩, ⟨rfl, htext, hparams⟩, hentry⟩
  obtain ⟨hunit, target, htarget, hconvert⟩ := converted_eq_ok hentry
  exact ⟨hunit, plain, target, htext, hparams, htarget, hconvert⟩

end Draft

/-- An entry carries the rows at some places, in their order: these are the rows that its statement
spells out, and the groups of these rows are bound, before the generic parameters. -/
structure Carries (d : Draft) (conversion : Conversion) (query : Query) (topology : Topology)
    (texts : List String) (groups : List (List Value)) (generic : List Value) (share : List Nat)
    (entry : RouteUnit × BoundSql) : Prop where
  some_row : share ≠ []
  in_order : share.Pairwise (· < ·)
  carried : ∃ plain target,
    buildSql d.sql (SqlToken.spellAll (picked texts share) d.tokens) (some entry.1) =
      .ok plain.sql ∧
    plain.params = (picked groups share).flatten ++ generic ∧
    topology.dialect? entry.1.dataSource = some target ∧
    conversion.convert plain query target = .ok entry.2

/-- The entry of a unit carries the share of the unit. -/
theorem carries_share {d : Draft} {conversion : Conversion} {query : Query} {topology : Topology}
    {route : Route} {table : String} {nodes : List DataNode} {rows : List InsertRow}
    {groups : List (List Value)} {generic : List Value} {u : RouteUnit}
    {entry : RouteUnit × BoundSql} (hrows : RoutesRows route table nodes) (hu : u ∈ route.units)
    (htokens : SqlToken.InsertsAll rows d.tokens) (hnodes : rows.map (·.nodes) = route.rowNodes)
    (hparams : d.parameters = .grouped groups generic)
    (hgroups : groups.length = route.rowNodes.length)
    (h : d.EntryOf conversion query route topology u entry) :
    Carries d conversion query topology (rows.map (·.text)) groups generic
      (u.share route.rowNodes) entry := by
  obtain ⟨rfl, plain, target, htext, hbound, htarget, hconvert⟩ := h
  have hne := hrows.share_ne_nil hu
  refine ⟨hne, share_increasing _ _, plain, target, ?_, ?_, htarget, hconvert⟩
  · rw [← texts_of_share hnodes, SqlToken.buildSql_spellAll _ _ htokens]
    exact htext
  · have hsome : route.rowNodes.isEmpty = false := by
      rw [List.isEmpty_eq_false_iff]
      rintro hnil
      rw [hnil] at hne
      exact hne rfl
    rw [hbound, Draft.boundOn, hparams, Parameters.onUnit, hsome, if_neg Bool.false_ne_true,
      groupsOn_of_share hgroups]

/-- The rows of an insertion that was routed and rendered are shared out among the entries: every row
falls to just one of them, which spells it out and binds its group. -/
theorem insertion_conserves_rows {r : ShardingRouter} {slot : Nat} {rw : Option ReadwriteRule}
    {s s' : RoutingState} {query : Query} {data : InsertData} {topology : Topology} {route : Route}
    {d : Draft} {rows : List InsertRow} {groups : List (List Value)} {generic : List Value}
    {conversion : Conversion} {entries : List (RouteUnit × BoundSql)}
    (hstate : Reached r slot rw s) (hq : query.statement = .ofInsert data) (hne : data.rows ≠ [])
    (hroute : Routing.route (shardingChain r slot rw) query topology s = (.ok route, s'))
    (htokens : SqlToken.InsertsAll rows d.tokens) (hcount : rows.length = data.rows.length)
    (hnodes : rows.map (·.nodes) = route.rowNodes) (hparams : d.parameters = .grouped groups generic)
    (hgroups : groups.length = data.rows.length)
    (h : d.render conversion query route topology = .ok entries) :
    ∃ shares, List.Forall₂
        (Carries d conversion query topology (rows.map (·.text)) groups generic) shares entries ∧
      shares.flatten.Perm (List.range data.rows.length) := by
  have hplain : query.statement.IsPlain := fun _ => ⟨data, hq⟩
  have hkind : query.statement.kind ≠ .select := by
    rw [hq]
    exact fun hk => nomatch hk
  have hlength : route.rowNodes.length = data.rows.length := by
    rw [← hnodes, List.length_map, hcount]
  have hsome : route.rowNodes ≠ [] := by
    intro hnil
    rw [hnil, List.length_nil, eq_comm, List.length_eq_zero_iff] at hlength
    exact hne hlength
  have hkeeps := (route_keepsRows hplain rw s hstate.keepsRows).2 route (by rw [hroute])
  obtain ⟨table, nodes, hrows⟩ := hkeeps.resolve_left hsome
  obtain ⟨units, hunits, hentries⟩ := Draft.render_alone hkind h
  refine ⟨units.map fun u => u.share route.rowNodes, ?_, ?_⟩
  · rw [List.forall₂_map_left_iff]
    have hmem := (List.forall₂_and_left _ _).2 ⟨fun u hu => hunits.subset hu, hentries⟩
    refine hmem.imp fun u entry ⟨hu, hentry⟩ => ?_
    exact carries_share hrows hu htokens hnodes hparams (hgroups.trans hlength.symm) hentry
  · rw [← hlength]
    exact hrows.shares_perm hunits

/-- Three orders, the first and the last of which go to one unit. -/
def insertedData : InsertData := ⟨"t_order", ["user_id", "order_id"],
  [[.parameter 0, .parameter 1], [.parameter 2, .parameter 3], [.parameter 4, .parameter 5]]⟩

def insertedOrders : Query where
  sql := "INSERT INTO t_order (user_id, order_id) VALUES (?, ?), (?, ?), (?, ?)"
  statement := .ofInsert insertedData
  params := [.int 1, .int 2, .int 2, .int 3, .int 3, .int 4]
  hint := .none

def insertedRows : List InsertRow :=
  [⟨"(?, ?)", [⟨"ds_1", "t_order_0"⟩]⟩, ⟨"(?, ?)", [⟨"ds_0", "t_order_1"⟩]⟩,
    ⟨"(?, ?)", [⟨"ds_1", "t_order_0"⟩]⟩]

def insertedGroups : List (List Value) := [[.int 1, .int 2], [.int 2, .int 3], [.int 3, .int 4]]

def insertedDraft : Draft where
  sql := insertedOrders.sql
  tokens := [.table 12 18 "t_order", .insertRows ⟨47, 68⟩ insertedRows]
  parameters := .grouped insertedGroups [.str "now"]

/-- One of the data sources stands for a write unit. -/
def writeUnits : ReadwriteRule := .ofGroups [⟨"ds_0", "w_0", ["r_0"], .first⟩]

def storage : Topology := (Topology.insert ⟨"shop", ∅⟩ "ds_1" .mySql).insert "w_0" .mySql

theorem insertion_conserves_rows_orders :
    let route : Route := ⟨[⟨⟨"ds_1", "ds_1"⟩, [⟨"t_order", "t_order_0"⟩]⟩,
      ⟨⟨"ds_0", "w_0"⟩, [⟨"t_order", "t_order_1"⟩]⟩], insertedRows.map (·.nodes), []⟩
    let entries : List (RouteUnit × BoundSql) :=
      [(⟨⟨"ds_1", "ds_1"⟩, [⟨"t_order", "t_order_0"⟩]⟩,
        ⟨"INSERT INTO t_order_0 (user_id, order_id) VALUES (?, ?), (?, ?)",
          [.int 1, .int 2, .int 3, .int 4, .str "now"]⟩),
      (⟨⟨"ds_0", "w_0"⟩, [⟨"t_order", "t_order_1"⟩]⟩,
        ⟨"INSERT INTO t_order_1 (user_id, order_id) VALUES (?, ?)", [.int 2, .int 3, .str "now"]⟩)]
    insertedDraft.render (.nativeOnly .mySql) insertedOrders route storage = .ok entries ∧
      ∃ shares, List.Forall₂ (Carries insertedDraft (.nativeOnly .mySql) insertedOrders storage
          (insertedRows.map (·.text)) insertedGroups [.str "now"]) shares entries ∧
        shares.flatten.Perm (List.range 3) := by
  intro route entries
  have hstate : Reached ⟨orders, []⟩ 0 (some writeUnits) ⟨∅, [none], ∅⟩ := .initial rfl
  have hroute : Routing.route (shardingChain ⟨orders, []⟩ 0 (some writeUnits)) insertedOrders
      storage ⟨∅, [none], ∅⟩ = (.ok route, ⟨∅, [none], ∅⟩) := rfl
  have hq : insertedOrders.statement = .ofInsert insertedData := rfl
  have htokens : SqlToken.InsertsAll insertedRows insertedDraft.tokens :=
    ⟨trivial, rfl, trivial⟩
  have hrender : insertedDraft.render (.nativeOnly .mySql) insertedOrders route storage =
      .ok entries := rfl
  exact ⟨hrender, insertion_conserves_rows hstate hq (List.cons_ne_nil _ _) hroute htokens rfl rfl
    rfl rfl hrender⟩

end ShardedSql
