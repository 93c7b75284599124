import ShardedSql.Proofs.RowShares

/-! The units of a route fall to the entries of the result. The units of one data source are together in
one entry, a query with a branch for each, or each of them is an entry of its own; either way no unit is
left out or sent twice, and what it contributes is what it would be sent alone. -/

namespace ShardedSql

theorem picked_singleton {α : Type} {l : List α} {i : Nat} {a : α} (h : l[i]? = some a) :
    picked l [i] = [a] := by
  simp [picked, h]

theorem forall₂_picked {α β : Type} {R : α → β → Prop} {l : List α} {share : List Nat} {r : List β}
    (hshare : ∀ i ∈ share, i < l.length) (h : List.Forall₂ R (picked l share) r) :
    List.Forall₂ (fun i b => ∃ a, l[i]? = some a ∧ R a b) share r := by
  induction share generalizing r with
  | nil =>
    cases h
    exact .nil
  | cons i share ih =>
    obtain ⟨hi, hshare⟩ := List.forall_mem_cons.1 hshare
    have ha := List.getElem?_eq_getElem hi
    rw [picked, List.filterMap_cons_some ha] at h
    cases h with
    | cons hab h => exact .cons ⟨_, ha, hab⟩ (ih hshare h)

namespace Route

/-- The places of the units on a data source, in route order. -/
def placesOn (r : Route) (source : String) : List Nat :=
  (List.range r.units.length).filter fun i => r.units[i]?.any (·.dataSource == source)

variable {r : Route} {source : String} {i : Nat}

theorem mem_placesOn : i ∈ r.placesOn source ↔ ∃ u, r.units[i]? = some u ∧ u.dataSource = source := by
  rw [placesOn, List.mem_filter, List.mem_range, Option.any_eq_true]
  simp only [beq_iff_eq]
  refine ⟨And.right, fun h => ⟨?_, h⟩⟩
  obtain ⟨u, hu, -⟩ := h
  exact (List.getElem?_eq_some_iff.1 hu).1

theorem placesOn_increasing (r : Route) (source : String) : (r.placesOn source).Pairwise (· < ·) :=
  List.pairwise_lt_range.filter _

/-- The units at the places of a data source are those on it. -/
theorem picked_placesOn (r : Route) (source : String) :
    picked r.units (r.placesOn source) = r.units.filter (·.dataSource == source) :=
  picked_filter (fun u : RouteUnit => u.dataSource == source) r.units

theorem length_picked_placesOn (r : Route) (source : String) :
    (picked r.units (r.placesOn source)).length = (r.placesOn source).length := by
  rw [picked, List.filterMap_length_eq_length]
  intro i hi
  obtain ⟨u, hu, -⟩ := mem_placesOn.1 hi
  rw [hu]
  rfl

theorem dataSource_of_mem_picked {u : RouteUnit} (h : u ∈ picked r.units (r.placesOn source)) :
    u.dataSource = source := by
  rw [picked_placesOn] at h
  exact eq_of_beq (List.mem_filter.1 h).2

/-- Every unit is at a place of just one of the data sources. -/
theorem placesOn_perm (r : Route) :
    (r.dataSources.flatMap r.placesOn).Perm (List.range r.units.length) := by
  let sourceAt (i : Nat) : Option String := r.units[i]?.map (·.dataSource)
  have hnodup : (r.dataSources.map some).Nodup := (nodup_distinct _).map (Option.some_injective _)
  have hmem : ∀ i ∈ List.range r.units.length, sourceAt i ∈ r.dataSources.map some := by
    intro i hi
    have hunit := List.getElem_mem (List.mem_range.1 hi)
    simp only [sourceAt, List.getElem?_eq_getElem (List.mem_range.1 hi), Option.map_some]
    exact List.mem_map_of_mem (mem_distinct.2 (List.mem_map_of_mem hunit))
  have hperm := flatMap_filter_perm hnodup hmem
  rw [List.flatMap_map] at hperm
  refine (List.Perm.of_eq ?_).trans hperm
  refine List.flatMap_congr fun source _ => List.filter_congr fun i _ => ?_
  cases hunit : r.units[i]? <;> simp [sourceAt, hunit]

end Route

theorem Features.isPlain_iff {f : Features} : f.isPlain = true ↔ f = .none := by
  obtain ⟨subquery, join, orderBy, pagination, lock⟩ := f
  simp [isPlain, none, and_assoc]

/-- The branch is the text without one semicolon at its end. -/
def DropsSemicolon (text branch : String) : Prop :=
  text = branch ++ ";" ∨ branch = text ∧ ∀ front, text ≠ front ++ ";"

theorem dropsSemicolon_trimSemicolon (text : String) : DropsSemicolon text (trimSemicolon text) := by
  unfold trimSemicolon
  split
  · rename_i cs hcs
    left
    rw [← String.toList_inj, String.toList_append, String.toList_ofList,
      ← List.reverse_reverse text.toList, hcs, List.reverse_cons]
    rfl
  · rename_i hnone
    refine .inr ⟨rfl, fun front h => hnone front.toList.reverse ?_⟩
    rw [h, String.toList_append, List.reverse_append]
    rfl

/-- The list is the first one that is not empty, or empty if there is none. -/
def IsFirstNonEmpty (lists : List (List Value)) (l : List Value) : Prop :=
  (∀ x ∈ lists, x = []) ∧ l = [] ∨
    ∃ before after, lists = before ++ l :: after ∧ (∀ x ∈ before, x = []) ∧ l ≠ []

/-- The statement has a branch for each of these. Numbered markers are the same in all branches, and
bound once. -/
structure Joins (query : Query) (own : List BoundSql) (sql : BoundSql) : Prop where
  text : ∃ branches, List.Forall₂ (fun b branch => DropsSemicolon b.sql branch) own branches ∧
    sql.sql = " UNION ALL ".intercalate branches
  numbered : query.statement.dollarMarkers = true → IsFirstNonEmpty (own.map (·.params)) sql.params
  listed : query.statement.dollarMarkers = false → sql.params = (own.map (·.params)).flatten

/-- The entry is for the units at these places, for each of which `sent` says what it is sent alone. Units
share an entry only in a query without anything that goes over all rows, and then all of their data source
do. -/
structure Combines (query : Query) (route : Route) (sent : RouteUnit → BoundSql → Prop)
    (share : List Nat) (entry : RouteUnit × BoundSql) : Prop where
  first : (picked route.units share).head? = some entry.1
  in_order : share.Pairwise (· < ·)
  one_source : ∀ u ∈ picked route.units share, u.dataSource = entry.1.dataSource
  plain : 1 < share.length → query.statement.kind = .select ∧ query.statement.features = .none
  whole : query.statement.kind = .select → query.statement.features = .none →
    share = route.placesOn entry.1.dataSource
  members : ∃ own, List.Forall₂ sent (picked route.units share) own ∧
    (share.length = 1 → own = [entry.2]) ∧ (1 < share.length → Joins query own entry.2)

theorem Combines.imp {query : Query} {route : Route} {sent sent' : RouteUnit → BoundSql → Prop}
    {share : List Nat} {entry : RouteUnit × BoundSql} (h : Combines query route sent share entry)
    (hsent : ∀ u b, u.dataSource = entry.1.dataSource → sent u b → sent' u b) :
    Combines query route sent' share entry := by
  obtain ⟨own, hown, hcombined⟩ := h.members
  have hmembers := (List.forall₂_and_left _ _).2 ⟨h.one_source, hown⟩
  have hown' := hmembers.imp fun u b hb => hsent u b hb.1 hb.2
  exact { h with members := ⟨own, hown', hcombined⟩ }

/-- Converters that change nothing leave every statement as it is. -/
theorem Conversion.convert_same {conversion : Conversion}
    (hsame : ∀ c ∈ conversion.converters, ∀ unit query target, c.2 unit query target = .ok unit)
    (unit : BoundSql) (query : Query) (target : Dialect) :
    conversion.convert unit query target = .ok unit := by
  unfold convert
  split
  · rfl
  · cases hfind : conversion.converters.lookup target with
    | none => rfl
    | some f =>
      obtain ⟨before, after, hmem, -⟩ := List.lookup_eq_some_iff.1 hfind
      exact hsame (target, f) (by rw [hmem]; simp) unit query target

namespace Draft

variable {d : Draft} {conversion : Conversion} {query : Query} {route : Route} {topology : Topology}

theorem isFirstNonEmpty (lists : List (List Value)) : IsFirstNonEmpty lists (firstNonEmpty lists) := by
  unfold firstNonEmpty
  cases hfind : lists.find? (!·.isEmpty) with
  | none =>
    refine .inl ⟨fun x hx => ?_, rfl⟩
    simpa using List.find?_eq_none.1 hfind x hx
  | some l =>
    obtain ⟨hl, before, after, rfl, hbefore⟩ := List.find?_eq_some_iff_append.1 hfind
    exact .inr ⟨before, after, rfl, by simpa using hbefore, by simpa using hl⟩

/-- What a unit is sent in the dialect in which the statement is written. -/
def Own (d : Draft) (route : Route) (u : RouteUnit) (own : BoundSql) : Prop :=
  d.textOn u = .ok own.sql ∧ own.params = d.boundOn route u

/-- What a unit is sent when it has the route to itself: its rebuilt text, and its parameters. -/
def Alone (d : Draft) (conversion : Conversion) (query : Query) (route : Route) (topology : Topology)
    (u : RouteUnit) (own : BoundSql) : Prop :=
  buildSql d.sql d.tokens (some u) = .ok own.sql ∧ own.params = d.parameters.onUnit route u ∧
    d.render conversion query { route with units := [u] } topology = .ok [(u, own)]

theorem isJoined_iff {units : List RouteUnit} : isJoined query units = true ↔
    query.statement.kind = .select ∧ 1 < units.length ∧ query.statement.features = .none := by
  rw [isJoined, Bool.and_eq_true, Bool.and_eq_true, beq_iff_eq, decide_eq_true_eq,
    Features.isPlain_iff, and_assoc]

/-- Rebuilt texts and parameters make up what each of the units is sent. -/
theorem exists_own {units : List RouteUnit} {texts : List String}
    (h : List.Forall₂ (fun u text => d.textOn u = .ok text) units texts) :
    ∃ own, List.Forall₂ (d.Own route) units own ∧ own.map (·.sql) = texts ∧
      own.map (·.params) = units.map (d.boundOn route) := by
  induction h with
  | nil => exact ⟨[], .nil, rfl, rfl⟩
  | @cons u text units texts htext _ ih =>
    obtain ⟨own, hown, rfl, hparams⟩ := ih
    exact ⟨⟨text, d.boundOn route u⟩ :: own, .cons ⟨htext, rfl⟩ hown, rfl,
      congrArg (d.boundOn route u :: ·) hparams⟩

/-- A joined statement has a branch for each of the units. -/
theorem joined_joins {units : List RouteUnit} {sql : BoundSql}
    (h : d.joined query route units = .ok sql) :
    ∃ own, List.Forall₂ (d.Own route) units own ∧ Joins query own sql := by
  obtain ⟨texts, htexts, h⟩ := bind_eq_ok.1 h
  cases h
  obtain ⟨own, hown, rfl, hparams⟩ := exists_own (mapM_eq_ok.1 htexts)
  refine ⟨own, hown, ⟨(own.map (·.sql)).map trimSemicolon, ?_, rfl⟩, fun hd => ?_, fun hd => ?_⟩
  · rw [List.forall₂_map_right_iff, List.forall₂_map_right_iff, List.forall₂_same]
    exact fun b _ => dropsSemicolon_trimSemicolon b.sql
  · dsimp only
    rw [hparams, if_pos hd]
    exact isFirstNonEmpty _
  · dsimp only
    rw [hparams, hd, if_neg Bool.false_ne_true]

/-- Joined units have one entry, under the first of them. -/
theorem onSource_joined {units : List RouteUnit} {out : List (RouteUnit × BoundSql)}
    (hjoined : isJoined query units = true) (h : d.onSource query route units = .ok out) :
    ∃ first sql, units.head? = some first ∧ d.joined query route units = .ok sql ∧
      out = [(first, sql)] := by
  unfold onSource at h
  split at h
  · rw [isJoined_iff] at hjoined
    exact absurd hjoined.2.1 (Nat.not_lt_zero 1)
  · rename_i first rest
    rw [hjoined, if_pos rfl] at h
    obtain ⟨sql, hsql, h⟩ := bind_eq_ok.1 h
    cases h
    exact ⟨first, sql, rfl, hsql, rfl⟩

/-- How the places of a data source fall to entries. -/
def sharesOn (query : Query) (route : Route) (source : String) : List (List Nat) :=
  if isJoined query (picked route.units (route.placesOn source)) then [route.placesOn source]
  else (route.placesOn source).map ([·])

theorem sharesOn_flatten (query : Query) (route : Route) (source : String) :
    (sharesOn query route source).flatten = route.placesOn source := by
  unfold sharesOn
  split
  · exact List.append_nil _
  · rw [← List.flatMap_def, List.flatMap_singleton']

/-- A unit that is not joined has an entry of its own. -/
theorem combines_alone {i : Nat} {entry : RouteUnit × BoundSql}
    (hjoined : isJoined query (picked route.units (route.placesOn entry.1.dataSource)) = false)
    (hi : route.units[i]? = some entry.1) (h : d.Own route entry.1 entry.2) :
    Combines query route (d.Own route) [i] entry := by
  have hpicked := picked_singleton hi
  refine ⟨by rw [hpicked]; rfl, List.pairwise_singleton _ _, ?_, fun hlt => absurd hlt (lt_irrefl 1),
    fun hselect hplain => ?_, [entry.2], ?_, fun _ => rfl, fun hlt => absurd hlt (lt_irrefl 1)⟩
  · rw [hpicked]
    exact List.forall_mem_singleton.2 rfl
  · -- a plain query would be joined if there were another unit on the data source
    have hmem : i ∈ route.placesOn entry.1.dataSource := Route.mem_placesOn.2 ⟨_, hi, rfl⟩
    have hone : (route.placesOn entry.1.dataSource).length ≤ 1 := by
      rw [← Route.length_picked_placesOn, ← not_lt]
      intro hlt
      rw [isJoined_iff.2 ⟨hselect, hlt, hplain⟩] at hjoined
      cases hjoined
    obtain ⟨j, hj⟩ := List.length_eq_one_iff.1 (le_antisymm hone (List.length_pos_of_mem hmem))
    rw [hj] at hmem ⊢
    rw [List.mem_singleton.1 hmem]
  · rw [hpicked]
    exact .cons h .nil

/-- Joined units have one entry together. -/
theorem combines_joined {source : String} {first : RouteUnit} {sql : BoundSql}
    (hjoined : isJoined query (picked route.units (route.placesOn source)) = true)
    (hfirst : (picked route.units (route.placesOn source)).head? = some first)
    (h : d.joined query route (picked route.units (route.placesOn source)) = .ok sql) :
    Combines query route (d.Own route) (route.placesOn source) (first, sql) := by
  obtain ⟨hselect, hseveral, hplain⟩ := isJoined_iff.1 hjoined
  rw [Route.length_picked_placesOn] at hseveral
  have hsource := Route.dataSource_of_mem_picked (List.mem_of_mem_head? hfirst)
  obtain ⟨own, hown, hjoins⟩ := joined_joins h
  refine ⟨hfirst, route.placesOn_increasing source, fun u hu => ?_, fun _ => ⟨hselect, hplain⟩,
    fun _ _ => by rw [hsource], own, hown, fun hone => ?_, fun _ => hjoins⟩
  · exact (Route.dataSource_of_mem_picked hu).trans hsource.symm
  · exact absurd hone hseveral.ne'

/-- The entries of one data source. -/
theorem onSource_combines {source : String} {out : List (RouteUnit × BoundSql)}
    (h : d.onSource query route (picked route.units (route.placesOn source)) = .ok out) :
    List.Forall₂ (Combines query route (d.Own route)) (sharesOn query route source) out := by
  unfold sharesOn
  cases hjoined : isJoined query (picked route.units (route.placesOn source)) with
  | true =>
    obtain ⟨first, sql, hfirst, hsql, rfl⟩ := onSource_joined hjoined h
    exact .cons (combines_joined hjoined hfirst hsql) .nil
  | false =>
    rw [if_neg Bool.false_ne_true, List.forall₂_map_left_iff]
    have hplaces : ∀ i ∈ route.placesOn source, i < route.units.length := fun i hi =>
      List.mem_range.1 (List.mem_filter.1 hi).1
    have hentries := (List.forall₂_and_left _ _).2
      ⟨fun _ hi => hi, forall₂_picked hplaces (onSource_apart hjoined h)⟩
    refine hentries.imp ?_
    rintro i entry ⟨hi, u, hu, rfl, htext, hparams⟩
    obtain ⟨u', hu', rfl⟩ := Route.mem_placesOn.1 hi
    rw [hu] at hu'
    cases hu'
    exact combines_alone hjoined hu ⟨htext, hparams⟩

/-- Converters that change nothing leave every entry as it is. -/
theorem converted_same
    (hsame : ∀ c ∈ conversion.converters, ∀ unit query target, c.2 unit query target = .ok unit)
    {entry entry' : RouteUnit × BoundSql}
    (h : converted conversion query topology entry = .ok entry') :
    entry' = entry ∧ ∃ target, topology.dialect? entry.1.dataSource = some target := by
  obtain ⟨hunit, target, htarget, hconvert⟩ := converted_eq_ok h
  rw [conversion.convert_same hsame] at hconvert
  exact ⟨Prod.ext hunit (Except.ok.inj hconvert).symm, target, htarget⟩

/-- On a known storage unit every unit can be sent what it is sent alone. -/
theorem alone_of_own
    (hsame : ∀ c ∈ conversion.converters, ∀ unit query target, c.2 unit query target = .ok unit)
    {u : RouteUnit} {own : BoundSql} {target : Dialect}
    (htarget : topology.dialect? u.dataSource = some target) (h : d.Own route u own) :
    d.Alone conversion query route topology u own := by
  obtain ⟨htext, hparams⟩ := h
  refine ⟨htext, hparams, ?_⟩
  have hgroups : groupOn RouteUnit.dataSource [u] = [(u.dataSource, [u])] := by
    simp [groupOn, distinct, distinctBy, distinctFrom]
  have hjoined : isJoined query [u] = false := by
    simp [isJoined]
  have hconverted : converted conversion query topology (u, own) = .ok (u, own) := by
    unfold converted
    rw [htarget]
    dsimp only
    rw [conversion.convert_same hsame]
  have hsource : d.onSource query { route with units := [u] } [u] = .ok [(u, own)] := by
    unfold onSource
    dsimp only
    rw [hjoined, if_neg Bool.false_ne_true, mapM_eq_ok, forall₂_singleton_left]
    refine ⟨_, bind_eq_ok.2 ⟨own.sql, htext, rfl⟩, ?_⟩
    exact congrArg (fun params => [(u, BoundSql.mk own.sql params)]) hparams
  refine bind_eq_ok.2 ⟨[[(u, own)]], ?_, ?_⟩
  · dsimp only
    rw [hgroups, mapM_eq_ok]
    exact .cons hsource .nil
  · rw [mapM_eq_ok]
    exact .cons hconverted .nil

end Draft

open Draft

/-- Of a statement that is rendered for a route, without changes by its converters, every unit belongs to
just one of the entries. The data sources come in the order in which the units first name them, and the
units of each in the order of the route. -/
theorem entries_cover_units {d : Draft} {conversion : Conversion} {query : Query} {route : Route}
    {topology : Topology} {entries : List (RouteUnit × BoundSql)}
    (hsame : ∀ c ∈ conversion.converters, ∀ unit query target, c.2 unit query target = .ok unit)
    (h : d.render conversion query route topology = .ok entries) :
    ∃ shares : List (List Nat),
      List.Forall₂ (Combines query route (d.Alone conversion query route topology)) shares entries ∧
      shares.flatten = route.dataSources.flatMap route.placesOn ∧
      shares.flatten.Perm (List.range route.units.length) := by
  obtain ⟨outs, houts, h⟩ := bind_eq_ok.1 h
  have hflatten : (route.dataSources.flatMap (sharesOn query route)).flatten =
      route.dataSources.flatMap route.placesOn := by
    rw [List.flatMap_def, List.flatten_flatten, List.map_map, List.flatMap_def]
    exact congrArg List.flatten (List.map_congr_left fun source _ => sharesOn_flatten query route source)
  refine ⟨route.dataSources.flatMap (sharesOn query route), ?_, hflatten, ?_⟩
  · have hsources : List.Forall₂
        (fun source out => List.Forall₂ (Combines query route (d.Own route)) (sharesOn query route source) out)
        route.dataSources outs := by
      have hall := mapM_eq_ok.1 houts
      rw [groupOn, List.forall₂_map_left_iff] at hall
      exact hall.imp fun source out hout => onSource_combines (by rwa [Route.picked_placesOn])
    have hflat := List.rel_flatten (List.forall₂_map_left_iff.2 hsources)
    rw [List.flatMap_def]
    refine (forall₂_comp hflat (mapM_eq_ok.1 h)).imp ?_
    rintro share entry ⟨plain, hplain, hentry⟩
    obtain ⟨rfl, target, htarget⟩ := converted_same hsame hentry
    exact hplain.imp fun u own hu hown => alone_of_own hsame (hu ▸ htarget) hown
  · rw [hflatten]
    exact route.placesOn_perm

def readOwnOrders : Query where
  sql := "SELECT * FROM t_order WHERE user_id = $1;"
  statement := { Statement.of .select ["t_order"] with
    groups := [[⟨"t_order", "user_id", .equal (.parameter 0)⟩]], dollarMarkers := true }
  params := [.int 7]
  hint := .none

def ownOrdersDraft : Draft where
  sql := readOwnOrders.sql
  tokens := [.table 14 20 "t_order"]
  parameters := .standard [.int 7]

def orderUnit (source table : String) : RouteUnit := ⟨⟨source, source⟩, [⟨"t_order", table⟩]⟩

/-- Two of three units are on one data source, and have one of another data source between them. -/
def interleavedOrders : Route :=
  ⟨[orderUnit "ds_0" "t_order_0", orderUnit "ds_1" "t_order_1", orderUnit "ds_0" "t_order_2"], [], []⟩

def mixedStorage : Topology := (Topology.insert ⟨"shop", ∅⟩ "ds_0" .mySql).insert "ds_1" .postgreSql

def ownOrdersEntries : List (RouteUnit × BoundSql) :=
  [(orderUnit "ds_0" "t_order_0", ⟨"SELECT * FROM t_order_0 WHERE user_id = $1" ++ " UNION ALL " ++
      "SELECT * FROM t_order_2 WHERE user_id = $1", [.int 7]⟩),
    (orderUnit "ds_1" "t_order_1", ⟨"SELECT * FROM t_order_1 WHERE user_id = $1;", [.int 7]⟩)]

theorem entries_cover_units_interleaved :
    let conversion := (Conversion.nativeOnly .mySql).withConverter .postgreSql .native
    ownOrdersDraft.render conversion readOwnOrders interleavedOrders mixedStorage = .ok ownOrdersEntries ∧
      ∃ shares : List (List Nat),
        List.Forall₂ (Combines readOwnOrders interleavedOrders
          (ownOrdersDraft.Alone conversion readOwnOrders interleavedOrders mixedStorage)) shares
          ownOrdersEntries ∧
        shares.flatten = [0, 2, 1] := by
  intro conversion
  have hsame : ∀ c ∈ conversion.converters, ∀ unit query target, c.2 unit query target = .ok unit :=
    List.forall_mem_singleton.2 fun _ _ _ => rfl
  have hrender : ownOrdersDraft.render conversion readOwnOrders interleavedOrders mixedStorage =
      .ok ownOrdersEntries := rfl
  obtain ⟨shares, hentries, hflatten, -⟩ := entries_cover_units hsame hrender
  exact ⟨hrender, shares, hentries, hflatten.trans (by decide)⟩

end ShardedSql
