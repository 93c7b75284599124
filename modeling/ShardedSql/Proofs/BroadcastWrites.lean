import ShardedSql.Proofs.Engine

/-! Writes to tables that are the same on every storage unit. They go to the data sources of the other
tables, so that a storage unit without data nodes is left out, and to all storage units only where nothing
is sharded. -/

namespace ShardedSql

open ReadwriteRule (isWrite)

/-- No predicate and no row of the statement is on a sharding table, and neither are its tables. -/
structure Statement.IsUnsharded (s : Statement) (rule : ShardingRule) : Prop where
  tables : ∀ table ∈ s.tables, rule.isSharding table = false
  groups : ∀ group ∈ s.groups, ∀ p ∈ group, rule.isSharding p.table = false
  rows : ∀ data ∈ s.insert, rule.isSharding data.table = false

/-- The statement is no update or delete of a limited number of rows. -/
def Statement.IsUnlimited (s : Statement) : Prop :=
  (Validator.updatesOrDeletes s.kind && s.features.pagination) = false

namespace ShardingRule

variable {rule : ShardingRule}

theorem table?_eq_none {table : String} (h : rule.isSharding table = false) :
    rule.table? table = none :=
  Option.isNone_iff_eq_none.1 (Option.isSome_eq_false_iff.1 h)

theorem shardingTables_eq_nil {tables : List String}
    (h : ∀ table ∈ tables, rule.isSharding table = false) : rule.shardingTables tables = [] := by
  have hnone : tables.filter rule.isSharding = [] :=
    List.filter_eq_nil_iff.2 fun table htable => by simp [h table htable]
  rw [shardingTables, hnone]
  rfl

/-- The broadcast tables are on storage units if the other tables are. -/
theorem broadcastSources_subset_iff (hdeclared : rule.declaredSources = []) {topology : Topology} :
    rule.broadcastSources topology ⊆ topology.names ↔
      ∀ source, rule.Uses source → source ∈ topology.names := by
  constructor
  · exact fun hall source hused => hall ((mem_broadcastSources hdeclared).2 (.inl hused))
  · intro hused name hname
    rcases (mem_broadcastSources hdeclared).1 hname with hname | ⟨-, hname⟩
    · exact hused name hname
    · exact hname

/-- They are on every one of them if nothing is sharded, or the other tables are on every one. -/
theorem broadcastSources_perm_iff (hdeclared : rule.declaredSources = []) {topology : Topology}
    (hall : rule.broadcastSources topology ⊆ topology.names) :
    (rule.broadcastSources topology).Perm topology.names ↔
      rule.tables.entries = [] ∨ ∀ unit ∈ topology.names, rule.Uses unit := by
  rw [List.perm_ext_iff_of_nodup (broadcastSources_nodup hdeclared topology) topology.names_nodup]
  constructor
  · intro hsame
    by_cases hnil : rule.tables.entries = []
    · exact .inl hnil
    · refine .inr fun unit hunit => ?_
      have hplace := (mem_broadcastSources hdeclared).1 ((hsame unit).2 hunit)
      exact hplace.resolve_right fun hfallback => hnil hfallback.1
  · rintro (hnil | hused) name
    · exact ⟨(hall ·), fun hname => (mem_broadcastSources hdeclared).2 (.inr ⟨hnil, hname⟩)⟩
    · exact ⟨(hall ·), fun hname => (mem_broadcastSources hdeclared).2 (.inl (hused name hname))⟩

end ShardingRule

namespace Extraction

variable {rule : ShardingRule} {params : List Value}

theorem groupFrom_unsharded (entries : List ColumnConstraint) {ps : List Predicate}
    (h : ∀ p ∈ ps, rule.isSharding p.table = false) :
    groupFrom rule params entries ps = .ok (ofEntries entries) := by
  induction ps with
  | nil => rfl
  | cons p ps ih =>
    obtain ⟨hp, hps⟩ := List.forall_mem_cons.1 h
    have hcolumn : rule.isShardingColumn p.table p.column = false := by
      rw [ShardingRule.isShardingColumn, ShardingRule.table?_eq_none hp]
      rfl
    rw [groupFrom, hcolumn, if_neg Bool.false_ne_true]
    exact ih hps

/-- Nothing in an unsharded statement can keep it from being read. -/
theorem extract_unsharded {query : Query} (h : query.statement.IsUnsharded rule) (keys : KeyCounters) :
    ∃ e, (extract rule query keys).1 = .ok e := by
  cases hneeds : query.statement.needsConditions with
  | false =>
    rw [extract, hneeds]
    exact ⟨_, rfl⟩
  | true =>
    by_cases hrows : query.statement.kind = .insert → query.statement.insert = none
    · rw [extract_where keys hneeds hrows]
      rcases hgroups : query.statement.groups with _ | ⟨group, groups⟩
      · exact ⟨_, rfl⟩
      · have hgroup : ∀ p ∈ group, rule.isSharding p.table = false :=
          h.groups group (hgroups ▸ List.mem_cons_self)
        rw [groupsFrom, groupFrom_unsharded [] hgroup]
        exact ⟨_, rfl⟩
    · push Not at hrows
      obtain ⟨hkind, hinsert⟩ := hrows
      obtain ⟨data, hdata⟩ := Option.ne_none_iff_exists'.1 hinsert
      rw [extract, hneeds, hkind, hdata]
      change ∃ e, (insertion rule query.params data keys).1 = .ok e
      rw [insertion, ShardingRule.table?_eq_none (h.rows data hdata)]
      exact ⟨_, rfl⟩

end Extraction

namespace Routing

/-- A route over data sources of their own is accepted just where all of them are storage units, and
keeps a unit on each. -/
theorem finish_of_sources {topology : Topology} {route : Route} {names : List String}
    (hsources : route.units.map (·.source) = names.map fun name => ⟨name, name⟩) (hnames : names.Nodup)
    (hnil : names = [] → topology.names = []) :
    ((∃ route', finish topology route = .ok route') ↔ names ⊆ topology.names) ∧
      ∀ route', finish topology route = .ok route' → route'.units.map RouteUnit.dataSource = names := by
  have hactual : route.units.map RouteUnit.dataSource = names := by
    have hmap := congrArg (List.map Mapping.actual) hsources
    rw [List.map_map, List.map_map] at hmap
    exact hmap.trans (List.map_id' names)
  have hsame : fallback topology route = route := by
    by_cases hunits : route.units = []
    · have hempty : topology.names = [] := by
        rw [hunits] at hactual
        exact hnil hactual.symm
      rw [fallback, Topology.single?, hempty]
    · exact fallback_eq_self hunits
  have hdedup : route.dedup = route := by
    rw [Route.dedup, distinct_eq_self]
    exact List.Nodup.of_map RouteUnit.dataSource (hactual.symm ▸ hnames)
  simp only [finish_eq_ok, hsame, hdedup]
  refine ⟨?_, ?_⟩
  · rw [← hactual]
    simp only [exists_and_left, exists_eq', and_true, List.subset_def, List.forall_mem_map]
    exact forall₂_congr fun u _ => Topology.contains_iff
  · rintro _ ⟨-, rfl⟩
    exact hactual

end Routing

namespace Deployment

variable {c : Configuration} {d : Deployment} {query : Query} {keys : KeyCounters}
  {reads : ReadCounters}

/-- The sharding router has nothing against an unsharded statement on broadcast tables. -/
theorem router_answers (hb : c.Built d) (hbroadcast : c.Broadcasts query.statement.tables)
    (hunsharded : query.statement.IsUnsharded d.rule) (hunlimited : query.statement.IsUnlimited)
    (keys : KeyCounters) : ∃ route, d.router.answer query d.topology keys = .ok route := by
  obtain ⟨e, he⟩ := Extraction.extract_unsharded hunsharded keys
  have htables : d.rule.shardingTables query.statement.tables = [] :=
    ShardingRule.shardingTables_eq_nil hunsharded.tables
  refine ⟨_, ShardingRouter.answer_eq_ok.2 ⟨e, Placement.broadcast d.rule query d.topology, he, ?_,
    if_pos (hb.allBroadcast_iff.2 hbroadcast), fun v hv => ?_, rfl⟩⟩
  · have hbefore : d.router.validators.forM (fun v => v.before query e.conditions) = .ok () := by
      refine forM_eq_ok.2 fun v hv => ?_
      rw [List.mem_singleton.1 hv]
      change Validator.oneBindingGroup d.rule query.statement = .ok ()
      simp [Validator.oneBindingGroup, htables]
    rw [router_rule, htables]
    unfold ShardingRouter.screen
    split
    · refine bind_eq_ok.2 ⟨(), forM_eq_ok.2 fun a _ => ?_, hbefore⟩
      simp [Auditor.check]
    · exact hbefore
  · rw [List.mem_singleton.1 hv]
    change Validator.limitOnOneUnit query.statement _ = .ok ()
    rw [Validator.limitOnOneUnit, hunlimited]
    rfl

/-- Where broadcast tables are written without read/write splitting. -/
theorem written_sources (hb : c.Built d) (hgroups : c.readwriteGroups = [])
    (hbroadcast : c.Broadcasts query.statement.tables) (hwrite : isWrite query = true)
    {sharded : Route} (h : d.router.answer query d.topology keys = .ok sharded)
    (reads : ReadCounters) :
    (d.decorated query reads sharded).units.map (·.source) =
      (d.rule.broadcastSources d.topology).map fun name => ⟨name, name⟩ := by
  have hplain : d.readwrite = none := by
    rw [hb.readwrite, hgroups]
    rfl
  rw [decorated, hplain, units_of_broadcast hb hbroadcast h]
  exact Placement.broadcast_write hb.declared hwrite

end Deployment

/-- A statement on broadcast tables that is no plain read, in a deployment without read/write splitting, has
one unit on each storage unit just where nothing is sharded or the sharding tables have data nodes on all
of them. It is answered, if it is unsharded and unlimited, just where the data sources of the sharding
tables are storage units. -/
theorem broadcast_write_reaches_iff {c : Configuration} {d : Deployment} (h : c.build = .ok d)
    (hgroups : c.readwriteGroups = []) {query : Query}
    (hbroadcast : c.Broadcasts query.statement.tables) (hwrite : isWrite query = true)
    {result : Except RouteError Route} (hgives : d.Gives query result) :
    (∀ route, result = .ok route →
      ((route.units.map RouteUnit.dataSource).Perm d.topology.names ↔
        c.sharding.tables.entries = [] ∨ ∀ unit ∈ d.topology.names, d.rule.Uses unit)) ∧
    (query.statement.IsUnsharded d.rule → query.statement.IsUnlimited →
      ((∃ route, result = .ok route) ↔
        ∀ source, d.rule.Uses source → source ∈ d.topology.names)) := by
  have hb := Configuration.built_of_buildWith (Configuration.build_eq_ok h)
  obtain ⟨-, keys, reads, rfl⟩ := Deployment.gives_iff.1 hgives
  have hsources {sharded : Route} (hsharded : d.router.answer query d.topology keys = .ok sharded) :=
    Routing.finish_of_sources (Deployment.written_sources hb hgroups hbroadcast hwrite hsharded reads)
      (ShardingRule.broadcastSources_nodup hb.declared d.topology)
      (ShardingRule.names_of_broadcastSources_eq_nil hb.declared)
  constructor
  · intro route hroute
    obtain ⟨sharded, hsharded, hfinish⟩ := bind_eq_ok.1 hroute
    obtain ⟨hanswered, hkept⟩ := hsources hsharded
    rw [hkept route hfinish, ← hb.tables]
    exact ShardingRule.broadcastSources_perm_iff hb.declared (hanswered.1 ⟨route, hfinish⟩)
  · intro hunsharded hunlimited
    obtain ⟨sharded, hsharded⟩ :=
      Deployment.router_answers hb hbroadcast hunsharded hunlimited keys
    have hanswer : d.answer query keys reads =
        Routing.finish d.topology (d.decorated query reads sharded) := by
      rw [Deployment.answer, hsharded]
      rfl
    rw [hanswer, (hsources hsharded).1]
    exact ShardingRule.broadcastSources_subset_iff hb.declared

/-- A broadcast table beside a sharding table with some data nodes, over two storage units. -/
def dictionaryBeside (nodes : String) : Configuration where
  props := .default
  database := ⟨"shop", .mySql, .ofList [("ds_0", .mySql), ("ds_1", .mySql)]⟩
  sharding := { ShardingSpec.empty with
    tables := .ofList [("t_order", ⟨nodes, none, none, none⟩)]
    broadcastTables := ["t_dict"] }
  readwriteGroups := []

def dictionaryWith (node : DataNode) (nodes : List DataNode) : Deployment where
  props := .default
  topology := ⟨"shop", .ofList [("ds_0", .mySql), ("ds_1", .mySql)]⟩
  rule := (ShardingRule.empty.withTable
    ⟨"t_order", node :: nodes, none, none, none, List.cons_ne_nil _ _⟩).withBroadcastTable "t_dict"
  readwrite := none
  conversion := .builtin .mySql

/-- A write to the broadcast table. -/
def defineWord : Query := ⟨"UPDATE t_dict SET v = 1", .of .update ["t_dict"], [], .none⟩

set_option maxRecDepth 20000 in
/-- Beside a table with data nodes on both storage units the write reaches both. -/
theorem broadcast_write_reaches_spread :
    (dictionaryBeside "ds_0.t_order,ds_1.t_order").build =
        .ok (dictionaryWith ⟨"ds_0", "t_order"⟩ [⟨"ds_1", "t_order"⟩]) ∧
      ∀ result, (dictionaryWith ⟨"ds_0", "t_order"⟩ [⟨"ds_1", "t_order"⟩]).Gives defineWord result →
        ∃ route, result = .ok route ∧
          (route.units.map RouteUnit.dataSource).Perm ["ds_0", "ds_1"] := by
  have hbuild : (dictionaryBeside "ds_0.t_order,ds_1.t_order").build =
      .ok (dictionaryWith ⟨"ds_0", "t_order"⟩ [⟨"ds_1", "t_order"⟩]) := rfl
  have hbroadcast : (dictionaryBeside "ds_0.t_order,ds_1.t_order").Broadcasts ["t_dict"] :=
    ⟨List.cons_ne_nil _ _, fun table ht => ⟨"t_dict", List.mem_singleton_self _, by
      rw [List.mem_singleton.1 ht]⟩⟩
  have hunsharded : defineWord.statement.IsUnsharded
      (dictionaryWith ⟨"ds_0", "t_order"⟩ [⟨"ds_1", "t_order"⟩]).rule :=
    ⟨fun table ht => by rw [List.mem_singleton.1 ht]; rfl, fun _ hg => absurd hg List.not_mem_nil,
      fun _ hdata => nomatch hdata⟩
  refine ⟨hbuild, fun result hgives => ?_⟩
  obtain ⟨hreaches, hanswers⟩ := broadcast_write_reaches_iff hbuild rfl hbroadcast rfl hgives
  obtain ⟨route, hroute⟩ := (hanswers hunsharded rfl).2 fun source ⟨t, ht, hsource⟩ => by
    rw [List.mem_singleton.1 ht] at hsource
    exact hsource
  refine ⟨route, hroute, (hreaches route hroute).2 (.inr fun unit hunit => ?_)⟩
  exact ⟨_, List.mem_singleton_self _, hunit⟩

set_option maxRecDepth 20000 in
/-- Beside a table with data nodes on one of the storage units the write reaches only that one. -/
theorem dictionary_write_misses_unit :
    (dictionaryBeside "ds_0.t_order").build = .ok (dictionaryWith ⟨"ds_0", "t_order"⟩ []) ∧
      (dictionaryWith ⟨"ds_0", "t_order"⟩ []).topology.names = ["ds_0", "ds_1"] ∧
      isWrite defineWord = true ∧
      (dictionaryWith ⟨"ds_0", "t_order"⟩ []).Gives defineWord
        (.ok ⟨[⟨⟨"ds_0", "ds_0"⟩, [⟨"t_dict", "t_dict"⟩]⟩], [], []⟩) :=
  ⟨rfl, rfl, rfl, Deployment.gives_iff.2 ⟨rfl, ∅, ∅, rfl⟩⟩

end ShardedSql
