import ShardedSql.Proofs.Histories

/-! A cache changes no answer. Two routers of one rule, whatever they cache, answer the same statements one
after another in the same way and hand out the same keys: each of their answers is the one from the rule
alone, and the bounds of the cache take no part in it. -/

namespace ShardedSql

/-- A text stands for one statement only. -/
def ReadsAlike (queries : List Query) : Prop :=
  ∀ q ∈ queries, ∀ q' ∈ queries, q.sql = q'.sql → q.statement = q'.statement

theorem ReadsAlike.exists_reading {queries : List Query} (h : ReadsAlike queries) :
    ∃ parse : Reading, ∀ q ∈ queries, q.statement = parse q.sql := by
  refine ⟨fun sql => ((queries.find? fun q => q.sql == sql).map Query.statement).getD
    (.of .other []), fun q hq => ?_⟩
  cases hfind : queries.find? fun q' => q'.sql == q.sql with
  | none => simpa using List.find?_eq_none.1 hfind q hq
  | some q' =>
    have hsql : q'.sql = q.sql := by simpa using List.find?_some hfind
    simp [hfind, h q' (List.mem_of_find?_eq_some hfind) q hq hsql]

/-- The same rule with these bounds of the cache, or without a cache. -/
def ShardingRule.cachedBy (rule : ShardingRule) (options : Option CacheOptions) : ShardingRule :=
  { rule with cache := options }

section CachedBy

variable (rule : ShardingRule) (options : Option CacheOptions)

namespace Extraction

variable (params : List Value)

theorem groupFrom_cachedBy (entries : List ColumnConstraint) (ps : List Predicate) :
    groupFrom (rule.cachedBy options) params entries ps = groupFrom rule params entries ps := by
  induction ps generalizing entries with
  | nil => rfl
  | cons p ps ih =>
    have hcolumn : (rule.cachedBy options).isShardingColumn p.table p.column =
        rule.isShardingColumn p.table p.column := rfl
    simp only [groupFrom, hcolumn, ih]

theorem groupsFrom_cachedBy (merge : Bool) (alternatives : List Condition) (contradictions : Bool)
    (groups : List (List Predicate)) :
    groupsFrom (rule.cachedBy options) params merge alternatives contradictions groups =
      groupsFrom rule params merge alternatives contradictions groups := by
  induction groups generalizing alternatives contradictions with
  | nil => rfl
  | cons group groups ih => simp only [groupsFrom, groupFrom_cachedBy, ih]

theorem rowEntries_cachedBy (table : String) (l : List (String × Operand)) :
    rowEntries (rule.cachedBy options) params table l = rowEntries rule params table l := by
  induction l with
  | nil => rfl
  | cons e l ih =>
    have hcolumn : (rule.cachedBy options).isShardingColumn table e.1 =
        rule.isShardingColumn table e.1 := rfl
    simp only [rowEntries, hcolumn, ih]

theorem extract_cachedBy (query : Query) :
    extract (rule.cachedBy options) query = extract rule query := by
  have hrow : row (rule.cachedBy options) = row rule := by
    funext params data strategy operands
    unfold row
    rw [rowEntries_cachedBy]
    rfl
  have hinsertion (data : InsertData) :
      insertion (rule.cachedBy options) query.params data = insertion rule query.params data := by
    unfold insertion
    rw [hrow]
    rfl
  unfold extract
  simp only [hinsertion, groupsFrom_cachedBy]

end Extraction

namespace Placement

theorem leadsFrom_cachedBy (all covered tables : List String) :
    leadsFrom (rule.cachedBy options) all covered tables = leadsFrom rule all covered tables := by
  induction tables generalizing covered with
  | nil => rfl
  | cons table tables ih =>
    have hbinding (other : String) : (rule.cachedBy options).allBinding [table, other] =
        rule.allBinding [table, other] := rfl
    simp only [leadsFrom, hbinding, ih]

theorem place_cachedBy (query : Query) (topology : Topology) (conditions : Conditions)
    (tables : List String) :
    place (rule.cachedBy options) query topology conditions tables =
      place rule query topology conditions tables := by
  have hstandard : standard (rule.cachedBy options) query conditions tables =
      standard rule query conditions tables := by
    unfold standard leads
    rw [leadsFrom_cachedBy]
    rfl
  unfold place
  rw [hstandard]
  rfl

end Placement

end CachedBy

namespace ShardingRouter

variable {r : ShardingRouter} {topology : Topology} {parse : Reading}

/-- The router of the same rule with these bounds of the cache, or without a cache. -/
def cachedBy (r : ShardingRouter) (options : Option CacheOptions) : ShardingRouter :=
  ⟨r.rule.cachedBy options, r.validators⟩

/-- The answers to statements one after another. -/
def answers (r : ShardingRouter) (topology : Topology) (queries : List Query) :
    StateM ShardingState (List (Except RouteError Route)) :=
  queries.mapM fun query => (r.route query topology).run

theorem answer_cachedBy (options : Option CacheOptions) (query : Query) (keys : KeyCounters) :
    (r.cachedBy options).answer query topology keys = r.answer query topology keys := by
  unfold answer cachedBy
  dsimp only
  rw [Extraction.extract_cachedBy]
  simp only [Placement.place_cachedBy]
  rfl

/-- The keys behind a statement are those behind its extraction. -/
theorem route_keys (query : Query) (s : ShardingState) :
    (r.route query topology s).2.keys = (Extraction.extract r.rule query s.keys).2 := by
  unfold ShardingRouter.route
  rcases Extraction.extract r.rule query s.keys with ⟨_ | e, keys⟩ <;> rfl

/-- One statement: from the same keys both routers give the same answer, and have the same keys left. -/
theorem route_cachedBy {options options' : Option CacheOptions} {s s' : ShardingState} {query : Query}
    (hread : query.statement = parse query.sql)
    (hcache : (r.cachedBy options).Faithful topology parse s.cache)
    (hcache' : (r.cachedBy options').Faithful topology parse s'.cache) (hkeys : s.keys = s'.keys) :
    ((r.cachedBy options).route query topology s).1 =
        ((r.cachedBy options').route query topology s').1 ∧
      ((r.cachedBy options).route query topology s).2.keys =
        ((r.cachedBy options').route query topology s').2.keys := by
  constructor
  · rw [(route_faithful hread hcache).1, (route_faithful hread hcache').1, answer_cachedBy,
      answer_cachedBy, hkeys]
  · rw [route_keys, route_keys, hkeys]
    unfold cachedBy
    dsimp only
    rw [Extraction.extract_cachedBy, Extraction.extract_cachedBy]

/-- All statements: what was stored or has left the cache on the way makes no difference. -/
theorem answers_cachedBy {options options' : Option CacheOptions} {s s' : ShardingState}
    {queries : List Query} (hread : ∀ q ∈ queries, q.statement = parse q.sql)
    (hcache : (r.cachedBy options).Faithful topology parse s.cache)
    (hcache' : (r.cachedBy options').Faithful topology parse s'.cache) (hkeys : s.keys = s'.keys) :
    ((r.cachedBy options).answers topology queries s).1 =
        ((r.cachedBy options').answers topology queries s').1 ∧
      ((r.cachedBy options).answers topology queries s).2.keys =
        ((r.cachedBy options').answers topology queries s').2.keys := by
  induction queries generalizing s s' with
  | nil => exact ⟨rfl, hkeys⟩
  | cons query queries ih =>
    obtain ⟨hquery, hqueries⟩ := List.forall_mem_cons.1 hread
    obtain ⟨hanswer, hleft⟩ := route_cachedBy hquery hcache hcache' hkeys
    obtain ⟨hanswers, hlast⟩ := ih hqueries (route_faithful hquery hcache).2
      (route_faithful hquery hcache').2 hleft
    unfold answers at hanswers hlast ⊢
    rw [List.mapM_cons, List.mapM_cons]
    exact ⟨congrArg₂ List.cons hanswer hanswers, hlast⟩

/-- A router from its start, through these statements. -/
def serve (r : ShardingRouter) (topology : Topology) (queries : List Query) :
    List (Except RouteError Route) × ShardingState :=
  r.answers topology queries (initial r.rule)

/-- What a router stores on its way was placed for the statements it has served. -/
theorem serve_placedFor {P : Query → Prop} {queries : List Query} (h : ∀ q ∈ queries, P q) :
    r.PlacedFor topology P (r.serve topology queries).2.cache := by
  suffices hrun : ∀ s, r.PlacedFor topology P s.cache →
      r.PlacedFor topology P (r.answers topology queries s).2.cache from
    hrun _ (r.placedFor_initial topology P)
  induction queries with
  | nil => exact fun s hs => hs
  | cons query queries ih =>
    intro s hs
    obtain ⟨hquery, hqueries⟩ := List.forall_mem_cons.1 h
    have hrest := ih hqueries _ (route_placedFor hquery hs)
    unfold answers at hrest ⊢
    rw [List.mapM_cons]
    exact hrest

end ShardingRouter

open ShardingRouter (serve)

/-- Over statements of which equal texts are read alike, a router with a cache of any bounds gives the same
answers as one without, and hands out the same keys. -/
theorem cache_changes_no_answer (r : ShardingRouter) (options : CacheOptions) (topology : Topology)
    {queries : List Query} (hread : ReadsAlike queries) :
    ((r.cachedBy (some options)).serve topology queries).1 =
        ((r.cachedBy none).serve topology queries).1 ∧
      ((r.cachedBy (some options)).serve topology queries).2.keys =
        ((r.cachedBy none).serve topology queries).2.keys := by
  obtain ⟨parse, hparse⟩ := hread.exists_reading
  exact ShardingRouter.answers_cachedBy hparse (ShardingRouter.faithful_initial _ topology parse)
    (ShardingRouter.faithful_initial _ topology parse) rfl

/-- Orders that take their numbers from a generator. -/
def numberedOrders : ShardingRouter where
  rule := ShardingRule.empty.withTable
    { orderTable with keyStrategy := some ⟨"order_id", "numbers"⟩ }
  validators := []

def readOrder (params : List Value) (hint : Hint) : Query where
  sql := "SELECT * FROM t_order WHERE user_id = ? AND order_id = ?"
  statement := { Statement.of .select ["t_order"] with
    groups := [[⟨"t_order", "user_id", .equal (.parameter 0)⟩,
      ⟨"t_order", "order_id", .equal (.parameter 1)⟩]] }
  params := params
  hint := hint

def insertOrder (user : Int64) : Query where
  sql := "INSERT INTO t_order (user_id) VALUES (?)"
  statement := .ofInsert ⟨"t_order", ["user_id"], [[.parameter 0]]⟩
  params := [.int user]
  hint := .none

/-- Reads that push each other out of a cache with one place, among insertions that take keys, a read with a
hint and one without its parameters. -/
def mixedStatements : List Query :=
  [readOrder [.int 1, .int 2] .none, readOrder [.int 1, .int 2] .none, insertOrder 3,
    readOrder [.int 4, .int 5] .none, readOrder [.int 1, .int 2] { Hint.none with writeRouteOnly := true },
    readOrder [.int 1] .none, insertOrder 3, readOrder [.int 1, .int 2] .none]

def orderOn (source table : String) (keys : List Value) : Except RouteError Route :=
  .ok ⟨[⟨⟨source, source⟩, [⟨"t_order", table⟩]⟩],
    if keys.isEmpty then [] else [[⟨source, table⟩]], keys⟩

theorem cache_changes_no_answer_orders :
    ReadsAlike mixedStatements ∧
      ((numberedOrders.cachedBy (some ⟨512, 1⟩)).serve ⟨"shop", ∅⟩ mixedStatements).1 =
        [orderOn "ds_1" "t_order_0" [], orderOn "ds_1" "t_order_0" [],
          orderOn "ds_1" "t_order_1" [.int 1], orderOn "ds_0" "t_order_1" [],
          orderOn "ds_1" "t_order_0" [], .error (.parameterOutOfRange 1 1),
          orderOn "ds_1" "t_order_0" [.int 2], orderOn "ds_1" "t_order_0" []] ∧
      ((numberedOrders.cachedBy (some ⟨512, 1⟩)).serve ⟨"shop", ∅⟩ mixedStatements).2.cache.map
        RouteCache.size = some 1 ∧
      ((numberedOrders.cachedBy (some ⟨512, 1⟩)).serve ⟨"shop", ∅⟩ mixedStatements).1 =
        ((numberedOrders.cachedBy none).serve ⟨"shop", ∅⟩ mixedStatements).1 := by
  have hread : ReadsAlike mixedStatements := by unfold ReadsAlike; decide
  refine ⟨hread, rfl, rfl, ?_⟩
  exact (cache_changes_no_answer numberedOrders ⟨512, 1⟩ ⟨"shop", ∅⟩ hread).1

end ShardedSql
