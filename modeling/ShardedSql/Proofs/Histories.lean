import ShardedSql.Proofs.Insertion
import ShardedSql.Route.Router

/-! A router that has served other statements answers as one that has not. Statements are read from
their texts, so that a route kept for a text and its conditions is the one by which any later statement
of that text and those conditions would be placed. -/

namespace ShardedSql

/-- How the texts of statements are read. -/
abbrev Reading := String → Statement

/-- Without sharding values a hint can still disable auditors. -/
theorem Hint.eq_of_unrouted {h : Hint} (hr : h.hasRouting = false) :
    h = { Hint.none with disabledAuditors := h.disabledAuditors } := by
  obtain ⟨source, write, ⟨database, hdatabase⟩, ⟨table, htable⟩, disabled⟩ := h
  simp only [Hint.hasRouting, NameMap.isEmpty, Bool.or_eq_false_iff, Bool.not_eq_false',
    List.isEmpty_iff, Option.isSome_eq_false_iff, Option.isNone_iff_eq_none] at hr
  obtain ⟨⟨⟨rfl, rfl⟩, rfl⟩, rfl⟩ := hr
  rfl

/-- One statement can be answered by the route of the other, if it can be answered from a cache. -/
def Query.StandsFor (q query : Query) : Prop :=
  q = query ∨ q.sql = query.sql ∧ q.hint.hasRouting = false ∧ query.hint.hasRouting = false

theorem Query.StandsFor.sql {q query : Query} (h : q.StandsFor query) : q.sql = query.sql := by
  rcases h with rfl | ⟨hsql, -, -⟩
  · rfl
  · exact hsql

/-- Where a statement is placed depends on its text and its parameters through its conditions only. -/
theorem Placement.place_congr {rule : ShardingRule} {query query' : Query} (topology : Topology)
    (conditions : Conditions) (tables : List String) (h : query'.StandsFor query)
    (hs : query'.statement = query.statement) :
    place rule query' topology conditions tables = place rule query topology conditions tables := by
  rcases h with rfl | ⟨-, h', h⟩
  · rfl
  · obtain ⟨sql, statement, params, hint⟩ := query
    obtain ⟨sql', statement', params', hint'⟩ := query'
    cases hs
    have hhint : hint = _ := Hint.eq_of_unrouted h
    have hhint' : hint' = _ := Hint.eq_of_unrouted h'
    rw [hhint, hhint']
    rfl

namespace RouteCache

variable {c : RouteCache} {key : CacheKey} {route : Route} {e : CacheKey × Route}

theorem mem_of_get? (h : c.get? key = some route) : (key, route) ∈ c.entries := by
  obtain ⟨l₁, l₂, hl, -⟩ := List.lookup_eq_some_iff.1 h
  rw [hl]
  simp

theorem evictFrom_subset (maxSize : Nat) (entries : List (CacheKey × Route)) (queue : List CacheKey) :
    (evictFrom maxSize entries queue).1 ⊆ entries := by
  induction queue generalizing entries with
  | nil => exact List.Subset.refl _
  | cons oldest queue ih =>
    rw [evictFrom]
    split
    · exact List.Subset.refl _
    · exact List.Subset.trans (ih _) (List.filter_subset_self _)

theorem mem_store (h : e ∈ (c.store key route).entries) : e = (key, route) ∨ e ∈ c.entries := by
  unfold store at h
  split at h
  · obtain ⟨d, hd, rfl⟩ := List.mem_map.1 h
    split
    · exact .inl rfl
    · exact .inr hd
  · rcases List.mem_append.1 h with hd | hd
    · exact .inr hd
    · exact .inl (List.mem_singleton.1 hd)

/-- Storing a route brings in no other entry. -/
theorem mem_put (h : e ∈ (c.put key route).entries) : e = (key, route) ∨ e ∈ c.entries := by
  unfold put at h
  split at h
  · exact mem_store (evictFrom_subset _ _ _ h)
  · exact .inr h

/-- Every stored route has the property. -/
def Stores (Q : Route → Prop) (c : RouteCache) : Prop := ∀ e ∈ c.entries, Q e.2

theorem Stores.put {Q : Route → Prop} (hc : c.Stores Q) (hroute : Q route) :
    (c.put key route).Stores Q := by
  intro e he
  rcases mem_put he with rfl | he
  · exact hroute
  · exact hc e he

/-- Every stored route was placed for one of the statements `P`, of the text and under the conditions
that it is stored by. -/
def PlacedFor (rule : ShardingRule) (topology : Topology) (P : Query → Prop) (c : RouteCache) : Prop :=
  ∀ e ∈ c.entries, ∃ query, P query ∧ query.sql = e.1.sql ∧ query.hint.hasRouting = false ∧
    Placement.place rule query topology e.1.conditions
      (rule.shardingTables query.statement.tables) = .ok e.2

/-- Every stored route is the one of the statements that its key belongs to. -/
def Faithful (rule : ShardingRule) (topology : Topology) (parse : Reading) (c : RouteCache) : Prop :=
  ∀ e ∈ c.entries, ∀ query : Query, query.sql = e.1.sql → query.statement = parse query.sql →
    query.hint.hasRouting = false →
    Placement.place rule query topology e.1.conditions
      (rule.shardingTables query.statement.tables) = .ok e.2

/-- Where a text has one reading, the statement a route was placed for is as good as any other. -/
theorem faithful_iff {rule : ShardingRule} {topology : Topology} {parse : Reading} :
    c.Faithful rule topology parse ↔
      c.PlacedFor rule topology fun query => query.statement = parse query.sql := by
  constructor
  · intro h e he
    exact ⟨⟨e.1.sql, parse e.1.sql, [], .none⟩, rfl, rfl, rfl, h e he _ rfl rfl rfl⟩
  · intro h e he query hsql hread hunrouted
    obtain ⟨q, hq, hqsql, hqunrouted, hplaced⟩ := h e he
    have hs : query.statement = q.statement := by rw [hread, hq, hsql, hqsql]
    rw [hs, Placement.place_congr topology _ _ (.inr ⟨hsql.trans hqsql.symm, hunrouted, hqunrouted⟩) hs]
    exact hplaced

end RouteCache

namespace ShardingRouter

variable {r : ShardingRouter} {query : Query} {topology : Topology} {parse : Reading}

/-- What the router answers from the rule alone. -/
def answer (r : ShardingRouter) (query : Query) (topology : Topology) (keys : KeyCounters) :
    Except RouteError Route := do
  let e ← (Extraction.extract r.rule query keys).1
  let tables := r.rule.shardingTables query.statement.tables
  r.screen query e.conditions tables
  let placed ← Placement.place r.rule query topology (effective query e.conditions) tables
  let route := { placed with generatedKeys := e.generatedKeys }
  r.validators.forM fun v => v.after query route
  .ok route

/-- A statement that is answered passed its checks and was placed. -/
theorem answer_eq_ok {keys : KeyCounters} {route : Route} :
    r.answer query topology keys = .ok route ↔
      ∃ e placed, (Extraction.extract r.rule query keys).1 = .ok e ∧
        r.screen query e.conditions (r.rule.shardingTables query.statement.tables) = .ok () ∧
        Placement.place r.rule query topology (effective query e.conditions)
          (r.rule.shardingTables query.statement.tables) = .ok placed ∧
        (∀ v ∈ r.validators, v.after query { placed with generatedKeys := e.generatedKeys } = .ok ()) ∧
        route = { placed with generatedKeys := e.generatedKeys } := by
  unfold answer
  constructor
  · intro h
    obtain ⟨e, he, h⟩ := bind_eq_ok.1 h
    obtain ⟨_, hscreen, h⟩ := bind_eq_ok.1 h
    obtain ⟨placed, hplaced, h⟩ := bind_eq_ok.1 h
    obtain ⟨_, hafter, h⟩ := bind_eq_ok.1 h
    cases h
    exact ⟨e, placed, he, hscreen, hplaced, forM_eq_ok.1 hafter, rfl⟩
  · rintro ⟨e, placed, he, hscreen, hplaced, hafter, rfl⟩
    exact bind_eq_ok.2 ⟨e, he, bind_eq_ok.2 ⟨(), hscreen, bind_eq_ok.2 ⟨placed, hplaced,
      bind_eq_ok.2 ⟨(), forM_eq_ok.2 hafter, rfl⟩⟩⟩⟩

/-- Every route the router has stored is the one its statement would be placed by. -/
def Faithful (r : ShardingRouter) (topology : Topology) (parse : Reading)
    (cache : Option RouteCache) : Prop :=
  ∀ c ∈ cache, c.Faithful r.rule topology parse

def PlacedFor (r : ShardingRouter) (topology : Topology) (P : Query → Prop)
    (cache : Option RouteCache) : Prop :=
  ∀ c ∈ cache, c.PlacedFor r.rule topology P

theorem faithful_iff {cache : Option RouteCache} : r.Faithful topology parse cache ↔
    r.PlacedFor topology (fun query => query.statement = parse query.sql) cache :=
  forall₂_congr fun _ _ => RouteCache.faithful_iff

/-- What comes from the cache was placed for a statement that stands for this one, and so was what is
stored now. -/
theorem cachedPlace_placedFor {P : Query → Prop} {cache : Option RouteCache} (conditions : Conditions)
    (keys : List Value) (hquery : P query) (hcache : r.PlacedFor topology P cache) :
    (∃ q, P q ∧ q.StandsFor query ∧
      (r.cachedPlace query topology conditions (r.rule.shardingTables query.statement.tables) keys
        cache).map (·.1) =
        Placement.place r.rule q topology conditions (r.rule.shardingTables q.statement.tables)) ∧
    ∀ p, r.cachedPlace query topology conditions (r.rule.shardingTables query.statement.tables) keys
      cache = .ok p → r.PlacedFor topology P p.2 := by
  unfold cachedPlace
  split
  · refine ⟨⟨query, hquery, .inl rfl, ?_⟩, fun p h => ?_⟩
    · cases Placement.place r.rule query topology conditions
        (r.rule.shardingTables query.statement.tables) <;> rfl
    · obtain ⟨placed, -, h⟩ := bind_eq_ok.1 h
      cases h
      exact hcache
  · rename_i c hc
    obtain ⟨hmem, husable⟩ := Option.filter_eq_some_iff.1 hc
    have hunrouted : query.hint.hasRouting = false := by
      simp only [Bool.and_eq_true, Bool.not_eq_true'] at husable
      exact husable.1.2
    have hplaced := hcache c hmem
    split
    · rename_i found hfound
      obtain ⟨q, hq, hsql, hq', hplace⟩ := hplaced _ (RouteCache.mem_of_get? hfound)
      refine ⟨⟨q, hq, .inr ⟨hsql, hq', hunrouted⟩, hplace.symm⟩, fun p h => ?_⟩
      cases h
      exact hcache
    · refine ⟨⟨query, hquery, .inl rfl, ?_⟩, fun p h c' hc' e he => ?_⟩
      · cases Placement.place r.rule query topology conditions
          (r.rule.shardingTables query.statement.tables) <;> rfl
      · obtain ⟨placed, hplace, h⟩ := bind_eq_ok.1 h
        cases h
        cases hc'
        rcases RouteCache.mem_put he with rfl | he
        · exact ⟨query, hquery, rfl, hunrouted, hplace⟩
        · exact hplaced e he

/-- A stored route is no other than the placed one. -/
theorem cachedPlace_faithful {cache : Option RouteCache} (conditions : Conditions)
    (keys : List Value) (hread : query.statement = parse query.sql)
    (hcache : r.Faithful topology parse cache) :
    (r.cachedPlace query topology conditions (r.rule.shardingTables query.statement.tables) keys
        cache).map (·.1) =
      Placement.place r.rule query topology conditions
        (r.rule.shardingTables query.statement.tables) := by
  obtain ⟨⟨q, hq, hstands, hplace⟩, -⟩ :=
    cachedPlace_placedFor conditions keys hread (faithful_iff.1 hcache)
  have hs : q.statement = query.statement := by rw [hq, hread, hstands.sql]
  rw [hplace, hs, Placement.place_congr topology conditions _ hstands hs]

/-- A statement that is routed was placed, or one that stands for it. -/
theorem placed_of_placedFor {P : Query → Prop} {s : ShardingState} {route : Route} (hquery : P query)
    (hcache : r.PlacedFor topology P s.cache) (h : (r.route query topology s).1 = .ok route) :
    ∃ e q placed, (Extraction.extract r.rule query s.keys).1 = .ok e ∧ P q ∧ q.StandsFor query ∧
      Placement.place r.rule q topology (effective query e.conditions)
        (r.rule.shardingTables q.statement.tables) = .ok placed ∧
      route = { placed with generatedKeys := e.generatedKeys } := by
  obtain ⟨e, keys, he, hroute⟩ := route_eq_ok (Prod.ext h rfl : r.route query topology s = (.ok route, _))
  obtain ⟨found, hfound, rfl⟩ := routeExtracted_eq_ok hroute
  obtain ⟨⟨q, hq, hstands, hplace⟩, -⟩ :=
    cachedPlace_placedFor (effective query e.conditions) e.generatedKeys hquery hcache
  rw [hfound] at hplace
  exact ⟨e, q, found, congrArg Prod.fst he, hq, hstands, hplace.symm, rfl⟩

/-- Serving another one of the statements, a router stores no route but for them. -/
theorem route_placedFor {P : Query → Prop} {s : ShardingState} (hquery : P query)
    (hcache : r.PlacedFor topology P s.cache) :
    r.PlacedFor topology P (r.route query topology s).2.cache := by
  unfold ShardingRouter.route
  rcases Extraction.extract r.rule query s.keys with ⟨_ | e, keys⟩
  · exact hcache
  · dsimp only
    unfold routeExtracted
    dsimp only
    cases r.screen query e.conditions (r.rule.shardingTables query.statement.tables) with
    | error err => exact hcache
    | ok _ =>
      have hkeeps := (cachedPlace_placedFor (effective query e.conditions) e.generatedKeys hquery
        hcache).2
      dsimp only
      generalize r.cachedPlace query topology (effective query e.conditions)
        (r.rule.shardingTables query.statement.tables) e.generatedKeys s.cache = found at hkeeps
      cases found with
      | error err => exact hcache
      | ok p => exact hkeeps p rfl

/-- The router answers as if it had stored no route, and goes on to do so. -/
theorem route_faithful {s : ShardingState} (hread : query.statement = parse query.sql)
    (hcache : r.Faithful topology parse s.cache) :
    (r.route query topology s).1 = r.answer query topology s.keys ∧
      r.Faithful topology parse (r.route query topology s).2.cache := by
  refine ⟨?_, faithful_iff.2 (route_placedFor hread (faithful_iff.1 hcache))⟩
  unfold ShardingRouter.route answer
  rcases Extraction.extract r.rule query s.keys with ⟨_ | e, keys⟩
  · rfl
  · dsimp only [bind, Except.bind]
    unfold routeExtracted
    dsimp only
    cases r.screen query e.conditions (r.rule.shardingTables query.statement.tables) with
    | error err => rfl
    | ok _ =>
      dsimp only
      rw [← cachedPlace_faithful (effective query e.conditions) e.generatedKeys hread hcache]
      cases r.cachedPlace query topology (effective query e.conditions)
        (r.rule.shardingTables query.statement.tables) e.generatedKeys s.cache <;> rfl

section Stores

variable {Q : Route → Prop} {s : ShardingState}

/-- What holds of every placed route holds of one from the cache, and goes on to hold of all that are
stored. -/
theorem cachedPlace_stores {conditions : Conditions} {tables : List String} {keys : List Value}
    {cache cache' : Option RouteCache} {route : Route}
    (hplace : ∀ placed, Placement.place r.rule query topology conditions tables = .ok placed → Q placed)
    (hcache : ∀ c ∈ cache, c.Stores Q)
    (h : r.cachedPlace query topology conditions tables keys cache = .ok (route, cache')) :
    Q route ∧ ∀ c ∈ cache', c.Stores Q := by
  unfold cachedPlace at h
  split at h
  · obtain ⟨placed, hplaced, h⟩ := bind_eq_ok.1 h
    cases h
    exact ⟨hplace _ hplaced, hcache⟩
  · rename_i c hc
    have hstores := hcache c (Option.eq_some_of_filter_eq_some hc)
    split at h
    · rename_i found hfound
      cases h
      exact ⟨hstores _ (RouteCache.mem_of_get? hfound), hcache⟩
    · obtain ⟨placed, hplaced, h⟩ := bind_eq_ok.1 h
      cases h
      have hroute := hplace _ hplaced
      refine ⟨hroute, fun c' hc' => ?_⟩
      cases hc'
      exact hstores.put hroute

/-- The same holds of the routes of the router, where the generated keys do not matter. -/
theorem route_stores (hkeys : ∀ route keys, Q route → Q { route with generatedKeys := keys })
    (hplace : ∀ conditions placed, Placement.place r.rule query topology conditions
      (r.rule.shardingTables query.statement.tables) = .ok placed → Q placed)
    (hcache : ∀ c ∈ s.cache, c.Stores Q) :
    (∀ c ∈ (r.route query topology s).2.cache, c.Stores Q) ∧
      ∀ route, (r.route query topology s).1 = .ok route → Q route := by
  unfold ShardingRouter.route
  rcases Extraction.extract r.rule query s.keys with ⟨_ | e, keys⟩
  · exact ⟨hcache, fun _ h => nomatch h⟩
  · dsimp only
    unfold routeExtracted
    dsimp only
    split
    · exact ⟨hcache, fun _ h => nomatch h⟩
    · split
      · exact ⟨hcache, fun _ h => nomatch h⟩
      · rename_i found cache' hfound
        obtain ⟨hroute, hcache'⟩ := cachedPlace_stores (hplace _) hcache hfound
        refine ⟨hcache', fun route h => ?_⟩
        obtain ⟨_, -, rfl⟩ := map_eq_ok.1 h
        exact hkeys _ _ hroute

theorem initial_stores (r : ShardingRouter) (Q : Route → Prop) :
    ∀ c ∈ (initial r.rule).cache, c.Stores Q := by
  intro c hc
  obtain ⟨options, -, rfl⟩ := Option.map_eq_some_iff.1 hc
  exact fun e he => absurd he List.not_mem_nil

end Stores

/-- The states of a router, through statements of one reading and one topology. -/
inductive Reached (r : ShardingRouter) (topology : Topology) (parse : Reading) : ShardingState → Prop
  | initial {s} (h : s.cache = (initial r.rule).cache) : Reached r topology parse s
  | step {s} (query : Query) (hread : query.statement = parse query.sql)
    (h : Reached r topology parse s) : Reached r topology parse (r.route query topology s).2

theorem placedFor_initial (r : ShardingRouter) (topology : Topology) (P : Query → Prop) :
    r.PlacedFor topology P (initial r.rule).cache := by
  intro c hc
  obtain ⟨options, -, rfl⟩ := Option.map_eq_some_iff.1 hc
  exact fun e he => absurd he List.not_mem_nil

theorem faithful_initial (r : ShardingRouter) (topology : Topology) (parse : Reading) :
    r.Faithful topology parse (initial r.rule).cache :=
  faithful_iff.2 (r.placedFor_initial topology _)

theorem Reached.faithful {s : ShardingState} (h : r.Reached topology parse s) :
    r.Faithful topology parse s.cache := by
  induction h with
  | initial h => exact h ▸ r.faithful_initial topology parse
  | step query hread _ ih => exact (route_faithful hread ih).2

end ShardingRouter

theorem RoutingState.cache_withSharding {slot : Nat} {s : RoutingState} {t : ShardingState} {c : RouteCache}
    (h : c ∈ ((s.withSharding slot t).sharding slot).cache) : c ∈ t.cache := by
  unfold withSharding sharding at h
  dsimp only at h
  rw [List.getElem?_set_self'] at h
  cases hslot : s.caches[slot]? with
  | none =>
    rw [hslot] at h
    cases h
  | some _ =>
    rw [hslot] at h
    exact h

end ShardedSql
