import ShardedSql.Proofs.Built
import ShardedSql.Proofs.Histories

/-! What a deployment answers to a statement: its sharding router answers, read/write splitting
exchanges the data sources that are groups, and every unit has to be on a storage unit. -/

namespace ShardedSql

namespace ReadwriteGroup

/-- The storage units that a group picks from. -/
def MayPick (g : ReadwriteGroup) (write : Bool) (unit : String) : Prop :=
  unit = g.writeUnit ∨ write = false ∧ unit ∈ g.readUnits

theorem pick_mayPick (g : ReadwriteGroup) (write : Bool) (s : ReadCounters) :
    g.MayPick write (g.pick write s).1 := by
  unfold pick
  split
  · exact .inl rfl
  · rename_i h
    simp only [Bool.or_eq_true, List.isEmpty_iff, not_or, Bool.not_eq_true] at h
    refine .inr ⟨h.1, ?_⟩
    change g.readUnits.getD ((g.turn s).1 % g.readUnits.length) g.writeUnit ∈ g.readUnits
    have hlt := Nat.mod_lt (g.turn s).1 (List.length_pos_iff.2 h.2)
    rw [List.getD_eq_getElem?_getD, List.getElem?_eq_getElem hlt, Option.getD_some]
    exact List.getElem_mem hlt

end ReadwriteGroup

namespace ReadwriteRule

variable {rw : ReadwriteRule} {query : Query} {route : Route} {u : RouteUnit}

theorem decorateUnit_cases (write : Bool) (u : RouteUnit) (s : ReadCounters) :
    (∃ g ∈ rw.groups.values, g.MayPick write (rw.decorateUnit write u s).1.dataSource) ∨
      (rw.decorateUnit write u s).1 = u ∧ rw.group? u.source.logic = none := by
  unfold decorateUnit
  cases hg : rw.group? u.source.logic with
  | none => exact .inr ⟨rfl, rfl⟩
  | some g =>
    have hmem : g ∈ rw.groups.values := List.mem_map_of_mem (NameMap.get?_eq_some.1 hg)
    exact .inl ⟨g, hmem, g.pick_mayPick write s⟩

/-- A unit behind read/write splitting was picked by a group, or it was there before and is on none. -/
theorem mem_decorate {s : ReadCounters} (hu : u ∈ (rw.decorate route query s).1.units) :
    (∃ g ∈ rw.groups.values, g.MayPick (isWrite query) u.dataSource) ∨
      u ∈ route.units ∧ rw.group? u.source.logic = none := by
  unfold decorate at hu
  split at hu
  · unfold create at hu
    generalize rw.groups.values = groups at hu
    rcases groups with _ | ⟨g, _ | _⟩
    · exact absurd hu List.not_mem_nil
    · refine .inl ⟨g, List.mem_singleton_self g, ?_⟩
      obtain rfl := List.mem_singleton.1 hu
      exact g.pick_mayPick (isWrite query) s
    · exact absurd hu List.not_mem_nil
  · have hmem := mem_distinct.1 hu
    obtain ⟨u₀, hu₀, s', rfl⟩ := exists_of_mem_right (run_mapM_forall₂ _ route.units s) hmem
    rcases rw.decorateUnit_cases (isWrite query) u₀ s' with hpicked | ⟨heq, hnone⟩
    · exact .inl hpicked
    · rw [heq]
      exact .inr ⟨hu₀, hnone⟩

/-- A unit that is on no group stays. -/
theorem mem_decorate_of_ungrouped (hu : u ∈ route.units) (hnone : rw.group? u.source.logic = none)
    (s : ReadCounters) : u ∈ (rw.decorate route query s).1.units := by
  have hsome : route.isEmpty = false := List.isEmpty_eq_false_iff.2 (List.ne_nil_of_mem hu)
  unfold decorate
  rw [hsome, if_neg Bool.false_ne_true]
  obtain ⟨u', hu', s', heq⟩ :=
    exists_of_mem_left (run_mapM_forall₂ (rw.decorateUnit (isWrite query)) route.units s) hu
  rw [decorateUnit, hnone] at heq
  cases heq
  exact mem_distinct.2 hu'

end ReadwriteRule

namespace Routing

variable {topology : Topology} {route route' : Route}

/-- A route without units falls back to the only storage unit, if there is one. -/
theorem mem_fallback {u : RouteUnit} (hu : u ∈ (fallback topology route).units) :
    u ∈ route.units ∨ ∃ name, topology.names = [name] ∧ u = .ofSource name := by
  unfold fallback at hu
  split at hu
  · rename_i name hsingle
    have hnames : topology.names = [name] := by
      unfold Topology.single? at hsingle
      split at hsingle <;> cases hsingle
      assumption
    split at hu
    · rename_i hempty
      have hnil : route.units = [] := List.isEmpty_iff.1 hempty
      simp only [Route.add, hnil, List.contains_nil, List.nil_append] at hu
      exact .inr ⟨name, hnames, List.mem_singleton.1 hu⟩
    · exact .inl hu
  · exact .inl hu

/-- The fallback only looks at the units and only changes them. -/
theorem fallback_eq (topology : Topology) (route : Route) :
    fallback topology route = { route with units := (fallback topology route).units } := by
  unfold fallback Route.add
  split
  · split
    · split <;> rfl
    · rfl
  · rfl

theorem fallback_eq_self (h : route.units ≠ []) : fallback topology route = route := by
  unfold fallback
  split
  · exact if_neg (by simpa [Route.isEmpty] using h)
  · rfl

theorem finish_eq_ok : finish topology route = .ok route' ↔
    (∀ u ∈ (fallback topology route).units, topology.contains u.dataSource = true) ∧
      (fallback topology route).dedup = route' := by
  have hfind : (fallback topology route).dedup.units.find? (fun u => !topology.contains u.dataSource) =
      none ↔ ∀ u ∈ (fallback topology route).units, topology.contains u.dataSource = true := by
    simp [List.find?_eq_none, Route.dedup]
  unfold finish
  dsimp only
  rw [← hfind]
  cases (fallback topology route).dedup.units.find? (fun u => !topology.contains u.dataSource) <;>
    simp

theorem finish_eq_error {e : RouteError} (h : finish topology route = .error e) :
    ∃ u ∈ (fallback topology route).units, topology.contains u.dataSource = false ∧
      e = .unknownStorageUnit u.dataSource := by
  unfold finish at h
  dsimp only at h
  split at h
  · rename_i u hfind
    cases h
    exact ⟨u, mem_distinct.1 (List.mem_of_find?_eq_some hfind),
      by simpa using List.find?_some hfind, rfl⟩
  · cases h

end Routing

namespace Deployment

variable {d : Deployment} {query : Query} {parse : Reading} {s : RoutingState}

@[simp] theorem router_rule (d : Deployment) : d.router.rule = d.rule := rfl

/-- A route behind read/write splitting. -/
def decorated (d : Deployment) (query : Query) (reads : ReadCounters) (route : Route) : Route :=
  match d.readwrite with
  | none => route
  | some rw => (rw.decorate route query reads).1

/-- What the deployment answers to a statement without a data source hint. -/
def answer (d : Deployment) (query : Query) (keys : KeyCounters) (reads : ReadCounters) :
    Except RouteError Route := do
  let route ← d.router.answer query d.topology keys
  Routing.finish d.topology (d.decorated query reads route)

theorem mem_decorated {reads : ReadCounters} {route : Route} {u : RouteUnit}
    (hu : u ∈ (d.decorated query reads route).units) :
    (∃ rw ∈ d.readwrite, ∃ g ∈ rw.groups.values,
      g.MayPick (ReadwriteRule.isWrite query) u.dataSource) ∨
      u ∈ route.units ∧ ∀ rw ∈ d.readwrite, rw.group? u.source.logic = none := by
  unfold decorated at hu
  split at hu
  · rename_i hnone
    refine .inr ⟨hu, fun rw hrw => ?_⟩
    rw [hnone] at hrw
    cases hrw
  · rename_i rw hsome
    rcases ReadwriteRule.mem_decorate hu with hpicked | ⟨hmem, hnone⟩
    · exact .inl ⟨rw, hsome, hpicked⟩
    · refine .inr ⟨hmem, fun rw' hrw' => ?_⟩
      rw [hsome] at hrw'
      cases hrw'
      exact hnone

theorem mem_decorated_of_ungrouped {route : Route} {u : RouteUnit} (hu : u ∈ route.units)
    (hnone : ∀ rw ∈ d.readwrite, rw.group? u.source.logic = none) (reads : ReadCounters) :
    u ∈ (d.decorated query reads route).units := by
  unfold decorated
  split
  · exact hu
  · rename_i rw hsome
    exact ReadwriteRule.mem_decorate_of_ungrouped hu (hnone rw hsome) reads

/-- An answer comes from the one of the sharding router, whose units stay where they are on no group. -/
theorem answer_eq_ok {route : Route} {keys : KeyCounters} {reads : ReadCounters}
    (h : d.answer query keys reads = .ok route) :
    ∃ sharded, d.router.answer query d.topology keys = .ok sharded ∧
      Routing.finish d.topology (d.decorated query reads sharded) = .ok route ∧
      ∀ u ∈ sharded.units, (∀ rw ∈ d.readwrite, rw.group? u.source.logic = none) → u ∈ route.units := by
  obtain ⟨sharded, hsharded, hfinish⟩ := bind_eq_ok.1 h
  refine ⟨sharded, hsharded, hfinish, fun u hu hnone => ?_⟩
  have hmem : u ∈ (d.decorated query reads sharded).units :=
    mem_decorated_of_ungrouped hu hnone reads
  obtain ⟨-, rfl⟩ := Routing.finish_eq_ok.1 hfinish
  rw [Routing.fallback_eq_self (List.ne_nil_of_mem hmem)]
  exact mem_distinct.2 hmem

/-- Every unit of an answer is on a storage unit. -/
theorem contains_of_answer {route : Route} {keys : KeyCounters} {reads : ReadCounters}
    (h : d.answer query keys reads = .ok route) :
    ∀ u ∈ route.units, d.topology.contains u.dataSource = true := by
  obtain ⟨sharded, -, hfinish, -⟩ := answer_eq_ok h
  obtain ⟨hunits, rfl⟩ := Routing.finish_eq_ok.1 hfinish
  exact fun u hu => hunits u (mem_distinct.1 hu)

/-- One statement through the routers: the sharding router keeps its own state. -/
theorem chain_run (d : Deployment) (query : Query) (s : RoutingState) :
    (Routing.chain d.routers query d.topology s).1 =
        (d.router.route query d.topology (s.sharding 0)).1.map (d.decorated query s.reads) ∧
      ∃ reads, (Routing.chain d.routers query d.topology s).2 =
        { s.withSharding 0 (d.router.route query d.topology (s.sharding 0)).2 with reads := reads } := by
  have hchain : Routing.chain d.routers query d.topology s =
      ((Router.ofSharding d.router 0).create query d.topology >>= fun route =>
        (d.readwrite.map Router.ofReadwrite).toList.foldlM
          (fun route r => r.decorate route query d.topology) route) s := rfl
  have hcreate : (Router.ofSharding d.router 0).create query d.topology s =
      ((d.router.route query d.topology (s.sharding 0)).1,
        s.withSharding 0 (d.router.route query d.topology (s.sharding 0)).2) := rfl
  rw [hchain, run_bind, hcreate]
  unfold decorated
  rcases d.router.route query d.topology (s.sharding 0) with ⟨_ | route, t⟩
  · exact ⟨rfl, s.reads, rfl⟩
  · cases d.readwrite with
    | none => exact ⟨rfl, s.reads, rfl⟩
    | some rw => exact ⟨rfl, _, rfl⟩

/-- The states of a deployment, through statements of one reading. A data source hint passes the
routers by. -/
inductive Reached (d : Deployment) (parse : Reading) : RoutingState → Prop
  | initial {s : RoutingState} (h : (s.sharding 0).cache = (ShardingRouter.initial d.rule).cache) : Reached d parse s
  | step {s : RoutingState} (query : Query) (hread : query.statement = parse query.sql)
    (h : Reached d parse s) : Reached d parse (Routing.route d.routers query d.topology s).2

theorem route_run (hhint : query.hint.dataSource = none) (s : RoutingState) :
    (Routing.route d.routers query d.topology s).1 =
        (Routing.chain d.routers query d.topology s).1 >>= Routing.finish d.topology ∧
      (Routing.route d.routers query d.topology s).2 =
        (Routing.chain d.routers query d.topology s).2 := by
  unfold Routing.route
  rw [hhint]
  dsimp only
  rw [run_bind]
  rcases Routing.chain d.routers query d.topology s with ⟨_ | route, t⟩ <;> exact ⟨rfl, rfl⟩

theorem route_hinted {name : String} (hhint : query.hint.dataSource = some name)
    (s : RoutingState) : (Routing.route d.routers query d.topology s).2 = s := by
  unfold Routing.route
  rw [hhint]
  rfl

theorem Reached.faithful (h : d.Reached parse s) :
    d.router.Faithful d.topology parse (s.sharding 0).cache := by
  induction h with
  | initial h => exact h ▸ d.router.faithful_initial d.topology parse
  | @step s query hread _ ih =>
    cases hhint : query.hint.dataSource with
    | some name => rwa [route_hinted hhint]
    | none =>
      obtain ⟨-, reads, hstate⟩ := d.chain_run query s
      rw [(route_run hhint s).2, hstate]
      exact fun c hc => (ShardingRouter.route_faithful hread ih).2 c (RoutingState.cache_withSharding hc)

/-- Whatever statements came before, the deployment answers from its rules alone. -/
theorem Reached.route_eq (h : d.Reached parse s) (hread : query.statement = parse query.sql)
    (hhint : query.hint.dataSource = none) :
    (Routing.route d.routers query d.topology s).1 = d.answer query s.keys s.reads := by
  rw [(route_run hhint s).1, (d.chain_run query s).1,
    (ShardingRouter.route_faithful hread h.faithful).1]
  change Except.map _ (d.router.answer query d.topology s.keys) >>= _ = _
  unfold answer
  cases d.router.answer query d.topology s.keys <;> rfl

/-- A result of the statement, which has no data source hint, behind some other statements. -/
def Gives (d : Deployment) (query : Query) (result : Except RouteError Route) : Prop :=
  query.hint.dataSource = none ∧ ∃ parse s, d.Reached parse s ∧
    query.statement = parse query.sql ∧ (Routing.route d.routers query d.topology s).1 = result

/-- The results are the answers from the rules, for any keys and turns. -/
theorem gives_iff {result : Except RouteError Route} :
    d.Gives query result ↔
      query.hint.dataSource = none ∧ ∃ keys reads, d.answer query keys reads = result := by
  refine and_congr_right fun hhint => ⟨?_, ?_⟩
  · rintro ⟨parse, s, hs, hread, rfl⟩
    exact ⟨s.keys, s.reads, (hs.route_eq hread hhint).symm⟩
  · rintro ⟨keys, reads, rfl⟩
    let s : RoutingState := ⟨keys, [(ShardingRouter.initial d.rule).cache], reads⟩
    have hs : d.Reached (fun _ => query.statement) s := .initial rfl
    exact ⟨_, s, hs, rfl, hs.route_eq rfl hhint⟩

/-- The units of an answer on broadcast tables are those of the broadcast. -/
theorem units_of_broadcast {c : Configuration} (hb : c.Built d)
    (hbroadcast : c.Broadcasts query.statement.tables) {keys : KeyCounters} {route : Route}
    (h : d.router.answer query d.topology keys = .ok route) :
    route.units = (Placement.broadcast d.rule query d.topology).units := by
  obtain ⟨e, placed, -, -, hplaced, -, rfl⟩ := ShardingRouter.answer_eq_ok.1 h
  rw [router_rule, Placement.place, if_pos (hb.allBroadcast_iff.2 hbroadcast)] at hplaced
  cases hplaced
  rfl

/-- Where the units of a statement come from: a group picked them, or they are the only storage unit, or
their data source is no group and the sharding router chose it. -/
theorem unit_origin {c : Configuration} (hb : c.Built d) {keys : KeyCounters} {reads : ReadCounters}
    {route : Route} {u : RouteUnit} (h : d.router.answer query d.topology keys = .ok route)
    (hu : u ∈ (Routing.fallback d.topology (d.decorated query reads route)).units) :
    (∃ g ∈ c.readwriteGroups, g.MayPick (ReadwriteRule.isWrite query) u.dataSource) ∨
      d.topology.names = [u.dataSource] ∨
      ¬ c.IsGroup u.dataSource ∧ (d.rule.Uses u.dataSource ∨ c.sharding.tables.entries = [] ∧
        d.rule.allBroadcast query.statement.tables = true ∧ u.dataSource ∈ d.topology.names) := by
  rcases Routing.mem_fallback hu with hu | ⟨name, hnames, rfl⟩
  · rcases mem_decorated hu with ⟨rw, hrw, g, hg, hpick⟩ | ⟨hu, hnone⟩
    · exact .inl ⟨g, hb.mem_groups hrw hg, hpick⟩
    · obtain ⟨e, placed, -, -, hplaced, -, rfl⟩ := ShardingRouter.answer_eq_ok.1 h
      obtain ⟨hsame, horigin⟩ := Placement.mem_place hb.declared hplaced hu
      refine .inr (.inr ⟨?_, ?_⟩)
      · rw [RouteUnit.dataSource, hsame]
        exact hb.ungrouped_iff.1 hnone
      · rw [RouteUnit.dataSource, hsame, ← hb.tables]
        exact horigin
  · exact .inr (.inl hnames)

end Deployment

end ShardedSql
