import ShardedSql.Proofs.Contradictions

/-! The route engine over routers of any kind. Whatever they make of the units, those of the last one are
given out without repetitions, or a lone storage unit in place of none, and only if each is on a storage
unit. A data source hint passes all routers by. -/

namespace ShardedSql.Routing

variable {σ : Type} {query : Query} {topology : Topology}

/-- The routers come to a route one after the other: the first one makes it, every later one turns the
route of those before it into its own. -/
inductive Runs (query : Query) (topology : Topology) : List (Router σ) → σ → Route → σ → Prop
  | none {s} : Runs query topology [] s .empty s
  | first {r s route s'} (made : r.create query topology s = (.ok route, s')) :
    Runs query topology [r] s route s'
  | later {before r s route s' last s''} (some_before : before ≠ [])
    (run : Runs query topology before s route s')
    (changed : r.decorate route query topology s' = (.ok last, s'')) :
    Runs query topology (before ++ [r]) s last s''

/-- What is given out for the units of the last router. -/
inductive Leaves (topology : Topology) : List RouteUnit → List RouteUnit → Prop
  | routed {units} (some_units : units ≠ []) : Leaves topology units units.eraseDups
  | lone {name} (only : topology.names = [name]) : Leaves topology [] [⟨⟨name, name⟩, []⟩]
  | nowhere (not_lone : ∀ name, topology.names ≠ [name]) : Leaves topology [] []

/-- The route is that of the last router but for its units, and these are on storage units. -/
structure Settles (topology : Topology) (last route : Route) : Prop where
  units : Leaves topology last.units route.units
  rest : route = { last with units := route.units }
  stored : ∀ u ∈ route.units, topology.contains u.dataSource = true

/-- One more router changes what those before it come to. -/
theorem chain_concat {before : List (Router σ)} (hbefore : before ≠ []) (r : Router σ) :
    chain (before ++ [r]) query topology =
      chain before query topology >>= fun route => r.decorate route query topology := by
  cases before with
  | nil => exact absurd rfl hbefore
  | cons first rest =>
    simp only [List.cons_append, chain, List.foldlM_append, List.foldlM_cons, List.foldlM_nil,
      bind_pure, bind_assoc]

theorem Runs.chain_eq {routers : List (Router σ)} {s s' : σ} {route : Route}
    (h : Runs query topology routers s route s') :
    chain routers query topology s = (.ok route, s') := by
  induction h with
  | none => rfl
  | first made => exact run_bind_eq_ok.2 ⟨_, _, made, rfl⟩
  | later some_before _ changed ih =>
    rw [chain_concat some_before]
    exact run_bind_eq_ok.2 ⟨_, _, ih, changed⟩

theorem runs_of_chain {routers : List (Router σ)} {s s' : σ} {route : Route}
    (h : chain routers query topology s = (.ok route, s')) : Runs query topology routers s route s' := by
  induction routers using List.reverseRecOn generalizing route s' with
  | nil =>
    cases h
    exact .none
  | append_singleton before r ih =>
    by_cases hbefore : before = []
    · subst hbefore
      obtain ⟨made, s₁, hmade, hrest⟩ := run_bind_eq_ok.1 h
      cases hrest
      exact .first hmade
    · rw [chain_concat hbefore] at h
      obtain ⟨mid, s₁, hmid, hlast⟩ := run_bind_eq_ok.1 h
      exact .later hbefore (ih hmid) hlast

theorem Leaves.nodup {units left : List RouteUnit} (h : Leaves topology units left) : left.Nodup := by
  cases h with
  | routed some_units =>
    rw [← distinct_eq_eraseDups]
    exact nodup_distinct _
  | lone only => exact List.nodup_singleton _
  | nowhere not_lone => exact .nil

theorem Leaves.unique {units left left' : List RouteUnit} (h : Leaves topology units left)
    (h' : Leaves topology units left') : left = left' := by
  cases h with
  | routed some_units =>
    cases h' with
    | routed _ => rfl
    | lone only => exact absurd rfl some_units
    | nowhere _ => exact absurd rfl some_units
  | lone only =>
    cases h' with
    | routed some_units => exact absurd rfl some_units
    | lone only' =>
      rw [only] at only'
      cases only'
      rfl
    | nowhere not_lone => exact absurd only (not_lone _)
  | nowhere not_lone =>
    cases h' with
    | routed some_units => exact absurd rfl some_units
    | lone only => exact absurd only (not_lone _)
    | nowhere _ => rfl

/-- The fallback and the dropping of repetitions, in this order, leave what is given out. -/
theorem leaves_fallback (topology : Topology) (route : Route) :
    Leaves topology route.units (distinct (fallback topology route).units) := by
  by_cases hunits : route.units = []
  · rw [hunits]
    rcases fallback_units topology hunits with ⟨name, hname, hlone, -⟩ | ⟨hnames, hnone⟩
    · rw [hlone]
      exact .lone hname
    · rw [hnone]
      exact .nowhere hnames
  · rw [fallback_eq_self hunits, distinct_eq_eraseDups]
    exact .routed hunits

theorem finish_eq_ok_iff {last route : Route} :
    finish topology last = .ok route ↔ Settles topology last route := by
  rw [finish_eq_ok]
  constructor
  · rintro ⟨hstored, rfl⟩
    refine ⟨leaves_fallback topology last, ?_, fun u hu => hstored u (mem_distinct.1 hu)⟩
    rw [Route.dedup, fallback_eq]
  · rintro ⟨hunits, hrest, hstored⟩
    have hleft : distinct (fallback topology last).units = route.units :=
      (leaves_fallback topology last).unique hunits
    refine ⟨fun u hu => hstored u (hleft ▸ mem_distinct.2 hu), ?_⟩
    rw [hrest, Route.dedup, hleft, fallback_eq]

/-- A statement through any routers. With a data source hint no router is asked: the statement goes to
the named storage unit, without table mappings, or that is no storage unit. Without a hint a route is
given just when the routers come to one whose units, each once, or else the lone storage unit, are all on
storage units; and the units given are these, no two of them the same. -/
theorem route_settles_any_routers (routers : List (Router σ)) (query : Query) (topology : Topology)
    (s : σ) :
    (∀ name, query.hint.dataSource = some name → route routers query topology s =
      (if topology.contains name then .ok ⟨[⟨⟨name, name⟩, []⟩], [], []⟩
        else .error (.unknownHintTarget name), s)) ∧
    (query.hint.dataSource = none → ∀ given s',
      (route routers query topology s = (.ok given, s') ↔
        ∃ last, Runs query topology routers s last s' ∧ Settles topology last given) ∧
      (route routers query topology s = (.ok given, s') →
        given.units.Nodup ∧ ∀ u ∈ given.units, topology.contains u.dataSource = true)) := by
  have hsettles : query.hint.dataSource = none → ∀ given s',
      route routers query topology s = (.ok given, s') ↔
        ∃ last, Runs query topology routers s last s' ∧ Settles topology last given := by
    intro hhint given s'
    rw [route, hhint]
    dsimp only
    rw [run_bind_eq_ok]
    constructor
    · rintro ⟨last, s₁, hchain, h⟩
      have hfinish : finish topology last = .ok given := congrArg Prod.fst h
      obtain rfl : s₁ = s' := congrArg Prod.snd h
      exact ⟨last, runs_of_chain hchain, finish_eq_ok_iff.1 hfinish⟩
    · rintro ⟨last, hruns, hlast⟩
      refine ⟨last, s', hruns.chain_eq, ?_⟩
      rw [finish_eq_ok_iff.2 hlast]
      rfl
  refine ⟨fun name hhint => ?_, fun hhint given s' => ⟨hsettles hhint given s', fun h => ?_⟩⟩
  · rw [route, hhint]
    rfl
  · obtain ⟨last, -, hlast⟩ := (hsettles hhint given s').1 h
    exact ⟨hlast.units.nodup, hlast.stored⟩

/-- Makes a unit on each of two data sources, and counts the statements. -/
def spread : Router Nat where
  name := "spread"
  create _ _ := fun count => (.ok ⟨[.ofSource "ds_0", .ofSource "ds_1"], [], []⟩, count + 1)
  decorate _ _ _ := fun count => (.error (.missingTableRule "t_order"), count)

/-- Adds to every unit one that is on the second data source. -/
def mirror : Router Nat where
  name := "mirror"
  create _ _ := fun count => (.error (.missingTableRule "t_order"), count)
  decorate route _ _ := fun count =>
    (.ok { route with units := route.units.flatMap fun u => [u, { u with source.actual := "ds_1" }] },
      count)

def twoUnits : Topology := ⟨"shop", .ofList [("ds_0", .mySql), ("ds_1", .mySql)]⟩

/-- A unit that mirrors itself is given out once. -/
def mirrored : Route := ⟨[⟨⟨"ds_0", "ds_0"⟩, []⟩, ⟨⟨"ds_0", "ds_1"⟩, []⟩, ⟨⟨"ds_1", "ds_1"⟩, []⟩], [], []⟩

theorem route_settles_any_routers_mirrored :
    let hinted := { selectOrders with hint := { Hint.none with dataSource := some "ds_1" } }
    selectOrders.hint.dataSource = none ∧
      route [spread, mirror] selectOrders twoUnits 0 = (.ok mirrored, 1) ∧
      (mirrored.units.Nodup ∧ ∀ u ∈ mirrored.units, twoUnits.contains u.dataSource = true) ∧
      hinted.hint.dataSource = some "ds_1" ∧
      route [mirror, spread] hinted twoUnits 0 = (.ok ⟨[⟨⟨"ds_1", "ds_1"⟩, []⟩], [], []⟩, 0) := by
  intro hinted
  have hroute : route [spread, mirror] selectOrders twoUnits 0 = (.ok mirrored, 1) := rfl
  exact ⟨rfl, hroute,
    ((route_settles_any_routers [spread, mirror] selectOrders twoUnits 0).2 rfl mirrored 1).2 hroute, rfl,
    (route_settles_any_routers [mirror, spread] hinted twoUnits 0).1 "ds_1" rfl⟩

end ShardedSql.Routing
