import Mathlib.Data.Int.CardIntervalMod
import ShardedSql.Proofs.RowUnits

/-! The reads of a group take turns. A group keeps a position of its own that moves on by one with every unit that it
picks for a read, and with nothing else; so over any statements its picks go round its read units, whatever other
groups and writes come in between. -/

namespace ShardedSql

/-- The first element is mapped first. -/
theorem mapM_cons_apply {σ α β : Type} (f : α → StateM σ β) (a : α) (l : List α) (s : σ) :
    (a :: l).mapM f s = ((f a s).1 :: (l.mapM f (f a s).2).1, (l.mapM f (f a s).2).2) := by
  rw [List.mapM_cons]
  rfl

/-- A unit behind read/write splitting, before equal ones are dropped. -/
structure DecoratedUnit where
  write : Bool
  unit : RouteUnit

namespace ReadwriteRule

/-- The units that a statement asks the groups for: those of its route, or one for the only group. -/
def asked (rw : ReadwriteRule) (route : Route) : List RouteUnit :=
  if route.isEmpty then
    match rw.groups.values with
    | [g] => [.ofSource g.name]
    | _ => []
  else route.units

def decorated (rw : ReadwriteRule) (write : Bool) (u : RouteUnit) : StateM ReadCounters DecoratedUnit := do
  return ⟨write, ← rw.decorateUnit write u⟩

/-- What becomes of the units of one statement. -/
def decorations (rw : ReadwriteRule) (statement : Route × Query) : StateM ReadCounters (List DecoratedUnit) :=
  (rw.asked statement.1).mapM (rw.decorated (isWrite statement.2))

/-- What the group picked for reads, in the order in which it did. -/
def picks (rw : ReadwriteRule) (g : ReadwriteGroup) (history : List DecoratedUnit) : List String :=
  (history.filter fun d => !d.write && rw.group? d.unit.source.logic == some g).map (·.unit.dataSource)

/-- Every group stands under its name in lower case. -/
def WellKeyed (rw : ReadwriteRule) : Prop := ∀ e ∈ rw.groups.entries, e.1 = e.2.key

theorem wellKeyed_ofGroups (groups : List ReadwriteGroup) : (ofGroups groups).WellKeyed := by
  intro e he
  obtain ⟨g, -, rfl⟩ := List.mem_map.1 (NameMap.mem_of_mem_ofList he)
  rfl

variable {rw : ReadwriteRule} {g g' : ReadwriteGroup} {name : String}

theorem WellKeyed.key (h : rw.WellKeyed) (hg : rw.group? name = some g) : Text.lower name = g.key :=
  h _ (NameMap.get?_eq_some.1 hg)

/-- Groups with one key are the same. -/
theorem WellKeyed.eq_of_key (h : rw.WellKeyed) {name' : String} (hg : rw.group? name = some g)
    (hg' : rw.group? name' = some g') (hkey : g.key = g'.key) : g = g' := by
  rw [group?, h.key hg] at hg
  rw [group?, h.key hg', ← hkey, hg] at hg'
  exact Option.some.inj hg'

/-! ### Positions -/

/-- How many reads the group has taken in turn. -/
def position (counters : ReadCounters) (g : ReadwriteGroup) : UInt64 := (counters.get? g.key).getD 0

/-- The group takes turns between some read units. -/
def Rotates (g : ReadwriteGroup) : Prop := g.balancer = .roundRobin ∧ g.readUnits ≠ []

instance : DecidablePred Rotates := fun _ => inferInstanceAs (Decidable (_ ∧ _))

section Decorate

variable {u : RouteUnit} (s : ReadCounters)

theorem pick_rotating (h : Rotates g) : g.pick false s =
    (g.readUnits.getD ((position s g).toNat % g.readUnits.length) g.writeUnit,
      s.insert g.key (position s g + 1)) := by
  obtain ⟨hbalancer, hunits⟩ := h
  have hreads : ¬ (false || g.readUnits.isEmpty) = true := by simpa using hunits
  unfold ReadwriteGroup.pick ReadwriteGroup.turn
  rw [if_neg hreads, hbalancer]
  rfl

/-- Without turns, and for a write, no position moves. -/
theorem pick_still {write : Bool} (h : write = true ∨ ¬ Rotates g) : (g.pick write s).2 = s := by
  unfold ReadwriteGroup.pick ReadwriteGroup.turn
  by_cases hreads : (write || g.readUnits.isEmpty) = true
  · rw [if_pos hreads]
    rfl
  · rw [if_neg hreads]
    simp only [Bool.or_eq_true, List.isEmpty_iff, not_or] at hreads
    have hfirst : g.balancer = .first := by
      cases hb : g.balancer with
      | first => rfl
      | roundRobin => exact absurd ⟨hb, hreads.2⟩ (h.resolve_left hreads.1)
    rw [hfirst]
    rfl

theorem decorateUnit_group (write : Bool) (hg : rw.group? u.source.logic = some g) :
    rw.decorateUnit write u s =
      ({ u with source := ⟨u.source.logic, (g.pick write s).1⟩ }, (g.pick write s).2) := by
  unfold decorateUnit
  rw [hg]
  rfl

theorem decorateUnit_ungrouped (write : Bool) (hg : rw.group? u.source.logic = none) :
    rw.decorateUnit write u s = (u, s) := by
  unfold decorateUnit
  rw [hg]
  rfl

/-- Only its own reads move the position of a group. -/
theorem position_decorateUnit (h : rw.WellKeyed) (hg : rw.group? name = some g) {write : Bool}
    (hother : write = true ∨ rw.group? u.source.logic ≠ some g) :
    position (rw.decorateUnit write u s).2 g = position s g := by
  cases hu : rw.group? u.source.logic with
  | none => rw [decorateUnit_ungrouped s write hu]
  | some g' =>
    rw [decorateUnit_group s write hu]
    by_cases hmoves : write = false ∧ Rotates g'
    · obtain ⟨rfl, hrotates⟩ := hmoves
      have hne : g' ≠ g := by
        rintro rfl
        simp [hu] at hother
      have hkey : g.key ≠ g'.key := fun hkey => hne (h.eq_of_key hu hg hkey.symm)
      rw [pick_rotating s hrotates, position, NameMap.get?_insert_of_ne _ _ hkey, position]
    · have hstill : write = true ∨ ¬ Rotates g' := by
        cases write
        · exact .inr fun hrotates => hmoves ⟨rfl, hrotates⟩
        · exact .inl rfl
      rw [pick_still s hstill]

/-- A read of the group goes to the unit at its position, which moves on. -/
theorem decorateUnit_rotating (hg : rw.group? u.source.logic = some g) (h : Rotates g) :
    (rw.decorateUnit false u s).1.dataSource =
        g.readUnits.getD ((position s g).toNat % g.readUnits.length) g.writeUnit ∧
      position (rw.decorateUnit false u s).2 g = position s g + 1 := by
  rw [decorateUnit_group s false hg, pick_rotating s h]
  refine ⟨rfl, ?_⟩
  rw [position, NameMap.get?_insert_self]
  rfl

end Decorate

/-! ### Runs -/

theorem picks_append (h h' : List DecoratedUnit) : rw.picks g (h ++ h') = rw.picks g h ++ rw.picks g h' := by
  rw [picks, List.filter_append, List.map_append, ← picks, ← picks]

/-- The group has come as far as it has picked for reads, and it picked round its read units. -/
structure OnTurn (rw : ReadwriteRule) (g : ReadwriteGroup) (history : List DecoratedUnit) (s : ReadCounters) :
    Prop where
  position : position s g = UInt64.ofNat (rw.picks g history).length
  turn : (rw.picks g history).length ≤ 2 ^ 64 → ∀ k < (rw.picks g history).length,
    (rw.picks g history)[k]? = g.readUnits[k % g.readUnits.length]?

theorem onTurn_nil (rw : ReadwriteRule) (g : ReadwriteGroup) : OnTurn rw g [] ∅ :=
  ⟨rfl, fun _ k hk => absurd hk (Nat.not_lt_zero k)⟩

section Runs

variable (hrw : rw.WellKeyed) (hg : rw.group? name = some g) (hrotates : Rotates g)
  {history : List DecoratedUnit} {s : ReadCounters}
include hrw hg hrotates

theorem OnTurn.unit (h : OnTurn rw g history s) (write : Bool) (u : RouteUnit) :
    OnTurn rw g (history ++ [(rw.decorated write u s).1]) (rw.decorated write u s).2 := by
  change OnTurn rw g (history ++ [⟨write, (rw.decorateUnit write u s).1⟩]) (rw.decorateUnit write u s).2
  have hlogic : (rw.decorateUnit write u s).1.source.logic = u.source.logic :=
    congrArg Prod.fst (rw.decorateUnit_place write u s)
  have hpicks := rw.picks_append (g := g) history [⟨write, (rw.decorateUnit write u s).1⟩]
  by_cases hown : write = false ∧ rw.group? u.source.logic = some g
  · obtain ⟨rfl, hu⟩ := hown
    obtain ⟨hpicked, hmoved⟩ := decorateUnit_rotating s hu hrotates
    have hlast : rw.picks g [⟨false, (rw.decorateUnit false u s).1⟩] =
        [(rw.decorateUnit false u s).1.dataSource] := by simp [picks, hlogic, hu]
    rw [hlast] at hpicks
    constructor
    case position =>
      rw [hmoved, h.position, hpicks, List.length_append, List.length_singleton, UInt64.ofNat_add]
      rfl
    case turn =>
      rw [hpicks, List.length_append, List.length_singleton]
      intro hfew k hk
      rcases Nat.lt_succ_iff_lt_or_eq.1 hk with hk | rfl
      · rw [List.getElem?_append_left hk]
        exact h.turn (Nat.le_of_succ_le hfew) k hk
      · -- The new pick is at the position, the number of picks before it.
        have hplace : (rw.picks g history).length % g.readUnits.length < g.readUnits.length :=
          Nat.mod_lt _ (List.length_pos_iff.2 hrotates.2)
        have hcount : (UInt64.ofNat (rw.picks g history).length).toNat = (rw.picks g history).length := by
          rw [UInt64.toNat_ofNat']
          exact Nat.mod_eq_of_lt hfew
        rw [List.getElem?_concat_length, hpicked, h.position, hcount, List.getD_eq_getElem?_getD,
          List.getElem?_eq_getElem hplace, Option.getD_some]
  · have hother : write = true ∨ rw.group? u.source.logic ≠ some g := by
      cases write
      · exact .inr fun hu => hown ⟨rfl, hu⟩
      · exact .inl rfl
    have hnone : rw.picks g [⟨write, (rw.decorateUnit write u s).1⟩] = [] := by
      rcases hother with rfl | hu
      · rfl
      · simp [picks, hlogic, hu]
    rw [hnone, List.append_nil] at hpicks
    exact ⟨by rw [position_decorateUnit s hrw hg hother, hpicks, h.position], by rw [hpicks]; exact h.turn⟩

theorem OnTurn.units (h : OnTurn rw g history s) (write : Bool) (units : List RouteUnit) :
    OnTurn rw g (history ++ (units.mapM (rw.decorated write) s).1) (units.mapM (rw.decorated write) s).2 := by
  induction units generalizing history s with
  | nil =>
    change OnTurn rw g (history ++ []) s
    rwa [List.append_nil]
  | cons u units ih =>
    have hrest := ih (h.unit hrw hg hrotates write u)
    rw [List.append_assoc] at hrest
    rw [mapM_cons_apply]
    exact hrest

/-- Whatever statements come, the group stays on turn. -/
theorem OnTurn.statements (h : OnTurn rw g history s) (statements : List (Route × Query)) :
    OnTurn rw g (history ++ (statements.mapM rw.decorations s).1.flatten)
      (statements.mapM rw.decorations s).2 := by
  induction statements generalizing history s with
  | nil =>
    change OnTurn rw g (history ++ []) s
    rwa [List.append_nil]
  | cons statement statements ih =>
    have hfirst := h.units hrw hg hrotates (isWrite statement.2) (rw.asked statement.1)
    have hrest := ih hfirst
    rw [List.append_assoc] at hrest
    rw [mapM_cons_apply]
    exact hrest

end Runs

/-! ### What the router answers -/

theorem mapM_decorated (rw : ReadwriteRule) (write : Bool) (units : List RouteUnit) (s : ReadCounters) :
    (units.mapM (rw.decorated write) s).1.map (·.unit) = (units.mapM (rw.decorateUnit write) s).1 ∧
      (units.mapM (rw.decorated write) s).2 = (units.mapM (rw.decorateUnit write) s).2 := by
  induction units generalizing s with
  | nil => exact ⟨rfl, rfl⟩
  | cons u units ih =>
    obtain ⟨hunits, hstate⟩ := ih (rw.decorateUnit write u s).2
    rw [mapM_cons_apply, mapM_cons_apply]
    exact ⟨congrArg ((rw.decorateUnit write u s).1 :: ·) hunits, hstate⟩

/-- The router answers with the decorated units, each once, also where it makes the route. -/
theorem decorate_eq_decorations (hrw : rw.WellKeyed) (route : Route) (query : Query) (s : ReadCounters) :
    (rw.decorate route query s).1.units = distinct ((rw.decorations (route, query) s).1.map (·.unit)) ∧
      (rw.decorate route query s).2 = (rw.decorations (route, query) s).2 := by
  obtain ⟨hunits, hstate⟩ := mapM_decorated rw (isWrite query) (rw.asked route) s
  unfold decorations
  dsimp only
  rw [hunits, hstate]
  by_cases hempty : route.isEmpty = true
  · rw [decorate, if_pos hempty, asked, if_pos hempty, create]
    cases hgroups : rw.groups.values with
    | nil => exact ⟨rfl, rfl⟩
    | cons g groups =>
      cases groups with
      | cons => exact ⟨rfl, rfl⟩
      | nil =>
        obtain ⟨e, he, rfl⟩ := List.mem_map.1 (hgroups ▸ List.mem_singleton_self g)
        have hg : rw.group? (RouteUnit.ofSource e.2.name).source.logic = some e.2 := by
          have hentry : (e.2.key, e.2) = e := Prod.ext (hrw e he).symm rfl
          rw [group?, NameMap.get?_eq_some]
          exact hentry.symm ▸ he
        rw [mapM_cons_apply, decorateUnit_group s _ hg]
        exact ⟨rfl, rfl⟩
  · rw [decorate, if_neg hempty, asked, if_neg hempty]
    exact ⟨rfl, rfl⟩

/-- What the router answers to statements one after another. -/
def serve (rw : ReadwriteRule) (statements : List (Route × Query)) : StateM ReadCounters (List Route) :=
  statements.mapM fun statement => rw.decorate statement.1 statement.2

theorem serve_eq_decorations (hrw : rw.WellKeyed) (statements : List (Route × Query)) (s : ReadCounters) :
    List.Forall₂ (fun units route => route.units = distinct (units.map (·.unit)))
        (statements.mapM rw.decorations s).1 (rw.serve statements s).1 ∧
      (rw.serve statements s).2 = (statements.mapM rw.decorations s).2 := by
  induction statements generalizing s with
  | nil => exact ⟨.nil, rfl⟩
  | cons statement statements ih =>
    obtain ⟨hunits, hstate⟩ := decorate_eq_decorations hrw statement.1 statement.2 s
    obtain ⟨hrest, hend⟩ := ih (rw.decorations statement s).2
    rw [serve, mapM_cons_apply, mapM_cons_apply, hstate]
    exact ⟨.cons hunits hrest, hend⟩

end ReadwriteRule

/-! ### Even shares -/

theorem countP_range (p : Nat → Prop) [DecidablePred p] (m : Nat) :
    (List.range m).countP p = Nat.count p m := by
  induction m with
  | zero => rfl
  | succ m ih => rw [List.range_succ, List.countP_append, ih, Nat.count_succ, List.countP_singleton]; simp

/-- Counting up, no remainder is met more than once more often than another. -/
theorem count_mod_le {n i j : Nat} (hi : i < n) (hj : j < n) (m : Nat) :
    Nat.count (· % n = i) m ≤ Nat.count (· % n = j) m + 1 := by
  have hcount : ∀ i < n, Nat.count (· % n = i) m = m / n + if i % n < m % n then 1 else 0 := by
    intro i hi
    rw [← Nat.count_modEq_card m (Nat.zero_lt_of_lt hi) i]
    simp only [Nat.ModEq, Nat.mod_eq_of_lt hi]
  rw [hcount i hi, hcount j hj]
  split <;> split <;> omega

/-- The picks go round the units. -/
structure GoRound (units picks : List String) : Prop where
  turn : ∀ k < picks.length, picks[k]? = units[k % units.length]?
  /-- Of the first `m` picks two units have even shares. -/
  even : ∀ m i j, i < units.length → j < units.length →
    Nat.count (· % units.length = i) m ≤ Nat.count (· % units.length = j) m + 1
  evenNames : units.Nodup → ∀ m, ∀ a ∈ units, ∀ b ∈ units,
    (picks.take m).count a ≤ (picks.take m).count b + 1

theorem goRound_of_turn {units picks : List String} (hne : units ≠ [])
    (h : ∀ k < picks.length, picks[k]? = units[k % units.length]?) : GoRound units picks := by
  have hmod : ∀ k, k % units.length < units.length := fun k => Nat.mod_lt _ (List.length_pos_iff.2 hne)
  refine ⟨h, fun m i j hi hj => count_mod_le hi hj m, fun hnodup m a ha b hb => ?_⟩
  have hall : picks = (List.range picks.length).map fun k => units.get ⟨k % units.length, hmod k⟩ := by
    refine List.ext_getElem? fun k => ?_
    rw [List.getElem?_map]
    by_cases hk : k < picks.length
    · rw [h k hk, List.getElem?_range hk, List.getElem?_eq_getElem (hmod k)]
      rfl
    · rw [List.getElem?_eq_none (Nat.le_of_not_lt hk), List.getElem?_eq_none (by simpa using hk)]
      rfl
  have hpicks : picks.take m =
      (List.range (min m picks.length)).map fun k => units.get ⟨k % units.length, hmod k⟩ := by
    conv_lhs => rw [hall]
    rw [← List.map_take, List.take_range]
  have hcount : ∀ i (hi : i < units.length),
      (picks.take m).count units[i] = Nat.count (· % units.length = i) (min m picks.length) := by
    intro i hi
    rw [hpicks, List.count, List.countP_map, ← countP_range]
    refine List.countP_congr fun k _ => ?_
    simp [hnodup.getElem_inj_iff]
  obtain ⟨i, hi, rfl⟩ := List.mem_iff_getElem.1 ha
  obtain ⟨j, hj, rfl⟩ := List.mem_iff_getElem.1 hb
  rw [hcount i hi, hcount j hj]
  exact count_mod_le hi hj _

open ReadwriteRule

/-- A rule of any groups after any statements, some with a route and some without: the router answered with the
decorated units; and a group that takes turns picked for its reads round its read units, however many other units,
writes and other groups came in between, and its position is the number of these picks. -/
theorem reads_take_turns (groups : List ReadwriteGroup) (statements : List (Route × Query)) :
    let rw := ofGroups groups
    let history := (statements.mapM rw.decorations ∅).1
    (∀ query, rw.create query = rw.decorate .empty query) ∧
      List.Forall₂ (fun units route => route.units = distinct (units.map (·.unit))) history
        (rw.serve statements ∅).1 ∧
      ∀ name g, rw.group? name = some g → g.balancer = .roundRobin → g.readUnits ≠ [] →
        (rw.picks g history.flatten).length ≤ 2 ^ 64 →
          GoRound g.readUnits (rw.picks g history.flatten) ∧
          position (rw.serve statements ∅).2 g = UInt64.ofNat (rw.picks g history.flatten).length := by
  intro rw history
  have hrw : rw.WellKeyed := wellKeyed_ofGroups groups
  obtain ⟨hunits, hstate⟩ := serve_eq_decorations hrw statements ∅
  refine ⟨fun query => rfl, hunits, fun name g hg hbalancer hne hfew => ?_⟩
  have honTurn := (onTurn_nil rw g).statements hrw hg ⟨hbalancer, hne⟩ statements
  rw [List.nil_append] at honTurn
  exact ⟨goRound_of_turn hne (honTurn.turn hfew), by rw [hstate, honTurn.position]⟩

/-- Orders with two replicas in turn, and a log with one. -/
def ordersGroup : ReadwriteGroup := ⟨"ds", "primary", ["replica_0", "replica_1"], .roundRobin⟩

def ordersAndLog : List ReadwriteGroup := [ordersGroup, ⟨"log", "log_primary", ["log_replica"], .first⟩]

def readsOn (sources : List String) : Route := ⟨sources.map RouteUnit.ofSource, [], []⟩

/-- A read of both groups, in other letters, a write, and another read. -/
def mixedReads : List (Route × Query) :=
  [(readsOn ["DS", "log", "other"], ⟨"SELECT 1", .of .select ["t_order"], [], .none⟩),
    (readsOn ["ds"], ⟨"UPDATE t_order SET paid = 1", .of .update ["t_order"], [], .none⟩),
    (readsOn ["ds", "Ds"], ⟨"SELECT 2", .of .select ["t_order"], [], .none⟩)]

set_option maxRecDepth 20000 in
theorem reads_take_turns_mixed :
    let rw := ofGroups ordersAndLog
    let history := (mixedReads.mapM rw.decorations ∅).1
    rw.group? "DS" = some ordersGroup ∧ ordersGroup.balancer = .roundRobin ∧ ordersGroup.readUnits ≠ [] ∧
      rw.picks ordersGroup history.flatten = ["replica_0", "replica_1", "replica_0"] ∧
      (rw.picks ordersGroup history.flatten).length ≤ 2 ^ 64 ∧
      GoRound ordersGroup.readUnits ["replica_0", "replica_1", "replica_0"] ∧
      position (rw.serve mixedReads ∅).2 ordersGroup = 3 := by
  intro rw history
  have hgroup : rw.group? "DS" = some ordersGroup := by decide +kernel
  have hne : ordersGroup.readUnits ≠ [] := List.cons_ne_nil _ _
  have hpicks : rw.picks ordersGroup history.flatten = ["replica_0", "replica_1", "replica_0"] := by
    decide +kernel
  have hfew : (rw.picks ordersGroup history.flatten).length ≤ 2 ^ 64 := by
    rw [hpicks]
    decide
  have hturns := (reads_take_turns ordersAndLog mixedReads).2.2 "DS" ordersGroup hgroup rfl hne hfew
  rw [hpicks] at hturns
  exact ⟨hgroup, rfl, hne, hpicks, hfew, hturns.1, hturns.2⟩

end ShardedSql
