import ShardedSql.Execution.Preparation
import ShardedSql.Proofs.Distinct
import ShardedSql.Proofs.Success

/-! Preparation loses no unit: the parts of a list make the list, none of them is empty, and with
enough connections every part becomes a group on a connection of its own. -/

namespace ShardedSql

namespace Preparation

section Partition

variable {α : Type}

theorem flatten_cut {sizes : List Nat} {items : List α} (h : items.length = sizes.sum) :
    (cut sizes items).flatten = items := by
  induction sizes generalizing items with
  | nil =>
    simp only [List.sum_nil, List.length_eq_zero_iff] at h
    simp [cut, h]
  | cons size sizes ih =>
    simp only [List.sum_cons] at h
    have hrest : (items.drop size).length = sizes.sum := by
      rw [List.length_drop]
      omega
    simp [cut, ih hrest]

theorem ne_nil_of_mem_cut {sizes : List Nat} {items : List α} (h : items.length = sizes.sum)
    (hsizes : ∀ size ∈ sizes, 0 < size) {part : List α} (hpart : part ∈ cut sizes items) :
    part ≠ [] := by
  induction sizes generalizing items with
  | nil => simp [cut] at hpart
  | cons size sizes ih =>
    simp only [List.sum_cons] at h
    have hsize := hsizes size List.mem_cons_self
    rcases List.mem_cons.1 hpart with rfl | hpart
    · intro hnil
      have hlength := congrArg List.length hnil
      simp only [List.length_take, List.length_nil] at hlength
      omega
    · apply ih _ (fun size hmem => hsizes size (List.mem_cons_of_mem _ hmem)) hpart
      rw [List.length_drop]
      omega

theorem sum_uneven (count base larger : Nat) :
    ((List.range count).map fun i => base + if i < larger then 1 else 0).sum =
      count * base + min count larger := by
  induction count with
  | zero => simp
  | succ count ih =>
    rw [List.range_succ, List.map_append, List.sum_append, ih, Nat.add_mul]
    simp only [List.map_cons, List.map_nil, List.sum_cons, List.sum_nil]
    split <;> omega

theorem sum_sizes (total : Nat) {count : Nat} (h : 0 < count) : (sizes total count).sum = total := by
  have hlt := Nat.mod_lt total h
  rw [sizes, sum_uneven, Nat.min_eq_right hlt.le]
  exact Nat.div_add_mod total count

theorem pos_of_mem_sizes {total count size : Nat} (h : 0 < count) (hle : count ≤ total)
    (hsize : size ∈ sizes total count) : 0 < size := by
  obtain ⟨i, -, rfl⟩ := List.mem_map.1 hsize
  have hpos : 0 < total / count := Nat.div_pos hle h
  omega

theorem groupCount_pos {total budget : Nat} (htotal : 0 < total) (hbudget : 0 < budget) :
    0 < groupCount total budget :=
  Nat.div_pos (by omega) hbudget

theorem groupCount_le {total budget : Nat} (htotal : 0 < total) (hbudget : 0 < budget) :
    groupCount total budget ≤ total := by
  apply Nat.div_le_of_le_mul
  have hle : (total - 1) + (budget - 1) + 1 ≤ budget * total := by
    obtain ⟨t, rfl⟩ : ∃ t, total = t + 1 := ⟨total - 1, by omega⟩
    obtain ⟨b, rfl⟩ : ∃ b, budget = b + 1 := ⟨budget - 1, by omega⟩
    have hprod : (b + 1) * (t + 1) = b * t + t + b + 1 := by ring
    omega
  omega

theorem partition_nil (budget : Nat) : partition ([] : List α) budget = [] := by
  have hcount : groupCount 0 (max budget 1) = 0 := Nat.div_eq_of_lt (by omega)
  simp [partition, hcount, sizes, cut]

/-- The parts of a list that is not empty: their sizes make up the list, and none is zero. -/
theorem sizes_partition {items : List α} (h : items ≠ []) (budget : Nat) :
    let sizes := sizes items.length (groupCount items.length (max budget 1))
    sizes.sum = items.length ∧ ∀ size ∈ sizes, 0 < size := by
  have hlength := List.length_pos_iff.2 h
  have hcount := groupCount_pos hlength (show 0 < max budget 1 by omega)
  have hle := groupCount_le hlength (show 0 < max budget 1 by omega)
  exact ⟨sum_sizes _ hcount, fun size => pos_of_mem_sizes hcount hle⟩

theorem flatten_partition (items : List α) (budget : Nat) : (partition items budget).flatten = items := by
  by_cases h : items = []
  · rw [h, partition_nil]
    rfl
  · exact flatten_cut (sizes_partition h budget).1.symm

theorem ne_nil_of_mem_partition {items : List α} {budget : Nat} {part : List α}
    (hpart : part ∈ partition items budget) : part ≠ [] := by
  by_cases h : items = []
  · rw [h, partition_nil] at hpart
    cases hpart
  · obtain ⟨hsum, hpos⟩ := sizes_partition h budget
    exact ne_nil_of_mem_cut hsum.symm hpos hpart

end Partition

section Sources

variable {ω C : Type} {provider : Provider ω C} {budget : Nat} {units : List ExecutionUnit}

/-- The parts of the units of a data source as groups, the k-th on the k-th connection. -/
def bound (budget : Nat) (units : List ExecutionUnit) (connections : List C) : List (List (BoundUnit C)) :=
  ((partition units budget).zip connections).map fun (part, connection) =>
    part.map fun unit => ⟨unit, mode units.length budget, connection⟩

/-- The connections that preparation asks a data source for. -/
def ask (provider : Provider ω C) (budget : Nat) (dataSource : String) (units : List ExecutionUnit) :
    ExceptT ExecutionError (StateM (Session ω)) (List C) :=
  provider dataSource (partition units budget).length (mode units.length budget)

/-- A provider that gives as many connections as it is asked for, or more. -/
def Supplies (provider : Provider ω C) : Prop :=
  ∀ dataSource count mode s, ∃ connections s', provider dataSource count mode s = (.ok connections, s') ∧
    count ≤ connections.length

theorem onSource_eq {dataSource : String} {s s' : Session ω} {connections : List C}
    (h : ask provider budget dataSource units s = (.ok connections, s'))
    (hle : (partition units budget).length ≤ connections.length) :
    onSource provider budget dataSource units s = (.ok (bound budget units connections), s') := by
  rw [onSource, run_bind]
  rw [ask] at h
  rw [h]
  simp only
  rw [if_neg (by omega)]
  rfl

theorem flatten_bound {connections : List C}
    (hle : (partition units budget).length ≤ connections.length) :
    (bound budget units connections).flatten.map (·.unit) = units := by
  have hparts : (bound budget units connections).map (List.map (·.unit)) = partition units budget := by
    rw [bound, List.map_map]
    refine Eq.trans (List.map_congr_left fun part _ => ?_) (List.map_fst_zip hle)
    simp [Function.comp_def]
  rw [List.map_flatten, hparts, flatten_partition]

theorem getElem?_bound {connections : List C} {k : Nat} {group : List (BoundUnit C)}
    (h : (bound budget units connections)[k]? = some group) : ∃ part connection,
      part ∈ partition units budget ∧ connections[k]? = some connection ∧
        group = part.map fun unit => ⟨unit, mode units.length budget, connection⟩ := by
  rw [bound, List.getElem?_map, Option.map_eq_some_iff] at h
  obtain ⟨⟨part, connection⟩, hk, rfl⟩ := h
  obtain ⟨hpart, hconnection⟩ := List.getElem?_zip_eq_some.1 hk
  exact ⟨part, connection, List.mem_of_getElem? hpart, hconnection, rfl⟩

theorem mem_bound {connections : List C} {group : List (BoundUnit C)}
    (h : group ∈ bound budget units connections) : group ≠ [] ∧ (group.map (·.unit)).Sublist units ∧
      ∃ connection, ∀ b ∈ group, b.connection = connection := by
  obtain ⟨k, hk⟩ := List.mem_iff_getElem?.1 h
  obtain ⟨part, connection, hpart, -, rfl⟩ := getElem?_bound hk
  refine ⟨by simpa using ne_nil_of_mem_partition hpart, ?_, connection, by simp⟩
  have hsub := List.sublist_flatten_of_mem hpart
  rw [flatten_partition] at hsub
  simpa [Function.comp_def] using hsub

/-- With a provider that supplies enough, preparation asks each data source once for connections and
binds its units to them. -/
theorem prepare_eq (hprovider : Supplies provider) (budget : Nat) (route : Route)
    (units : List ExecutionUnit) (report : Report) (s : Session ω) :
    ∃ (asked : List ((String × List ExecutionUnit) × List C)) (s' : Session ω),
      asked.map (·.1) = groupOn ExecutionUnit.dataSource units ∧
      (∀ a ∈ asked, (partition a.1.2 (max budget 1)).length ≤ a.2.length) ∧
      (groupOn ExecutionUnit.dataSource units).mapM
        (fun source => ask provider (max budget 1) source.1 source.2) s =
          (.ok (asked.map (·.2)), s') ∧
      prepare provider budget [] route units report s =
        (.ok ⟨asked.flatMap fun a => bound (max budget 1) a.1.2 a.2, report⟩, s') := by
  obtain ⟨asked, s', hasked, hle, hask, hsource⟩ := run_mapM_pairs
    (f := fun source : String × List ExecutionUnit => ask provider (max budget 1) source.1 source.2)
    (g := fun source => onSource provider (max budget 1) source.1 source.2)
    (h := fun source connections => bound (max budget 1) source.2 connections)
    (R := fun source connections => (partition source.2 (max budget 1)).length ≤ connections.length)
    (by
      intro source s
      obtain ⟨connections, s', hsupplied, hle⟩ := hprovider source.1
        (partition source.2 (max budget 1)).length (mode source.2.length (max budget 1)) s
      exact ⟨connections, s', hsupplied, onSource_eq hsupplied hle, hle⟩)
    (groupOn ExecutionUnit.dataSource units) s
  refine ⟨asked, s', hasked, hle, hask, ?_⟩
  rw [prepare, run_bind_eq_ok]
  refine ⟨_, s', hsource, ?_⟩
  rw [List.flatMap_def]
  rfl

end Sources

/-- The groups of a data source, in their order. -/
def groupsOf {C : Type} (dataSource : String) (groups : List (List (BoundUnit C))) :
    List (List (BoundUnit C)) :=
  groups.filter fun group => group.any (·.unit.dataSource == dataSource)

/-- The units are dealt out to groups on the connections that were supplied for their data sources. -/
structure Deals {C : Type} (units : List ExecutionUnit) (supplied : List (String × List C))
    (groups : List (List (BoundUnit C))) : Prop where
  /-- Connections were supplied once for each data source. -/
  sources : supplied.map (·.1) = distinct (units.map (·.dataSource))
  /-- Every unit is in one group, as often as it occurs. -/
  once : (groups.flatten.map (·.unit)).Perm units
  nonempty : ∀ group ∈ groups, group ≠ []
  source : ∀ group ∈ groups, ∃ dataSource, ∀ b ∈ group, b.unit.dataSource = dataSource
  arrival : ∀ group ∈ groups, (group.map (·.unit)).Sublist units
  /-- The k-th group of a data source is on the k-th connection supplied for it. -/
  connection : ∀ dataSource connections, (dataSource, connections) ∈ supplied →
    ∀ (k : Nat) (group : List (BoundUnit C)), (groupsOf dataSource groups)[k]? = some group →
      ∃ connection, connections[k]? = some connection ∧ ∀ b ∈ group, b.connection = connection
  complete : ∀ dataSource, (groupsOf dataSource groups).flatten.map (·.unit) =
    units.filter (·.dataSource == dataSource)

section Deals

variable {C : Type} {budget : Nat} {units : List ExecutionUnit}
  {asked : List ((String × List ExecutionUnit) × List C)}

/-- Where the keys differ, only the element of the key counts. -/
theorem flatMap_of_key {α β κ : Type} {key : α → κ} {f : α → List β} {l : List α} {a : α}
    (hkeys : (l.map key).Nodup) (ha : a ∈ l) (hne : ∀ b ∈ l, key b ≠ key a → f b = []) :
    l.flatMap f = f a := by
  induction l with
  | nil => cases ha
  | cons c l ih =>
    rw [List.map_cons, List.nodup_cons] at hkeys
    rw [List.flatMap_cons]
    rcases List.mem_cons.1 ha with rfl | ha
    · have hrest : l.flatMap f = [] := by
        apply List.flatMap_eq_nil_iff.2
        intro b hb
        apply hne b (List.mem_cons_of_mem _ hb)
        intro h
        exact hkeys.1 (h ▸ List.mem_map_of_mem hb)
      rw [hrest, List.append_nil]
    · have hc : f c = [] := by
        apply hne c List.mem_cons_self
        intro h
        exact hkeys.1 (h ▸ List.mem_map_of_mem ha)
      rw [hc, List.nil_append]
      exact ih hkeys.2 ha fun b hb => hne b (List.mem_cons_of_mem _ hb)

theorem flatten_asked (hle : ∀ a ∈ asked, (partition a.1.2 budget).length ≤ a.2.length) :
    (asked.flatMap fun a => bound budget a.1.2 a.2).flatten.map (·.unit) =
      asked.flatMap (·.1.2) := by
  induction asked with
  | nil => rfl
  | cons a asked ih =>
    rw [List.flatMap_cons, List.flatten_append, List.map_append, List.flatMap_cons,
      flatten_bound (hle a List.mem_cons_self), ih fun b hb => hle b (List.mem_cons_of_mem _ hb)]

variable (hasked : asked.map (·.1) = groupOn ExecutionUnit.dataSource units)
include hasked

theorem members_eq {a : (String × List ExecutionUnit) × List C} (ha : a ∈ asked) :
    a.1.2 = units.filter (·.dataSource == a.1.1) := by
  have hmem : a.1 ∈ groupOn ExecutionUnit.dataSource units := hasked ▸ List.mem_map_of_mem ha
  obtain ⟨dataSource, -, hsource⟩ := List.mem_map.1 hmem
  rw [← hsource]

theorem sources_eq : asked.map (·.1.1) = distinct (units.map (·.dataSource)) := by
  have h := congrArg (List.map (·.1)) hasked
  simpa [groupOn, Function.comp_def] using h

theorem source_of_mem_bound {a : (String × List ExecutionUnit) × List C} (ha : a ∈ asked)
    {group : List (BoundUnit C)} (hgroup : group ∈ bound budget a.1.2 a.2) :
    ∀ b ∈ group, b.unit.dataSource = a.1.1 := by
  intro b hb
  have hunit := (mem_bound hgroup).2.1.subset (List.mem_map_of_mem hb)
  rw [members_eq hasked ha] at hunit
  simpa using (List.mem_filter.1 hunit).2

theorem groupsOf_bound {a : (String × List ExecutionUnit) × List C} (ha : a ∈ asked)
    (dataSource : String) :
    groupsOf dataSource (bound budget a.1.2 a.2) =
      if a.1.1 = dataSource then bound budget a.1.2 a.2 else [] := by
  split
  · rename_i heq
    apply List.filter_eq_self.2
    intro group hgroup
    obtain ⟨b, hb⟩ := List.exists_mem_of_ne_nil _ (mem_bound hgroup).1
    simp only [List.any_eq_true, beq_iff_eq]
    exact ⟨b, hb, (source_of_mem_bound hasked ha hgroup b hb).trans heq⟩
  · rename_i hne
    apply List.filter_eq_nil_iff.2
    intro group hgroup
    simp only [List.any_eq_true, beq_iff_eq, not_exists, not_and]
    intro b hb heq
    exact hne ((source_of_mem_bound hasked ha hgroup b hb).symm.trans heq)

theorem groupsOf_asked {a : (String × List ExecutionUnit) × List C} (ha : a ∈ asked) :
    groupsOf a.1.1 (asked.flatMap fun a => bound budget a.1.2 a.2) = bound budget a.1.2 a.2 := by
  have hkeys : (asked.map (·.1.1)).Nodup := by
    rw [sources_eq hasked]
    exact nodup_distinct _
  rw [groupsOf, List.filter_flatMap]
  refine (flatMap_of_key hkeys ha ?_).trans ?_
  · intro b hb hne
    exact (groupsOf_bound hasked hb _).trans (if_neg hne)
  · exact (groupsOf_bound hasked ha _).trans (if_pos rfl)

theorem groupsOf_unasked {dataSource : String}
    (h : ∀ unit ∈ units, unit.dataSource ≠ dataSource) :
    groupsOf dataSource (asked.flatMap fun a => bound budget a.1.2 a.2) = [] := by
  rw [groupsOf, List.filter_flatMap, List.flatMap_eq_nil_iff]
  intro a ha
  refine (groupsOf_bound hasked ha _).trans (if_neg ?_)
  have hsource : a.1.1 ∈ distinct (units.map (·.dataSource)) :=
    sources_eq hasked ▸ List.mem_map_of_mem ha
  obtain ⟨unit, hunit, hname⟩ := List.mem_map.1 (mem_distinct.1 hsource)
  rw [← hname]
  exact h unit hunit

/-- What preparation asks for and binds deals out the units. -/
theorem deals_of_asked
    (hle : ∀ a ∈ asked, (partition a.1.2 budget).length ≤ a.2.length) :
    Deals units (asked.map fun a => (a.1.1, a.2))
      (asked.flatMap fun a => bound budget a.1.2 a.2) where
  sources := by
    rw [List.map_map]
    exact sources_eq hasked
  once := by
    have hflat : asked.flatMap (·.1.2) = ((asked.map (·.1)).map (·.2)).flatten := by
      rw [List.map_map, List.flatMap_def]
      rfl
    rw [flatten_asked hle, hflat, hasked]
    exact groupOn_perm _ _
  nonempty := by
    intro group hgroup
    obtain ⟨a, -, hgroup⟩ := List.mem_flatMap.1 hgroup
    exact (mem_bound hgroup).1
  source := by
    intro group hgroup
    obtain ⟨a, ha, hgroup⟩ := List.mem_flatMap.1 hgroup
    exact ⟨a.1.1, source_of_mem_bound hasked ha hgroup⟩
  arrival := by
    intro group hgroup
    obtain ⟨a, ha, hgroup⟩ := List.mem_flatMap.1 hgroup
    apply (mem_bound hgroup).2.1.trans
    rw [members_eq hasked ha]
    exact List.filter_sublist
  connection := by
    intro dataSource connections hsupplied k group hk
    obtain ⟨a, ha, heq⟩ := List.mem_map.1 hsupplied
    cases heq
    rw [groupsOf_asked hasked ha] at hk
    obtain ⟨part, connection, -, hconnection, rfl⟩ := getElem?_bound hk
    exact ⟨connection, hconnection, by simp⟩
  complete := by
    intro dataSource
    by_cases h : dataSource ∈ units.map (·.dataSource)
    · rw [← mem_distinct, ← sources_eq hasked] at h
      obtain ⟨a, ha, rfl⟩ := List.mem_map.1 h
      rw [groupsOf_asked hasked ha, flatten_bound (hle a ha)]
      exact members_eq hasked ha
    · have hnone : ∀ unit ∈ units, unit.dataSource ≠ dataSource := by
        intro unit hunit heq
        exact h (List.mem_map.2 ⟨unit, hunit, heq⟩)
      rw [groupsOf_unasked hasked hnone]
      symm
      simpa [List.filter_eq_nil_iff] using hnone

end Deals

end Preparation

end ShardedSql
