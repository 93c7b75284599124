import ShardedSql.Proofs.Preparing

/-! The units of a data source are cut into as few groups as the budget allows. No group is empty or holds
more than the budget, and the groups are as even as they can be, the larger ones first. -/

namespace ShardedSql

namespace Preparation

variable {α : Type}

theorem map_length_cut {sizes : List Nat} {items : List α} (h : items.length = sizes.sum) :
    (cut sizes items).map List.length = sizes := by
  induction sizes generalizing items with
  | nil => rfl
  | cons size sizes ih =>
    rw [List.sum_cons] at h
    have hrest : (items.drop size).length = sizes.sum := by
      rw [List.length_drop]
      omega
    rw [cut, List.map_cons, ih hrest, List.length_take, Nat.min_eq_left (by omega)]

theorem map_length_partition (items : List α) (budget : Nat) :
    (partition items budget).map List.length =
      sizes items.length (groupCount items.length (max budget 1)) := by
  by_cases h : items = []
  · have hcount : groupCount 0 (max budget 1) = 0 := Nat.div_eq_of_lt (by omega)
    rw [h, partition_nil, List.length_nil, hcount]
    rfl
  · exact map_length_cut (sizes_partition h budget).1.symm

theorem length_partition (items : List α) (budget : Nat) :
    (partition items budget).length = groupCount items.length (max budget 1) := by
  have h := congrArg List.length (map_length_partition items budget)
  simpa [sizes] using h

/-- So many groups hold the items just when their places do. -/
theorem groupCount_le_iff {total budget : Nat} (h : 0 < budget) (count : Nat) :
    groupCount total budget ≤ count ↔ total ≤ count * budget := by
  rw [groupCount, ← Nat.lt_succ_iff, Nat.div_lt_iff_lt_mul h, Nat.succ_mul]
  omega

theorem groupCount_eq_ceil (total : Nat) {budget : Nat} (h : 0 < budget) :
    groupCount total budget = ⌈(total : ℚ) / budget⌉₊ := by
  refine eq_of_forall_ge_iff fun count => ?_
  have hpos : (0 : ℚ) < budget := Nat.cast_pos.2 h
  rw [groupCount_le_iff h, Nat.ceil_le, div_le_iff₀ hpos]
  norm_cast

theorem le_of_mem_sizes {total budget size : Nat} (h : 0 < budget)
    (hsize : size ∈ sizes total (groupCount total budget)) : size ≤ budget := by
  obtain ⟨i, hi, rfl⟩ := List.mem_map.1 hsize
  have hcount : 0 < groupCount total budget := Nat.zero_lt_of_lt (List.mem_range.1 hi)
  have hfits : total ≤ groupCount total budget * budget := (groupCount_le_iff h _).1 le_rfl
  have hbase : total / groupCount total budget ≤ budget :=
    Nat.div_le_of_le_mul hfits
  split
  · -- a remainder leaves room below the budget
    rename_i hlt
    have hne : total / groupCount total budget ≠ budget := by
      intro heq
      have hsplit := Nat.div_add_mod total (groupCount total budget)
      rw [heq] at hsplit
      omega
    omega
  · omega

theorem sizes_even (total count : Nat) :
    (sizes total count).Pairwise fun earlier later => later ≤ earlier ∧ earlier ≤ later + 1 := by
  rw [sizes, List.pairwise_map]
  refine List.pairwise_lt_range.imp fun {i j} hlt => ?_
  split <;> split <;> omega

end Preparation

open Preparation in
/-- There are as many groups as the items divided by the budget, rounded up. They hold the items in their
order, each group at least one and at most the budget, and never more than a group before it, which holds at
most one more. The mode is `memoryStrictly` just when there is no second group. -/
theorem partition_within_budget {α : Type} (items : List α) (budget : Nat) :
    (partition items budget).length = ⌈(items.length : ℚ) / (max budget 1 : ℕ)⌉₊ ∧
      (partition items budget).flatten = items ∧
      (∀ group ∈ partition items budget, 1 ≤ group.length ∧ group.length ≤ max budget 1) ∧
      (partition items budget).Pairwise (fun earlier later =>
        later.length ≤ earlier.length ∧ earlier.length ≤ later.length + 1) ∧
      (1 ≤ budget →
        (mode items.length budget = .memoryStrictly ↔ (partition items budget).length ≤ 1)) := by
  have hpos : 0 < max budget 1 := by omega
  refine ⟨?_, flatten_partition items budget, ?_, ?_, ?_⟩
  · rw [length_partition, groupCount_eq_ceil _ hpos]
  · intro group hgroup
    have hsize : group.length ∈ sizes items.length (groupCount items.length (max budget 1)) :=
      map_length_partition items budget ▸ List.mem_map_of_mem hgroup
    exact ⟨List.length_pos_iff.2 (ne_nil_of_mem_partition hgroup), le_of_mem_sizes hpos hsize⟩
  · have heven := sizes_even items.length (groupCount items.length (max budget 1))
    rw [← map_length_partition items budget] at heven
    exact List.pairwise_map.1 heven
  · intro hbudget
    rw [length_partition, groupCount_le_iff hpos, Nat.one_mul, Nat.max_eq_left hbudget]
    by_cases h : items.length ≤ budget <;> simp [mode, h]

open Preparation in
theorem partition_within_budget_ten :
    (partition (List.range 10) 3).map List.length = [3, 3, 2, 2] ∧
      (1 ≤ 3 ∧ (mode (List.range 10).length 3 = .memoryStrictly ↔
        (partition (List.range 10) 3).length ≤ 1)) :=
  ⟨by decide, by decide, (partition_within_budget (List.range 10) 3).2.2.2.2 (by decide)⟩

end ShardedSql
