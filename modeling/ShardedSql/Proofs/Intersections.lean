import ShardedSql.Proofs.Cuts
import Mathlib.Order.Interval.Set.Basic

/-! Constraints as sets of values. A bound allows one of the rays of the order in which null, truth values,
integers and strings come one after the other, a range allows what both of its bounds do, and intersecting
constraints intersects these sets. Ranges meet the same way round or the other, and the range without
bounds takes nothing away. -/

namespace ShardedSql

/-- What a lower bound allows. -/
def Bound.above : Bound → Set Value
  | .unbounded => Set.univ
  | .included v => Set.Ici v
  | .excluded v => Set.Ioi v

/-- What an upper bound allows. -/
def Bound.below : Bound → Set Value
  | .unbounded => Set.univ
  | .included v => Set.Iic v
  | .excluded v => Set.Iio v

def ValueRange.values (r : ValueRange) : Set Value := r.lower.above ∩ r.upper.below

def Constraint.values : Constraint → Set Value
  | .list values => {v | v ∈ values}
  | .range r => r.values

theorem Bound.mem_above {b : Bound} {v : Value} : v ∈ b.above ↔ b.allowsAbove v = true := by
  cases b with
  | unbounded => exact iff_of_true trivial rfl
  | included w => exact Value.le_iff.symm
  | excluded w => exact Value.lt_iff.symm

theorem Bound.mem_below {b : Bound} {v : Value} : v ∈ b.below ↔ b.allowsBelow v = true := by
  cases b with
  | unbounded => exact iff_of_true trivial rfl
  | included w => exact Value.le_iff.symm
  | excluded w => exact Value.lt_iff.symm

theorem ValueRange.mem_values {r : ValueRange} {v : Value} : v ∈ r.values ↔ r.contains v = true := by
  rw [values, Set.mem_inter_iff, Bound.mem_above, Bound.mem_below, contains, Bool.and_eq_true]

theorem Constraint.mem_values {k : Constraint} {v : Value} : v ∈ k.values ↔ k.admits v = true := by
  cases k with
  | list values => exact (admits_list values v).symm
  | range r => exact ValueRange.mem_values

namespace ValueRange

theorem both_all (r : ValueRange) : both r all = r :=
  eq_of_cuts (by rw [both, floor_tighter]; exact max_bot_right _)
    (by rw [both, ceiling_tighter]; exact min_top_right _)

/-- The range without bounds leaves every range that is not empty as it is. -/
theorem intersect_all (r : ValueRange) : r.intersect all = if r.isEmpty then none else some r := by
  rw [intersect_eq, both_all]

end ValueRange

open ValueRange in
/-- Two constraints intersect in a constraint on just the values that both admit, or in none where none is
left. Of two ranges it does not matter which one is intersected with the other, and the range without
bounds is neutral but for the ranges that are empty. -/
theorem intersections_exact (k l : Constraint) (r s : ValueRange) :
    (∀ v, k.admits v = true ↔ v ∈ k.values) ∧
    (∀ v, k.admits v = true ∧ l.admits v = true ↔
      ∃ c, k.intersect l = some c ∧ c.admits v = true) ∧
    (r.intersect s = s.intersect r ∧
      (Constraint.range r).intersect (.range s) = (Constraint.range s).intersect (.range r)) ∧
    r.intersect all = (if r.isEmpty then none else some r) ∧
    all.intersect r = if r.isEmpty then none else some r := by
  have hcomm : r.intersect s = s.intersect r := r.intersect_comm s
  refine ⟨fun v => Constraint.mem_values.symm, fun v => (Constraint.admits_intersect k l v).symm,
    ⟨hcomm, ?_⟩, r.intersect_all, ?_⟩
  · rw [Constraint.intersect, Constraint.intersect, hcomm]
  · rw [ValueRange.intersect_comm, intersect_all]

/-- Strings come behind all integers, and null comes before them. -/
example : (Constraint.range ⟨.excluded (.int 3), .unbounded⟩).intersect
    (.list [.null, .int 3, .int 4, .str ""]) = some (.list [.int 4, .str ""]) := by rfl

end ShardedSql
