import ShardedSql.Constraint
import ShardedSql.Proofs.Distinct
import Mathlib.Tactic

/-! The values are linearly ordered, and a constraint means the set of values it admits:
intersecting two constraints admits what both admit, and finds nothing only where nothing is. -/

namespace ShardedSql

namespace Value

theorem isNull_iff {v : Value} : v.isNull = true ↔ v = null := by
  cases v <;> simp [isNull]

theorem compare_swap (a b : Value) : (compare a b).swap = compare b a := by
  cases a <;> cases b <;> first | rfl | exact Std.OrientedOrd.eq_swap.symm

theorem compare_eq_iff {a b : Value} : compare a b = .eq ↔ a = b := by
  constructor
  · intro h
    cases a <;> cases b <;> first
      | rfl
      | contradiction
      | exact congrArg _ (Std.LawfulEqOrd.eq_of_compare h)
      | exact congrArg _ (Int64.toInt_inj.1 (Std.LawfulEqOrd.eq_of_compare h))
  · rintro rfl
    have h := compare_swap a a
    cases hc : compare a a <;> simp_all

theorem isLE_trans {a b c : Value} (h : (compare a b).isLE) (h' : (compare b c).isLE) :
    (compare a c).isLE := by
  cases a <;> cases b <;> cases c <;> first
    | rfl
    | exact (Bool.false_ne_true h).elim
    | exact (Bool.false_ne_true h').elim
    | exact Std.TransOrd.isLE_trans h h'

theorem le_antisymm {a b : Value} (h : a.le b = true) (h' : b.le a = true) : a = b := by
  rw [le, ← compare_swap] at h'
  rw [le] at h
  rw [← compare_eq_iff]
  cases hc : compare a b
  · rw [hc] at h'
    contradiction
  · rfl
  · rw [hc] at h
    contradiction

instance : LinearOrder Value where
  le a b := a.le b = true
  lt a b := a.lt b = true
  le_refl a := by simp [le, compare_eq_iff.2 rfl]
  le_trans _ _ _ := isLE_trans
  lt_iff_le_not_ge a b := by
    have h := compare_swap a b
    simp only [lt, le, ← h]
    cases compare a b <;> simp
  le_antisymm _ _ := le_antisymm
  le_total a b := by
    have h := compare_swap a b
    simp only [le, ← h]
    cases compare a b <;> simp
  toDecidableLE a b := inferInstanceAs (Decidable (a.le b = true))
  toDecidableLT a b := inferInstanceAs (Decidable (a.lt b = true))
  toDecidableEq := inferInstance
  compare := compare
  compare_eq_compareOfLessAndEq a b := by
    have h := @compare_eq_iff a b
    show compare a b = if a.lt b = true then .lt else if a = b then .eq else .gt
    simp only [← h, lt]
    cases compare a b <;> simp

theorem le_iff {a b : Value} : a.le b = true ↔ a ≤ b := Iff.rfl

theorem lt_iff {a b : Value} : a.lt b = true ↔ a < b := Iff.rfl

theorem compare_lt_iff {a b : Value} : compare a b = .lt ↔ a < b := by
  rw [← lt_iff, lt]
  cases compare a b <;> simp

theorem compare_gt_iff {a b : Value} : compare a b = .gt ↔ b < a := by
  rw [← lt_iff, lt, ← compare_swap a b]
  cases compare a b <;> simp

end Value

namespace ValueRange

/-- `P` says what a bound allows. A bound on the preferred side of another one allows less, whether
or not its own value counts, so the tighter of two bounds allows what both allow. -/
theorem tighter_iff {prefer : Ordering} {P : Bound → Prop} (unbounded : P .unbounded)
    (weaken : ∀ x, P (.excluded x) → P (.included x))
    (left : ∀ x y, x.compare y = prefer → P (.included x) → P (.excluded y))
    (right : ∀ x y, x.compare y ≠ .eq → x.compare y ≠ prefer → P (.included y) → P (.excluded x))
    (a b : Bound) : P (tighter prefer a b) ↔ P a ∧ P b := by
  rcases a with _ | x | x <;> rcases b with _ | y | y
  all_goals try simp [tighter, unbounded]; done
  all_goals
    have hw := weaken x
    have hw' := weaken y
    have hl := left x y
    have hr := right x y
    simp only [tighter]
    cases hc : x.compare y
    case eq =>
      obtain rfl := Value.compare_eq_iff.1 hc
      grind
    all_goals grind

theorem allowsAbove_tighter (a b : Bound) (v : Value) :
    (tighter .gt a b).allowsAbove v = true ↔ a.allowsAbove v = true ∧ b.allowsAbove v = true := by
  refine tighter_iff (P := fun b => b.allowsAbove v = true) rfl (fun x h => ?_) (fun x y hc h => ?_)
    (fun x y hne hc h => ?_) a b
  · exact (Value.lt_iff.1 h).le
  · exact (Value.compare_gt_iff.1 hc).trans_le h
  · have hlt : x < y := by
      rw [← Value.compare_lt_iff]
      cases ho : x.compare y <;> simp_all
    exact hlt.trans_le h

theorem allowsBelow_tighter (a b : Bound) (v : Value) :
    (tighter .lt a b).allowsBelow v = true ↔ a.allowsBelow v = true ∧ b.allowsBelow v = true := by
  refine tighter_iff (P := fun b => b.allowsBelow v = true) rfl (fun x h => ?_) (fun x y hc h => ?_)
    (fun x y hne hc h => ?_) a b
  · exact (Value.lt_iff.1 h).le
  · exact (Value.le_iff.1 h).trans_lt (Value.compare_lt_iff.1 hc)
  · have hlt : y < x := by
      rw [← Value.compare_gt_iff]
      cases ho : x.compare y <;> simp_all
    exact (Value.le_iff.1 h).trans_lt hlt

/-- Bounds that cross leave no value between them. -/
theorem not_contains_of_isEmpty {r : ValueRange} (h : r.isEmpty = true) (v : Value) :
    r.contains v = false := by
  obtain ⟨lower, upper⟩ := r
  rw [Bool.eq_false_iff]
  intro hv
  simp only [contains, Bool.and_eq_true] at hv
  obtain ⟨hl, hu⟩ := hv
  rcases lower with _ | a | a <;> rcases upper with _ | b | b <;>
    simp only [isEmpty, Bool.false_eq_true, Bound.allowsAbove, Bound.allowsBelow, Value.le_iff,
      Value.lt_iff] at h hl hu <;> order

theorem contains_intersect (r s : ValueRange) (v : Value) :
    (∃ t, r.intersect s = some t ∧ t.contains v = true) ↔
      r.contains v = true ∧ s.contains v = true := by
  have hboth : (ValueRange.mk (tighter .gt r.lower s.lower) (tighter .lt r.upper s.upper)).contains v
      = true ↔ r.contains v = true ∧ s.contains v = true := by
    simp only [contains, Bool.and_eq_true, allowsAbove_tighter, allowsBelow_tighter]
    tauto
  rw [← hboth, intersect]
  split
  · rename_i h
    simp [not_contains_of_isEmpty h]
  · simp

end ValueRange

namespace Constraint

@[simp] theorem admits_list (values : List Value) (v : Value) :
    (list values).admits v = true ↔ v ∈ values := by simp [admits]

@[simp] theorem admits_range (r : ValueRange) (v : Value) :
    (range r).admits v = true ↔ r.contains v = true := Iff.rfl

@[simp] theorem admits_ofValues (values : List Value) (v : Value) :
    (ofValues values).admits v = true ↔ v ∈ values := by simp [ofValues]

theorem admits_listUnlessEmpty (values : List Value) (v : Value) :
    (∃ c, listUnlessEmpty values = some c ∧ c.admits v = true) ↔ v ∈ values := by
  unfold listUnlessEmpty
  cases values with
  | nil => simp
  | cons w ws => simp

/-- Intersecting finds nothing where no value is admitted by both. -/
theorem admits_intersect (a b : Constraint) (v : Value) :
    (∃ c, a.intersect b = some c ∧ c.admits v = true) ↔ a.admits v = true ∧ b.admits v = true := by
  rcases a with a | r <;> rcases b with b | s
  · simp [intersect, admits_listUnlessEmpty]
  · simp [intersect, admits_listUnlessEmpty]
  · simpa [intersect, and_comm] using admits_listUnlessEmpty (b.filter r.contains) v
  · rw [intersect]
    simp only [Option.map_eq_some_iff]
    constructor
    · rintro ⟨_, ⟨t, ht, rfl⟩, hv⟩
      exact (ValueRange.contains_intersect r s v).1 ⟨t, ht, hv⟩
    · intro h
      obtain ⟨t, ht, hv⟩ := (ValueRange.contains_intersect r s v).2 h
      exact ⟨range t, ⟨t, ht, rfl⟩, hv⟩

end Constraint

end ShardedSql
