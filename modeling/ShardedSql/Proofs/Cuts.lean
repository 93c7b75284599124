import ShardedSql.Proofs.Order
import Mathlib.Order.WithBot
import Mathlib.Data.Prod.Lex

/-! The order in which constraints are intersected does not matter. A bound cuts the values in two, the
tighter of two lower bounds is the greater cut, that of two upper bounds the lesser one, and a range is
empty just when its cuts cross; so ranges meet in the same range whatever the order. A list that has met
anything holds what all of them admit, in some order. -/

namespace ShardedSql

/-- A place between the values, or outside of all of them. -/
abbrev Cut := WithBot (WithTop (Value ×ₗ Bool))

/-- The place just before a value, or just behind it. -/
def cut (v : Value) (behind : Bool) : Cut :=
  ((toLex (v, behind) : Value ×ₗ Bool) : WithTop (Value ×ₗ Bool))

theorem cut_le_cut {v w : Value} {b c : Bool} : cut v b ≤ cut w c ↔ v < w ∨ v = w ∧ b ≤ c := by
  rw [cut, cut, WithBot.coe_le_coe, WithTop.coe_le_coe, Prod.Lex.toLex_le_toLex]

theorem cut_inj {v w : Value} {b c : Bool} : cut v b = cut w c ↔ v = w ∧ b = c := by
  rw [cut, cut, WithBot.coe_inj, WithTop.coe_inj, toLex_inj, Prod.mk.injEq]

theorem cut_ne_bot (v : Value) (b : Bool) : cut v b ≠ ⊥ := WithBot.coe_ne_bot

theorem cut_ne_top (v : Value) (b : Bool) : cut v b ≠ ⊤ := fun h =>
  WithTop.coe_ne_top (WithBot.coe_inj.1 h)

namespace Bound

/-- The cut below which a lower bound allows nothing. -/
def floor : Bound → Cut
  | .unbounded => ⊥
  | .included v => cut v false
  | .excluded v => cut v true

/-- The cut above which an upper bound allows nothing. -/
def ceiling : Bound → Cut
  | .unbounded => ⊤
  | .included v => cut v true
  | .excluded v => cut v false

theorem floor_injective : Function.Injective floor := by
  rintro (_ | a | a) (_ | b | b) h <;> simp_all [floor, cut_inj, cut_ne_bot, (cut_ne_bot _ _).symm]

theorem ceiling_injective : Function.Injective ceiling := by
  rintro (_ | a | a) (_ | b | b) h <;> simp_all [ceiling, cut_inj, cut_ne_top, (cut_ne_top _ _).symm]

end Bound

namespace ValueRange

theorem floor_tighter (a b : Bound) : (tighter .gt a b).floor = max a.floor b.floor := by
  rcases a with _ | x | x <;> rcases b with _ | y | y
  all_goals try simp [tighter, Bound.floor]; done
  all_goals
    simp only [tighter]
    cases hc : x.compare y
    case lt =>
      have hlt := Value.compare_lt_iff.1 hc
      exact (max_eq_right (cut_le_cut.2 (.inl hlt))).symm
    case gt =>
      have hlt := Value.compare_gt_iff.1 hc
      exact (max_eq_left (cut_le_cut.2 (.inl hlt))).symm
    case eq =>
      obtain rfl := Value.compare_eq_iff.1 hc
      simp [Bound.floor, cut_le_cut]

theorem ceiling_tighter (a b : Bound) : (tighter .lt a b).ceiling = min a.ceiling b.ceiling := by
  rcases a with _ | x | x <;> rcases b with _ | y | y
  all_goals try simp [tighter, Bound.ceiling]; done
  all_goals
    simp only [tighter]
    cases hc : x.compare y
    case lt =>
      have hlt := Value.compare_lt_iff.1 hc
      exact (min_eq_left (cut_le_cut.2 (.inl hlt))).symm
    case gt =>
      have hlt := Value.compare_gt_iff.1 hc
      exact (min_eq_right (cut_le_cut.2 (.inl hlt))).symm
    case eq =>
      obtain rfl := Value.compare_eq_iff.1 hc
      simp [Bound.ceiling, cut_le_cut]

/-- A range is empty just when its cuts cross. -/
theorem isEmpty_iff {r : ValueRange} : r.isEmpty = true ↔ r.upper.ceiling ≤ r.lower.floor := by
  obtain ⟨lower, upper⟩ := r
  rcases lower with _ | a | a <;> rcases upper with _ | b | b <;>
    simp [isEmpty, Bound.floor, Bound.ceiling, cut_le_cut, cut_ne_bot, cut_ne_top, Value.lt_iff, Value.le_iff]
  all_goals exact le_iff_lt_or_eq

/-- What two ranges have in common, empty or not. -/
def both (r s : ValueRange) : ValueRange := ⟨tighter .gt r.lower s.lower, tighter .lt r.upper s.upper⟩

theorem intersect_eq (r s : ValueRange) :
    r.intersect s = if (both r s).isEmpty then none else some (both r s) := rfl

theorem eq_of_cuts {r s : ValueRange} (hlower : r.lower.floor = s.lower.floor)
    (hupper : r.upper.ceiling = s.upper.ceiling) : r = s := by
  cases r
  cases s
  rw [mk.injEq]
  exact ⟨Bound.floor_injective hlower, Bound.ceiling_injective hupper⟩

theorem both_comm (r s : ValueRange) : both r s = both s r :=
  eq_of_cuts (by simp only [both, floor_tighter, max_comm]) (by simp only [both, ceiling_tighter, min_comm])

theorem intersect_comm (r s : ValueRange) : r.intersect s = s.intersect r := by
  rw [intersect_eq, intersect_eq, both_comm]

end ValueRange

namespace Constraint

/-- Two constraints that are one but perhaps for the order and the repetitions of their values. -/
def Alike : Constraint → Constraint → Prop
  | .list a, .list b => ∀ v, v ∈ a ↔ v ∈ b
  | .range r, .range s => r = s
  | _, _ => False

theorem Alike.refl (k : Constraint) : k.Alike k := by cases k <;> simp [Alike]

theorem Alike.symm {k l : Constraint} (h : k.Alike l) : l.Alike k := by
  cases k <;> cases l <;> simp_all [Alike]

theorem Alike.trans {k l m : Constraint} (h : k.Alike l) (h' : l.Alike m) : k.Alike m := by
  cases k <;> cases l <;> cases m <;> simp_all [Alike]

theorem Alike.admits {k l : Constraint} (h : k.Alike l) (v : Value) :
    k.admits v = true ↔ l.admits v = true := by
  cases k <;> cases l <;> simp_all [Alike]

/-- The result is a list of some values, if there is one. -/
def Listed (o : Option Constraint) : Prop := ∀ c ∈ o, ∃ values, c = .list values ∧ values ≠ []

theorem listed_listUnlessEmpty (values : List Value) : Listed (listUnlessEmpty values) := by
  unfold listUnlessEmpty
  split
  · exact nofun
  · rename_i hne
    rintro _ ⟨⟩
    exact ⟨values, rfl, by simpa using hne⟩

theorem listed_intersect_left (values : List Value) (k : Constraint) :
    Listed ((Constraint.list values).intersect k) := by
  cases k <;> exact listed_listUnlessEmpty _

theorem listed_intersect_right (k : Constraint) (values : List Value) :
    Listed (k.intersect (.list values)) := by
  cases k <;> exact listed_listUnlessEmpty _

theorem Listed.bind {o : Option Constraint} {f : Constraint → Option Constraint}
    (hf : ∀ c ∈ o, Listed (f c)) : Listed (o.bind f) := by
  intro c hc
  obtain ⟨c', hc', hc⟩ := Option.bind_eq_some_iff.1 hc
  exact hf c' hc' c hc

/-- Lists that admit the same values are alike, and there are none of them for the same reason. -/
theorem alike_of_listed {o o' : Option Constraint} (ho : Listed o) (ho' : Listed o')
    (h : ∀ v, (∃ c, o = some c ∧ c.admits v = true) ↔ ∃ c, o' = some c ∧ c.admits v = true) :
    Option.Rel Alike o o' := by
  cases o with
  | none =>
    cases o' with
    | none => exact .none
    | some c' =>
      obtain ⟨values, rfl, hne⟩ := ho' c' rfl
      obtain ⟨v, hv⟩ := List.exists_mem_of_ne_nil values hne
      obtain ⟨c, hc, -⟩ := (h v).2 ⟨_, rfl, by simpa using hv⟩
      cases hc
  | some c =>
    obtain ⟨values, rfl, hne⟩ := ho c rfl
    cases o' with
    | none =>
      obtain ⟨v, hv⟩ := List.exists_mem_of_ne_nil values hne
      obtain ⟨c, hc, -⟩ := (h v).1 ⟨_, rfl, by simpa using hv⟩
      cases hc
    | some c' =>
      obtain ⟨values', rfl, -⟩ := ho' c' rfl
      exact .some fun v => by simpa using h v

theorem alike_refl (o : Option Constraint) : Option.Rel Alike o o := by
  cases o with
  | none => exact .none
  | some k => exact .some (.refl k)

theorem intersect_comm (k l : Constraint) : Option.Rel Alike (k.intersect l) (l.intersect k) := by
  have hadmits : ∀ v, (∃ c, k.intersect l = some c ∧ c.admits v = true) ↔
      ∃ c, l.intersect k = some c ∧ c.admits v = true := by
    intro v
    rw [admits_intersect, admits_intersect, and_comm]
  rcases k with a | r
  · exact alike_of_listed (listed_intersect_left _ _) (listed_intersect_right _ _) hadmits
  rcases l with b | s
  · exact alike_of_listed (listed_intersect_right _ _) (listed_intersect_left _ _) hadmits
  rw [intersect, intersect, ValueRange.intersect_comm]
  exact alike_refl _

end Constraint

end ShardedSql
