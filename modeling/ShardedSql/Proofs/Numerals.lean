import ShardedSql.Text.Integer
import Mathlib.Tactic

/-! Numbers written in decimal are read back, and a result fits in 64 bits just when a word stands
for it. -/

namespace ShardedSql.Text

theorem fit64_toInt (n : Int64) : fit64 n.toInt = some n := by
  rw [fit64, if_pos ⟨Int64.le_iff_toInt_le.1 (Int64.minValue_le n),
    Int64.le_iff_toInt_le.1 (Int64.le_maxValue n)⟩, Int64.ofInt_toInt]

theorem fit64_eq_some {n : Int} {m : Int64} : fit64 n = some m ↔ m.toInt = n := by
  constructor
  · intro h
    unfold fit64 at h
    split at h
    · rename_i hn
      cases h
      have h63 : Int64.maxValue.toInt < 2 ^ 63 := by decide
      exact Int64.toInt_ofInt_of_le hn.1 (hn.2.trans_lt h63)
    · cases h
  · rintro rfl
    exact fit64_toInt m

/-- Between two words every integer fits. -/
theorem exists_fit64 {a b : Int64} {n : Int} (ha : a.toInt ≤ n) (hb : n ≤ b.toInt) :
    ∃ m, fit64 n = some m := by
  have hmin := Int64.le_iff_toInt_le.1 (Int64.minValue_le a)
  have hmax := Int64.le_iff_toInt_le.1 (Int64.le_maxValue b)
  exact ⟨_, if_pos ⟨hmin.trans ha, hb.trans hmax⟩⟩

theorem digits?_eq_some {cs : List Char} {n : Nat} :
    digits? cs = some n ↔ cs ≠ [] ∧ cs.all Char.isDigit = true ∧ Nat.ofDigitChars 10 cs 0 = n := by
  cases cs with
  | nil => simp [digits?]
  | cons c cs =>
    rw [digits?, ← Nat.ofDigitChars_eq_foldl]
    · simp
    · simp

theorem digits?_toDigits (n : Nat) : digits? (Nat.toDigits 10 n) = some n :=
  digits?_eq_some.2 ⟨Nat.toDigits_ne_nil,
    List.all_eq_true.2 fun c hc => Nat.isDigit_of_mem_toDigits (by omega) (by omega) hc,
    Nat.ofDigitChars_ten_toDigits⟩

end ShardedSql.Text
