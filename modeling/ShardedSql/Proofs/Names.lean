import ShardedSql.Text.Case
import Mathlib.Tactic

/-! Names of tables and columns are compared up to the case of ASCII letters, but looked up by their
full lower-case form. The two agree in one direction: names that compare the same have one lower-case
form, whatever stands around their letters. -/

namespace ShardedSql.Text

theorem sameName_iff {a b : String} :
    sameName a b = true ↔ a.toList.map Char.toLower = b.toList.map Char.toLower := by
  simp [sameName]

@[simp] theorem sameName_refl (a : String) : sameName a a = true := by simp [sameName]

theorem sameName_symm {a b : String} (h : sameName a b = true) : sameName b a = true :=
  sameName_iff.2 (sameName_iff.1 h).symm

theorem sameName_comm (a b : String) : sameName a b = sameName b a :=
  Bool.eq_iff_iff.2 ⟨sameName_symm, sameName_symm⟩

theorem sameName_trans {a b c : String} (h : sameName a b = true) (h' : sameName b c = true) :
    sameName a c = true :=
  sameName_iff.2 ((sameName_iff.1 h).trans (sameName_iff.1 h'))

/-- A name can be replaced by one it is the same as. -/
theorem sameName_congr {a b : String} (h : sameName a b = true) (c : String) :
    sameName a c = sameName b c :=
  Bool.eq_iff_iff.2 ⟨sameName_trans (sameName_symm h), sameName_trans h⟩

theorem sameName_congr_right {a b : String} (h : sameName a b = true) (c : String) :
    sameName c a = sameName c b := by
  rw [sameName_comm c a, sameName_comm c b, sameName_congr h]

/-- No ASCII letter is case-ignorable, and all of them are cased. -/
theorem ignorable_off_letters : ∀ r ∈ caseIgnorableRanges,
    r.2 < 65 ∨ 90 < r.1 ∧ r.2 < 97 ∨ 122 < r.1 := by
  decide +kernel

theorem letters_cased : (65, 90) ∈ casedRanges ∧ (97, 122) ∈ casedRanges := by decide +kernel

theorem toLower_of_upper {c : Char} (h : 65 ≤ c.toNat ∧ c.toNat ≤ 90) :
    c.toLower.toNat = c.toNat + 32 := by
  have table : ∀ n < 91, 65 ≤ n → (Char.ofNat n).toLower.toNat = n + 32 := by decide
  simpa using table c.toNat (by omega) h.1

theorem toLower_of_not_upper {c : Char} (h : ¬ (65 ≤ c.toNat ∧ c.toNat ≤ 90)) : c.toLower = c := by
  unfold Char.toLower
  split
  · rename_i hu
    exact absurd ⟨hu.1, hu.2⟩ h
  · rfl

theorem not_ignorable_of_letter {c : Char}
    (h : 65 ≤ c.toNat ∧ c.toNat ≤ 90 ∨ 97 ≤ c.toNat ∧ c.toNat ≤ 122) :
    inRanges caseIgnorableRanges c = false := by
  rw [inRanges, List.any_eq_false]
  intro r hr hc
  have := ignorable_off_letters r hr
  simp only [Bool.and_eq_true, decide_eq_true_eq] at hc
  omega

theorem cased_of_letter {c : Char}
    (h : 65 ≤ c.toNat ∧ c.toNat ≤ 90 ∨ 97 ≤ c.toNat ∧ c.toNat ≤ 122) :
    inRanges casedRanges c = true := by
  rw [inRanges, List.any_eq_true]
  rcases h with h | h
  · exact ⟨_, letters_cased.1, by simp [h]⟩
  · exact ⟨_, letters_cased.2, by simp [h]⟩

/-- What is asked of a character does not depend on the case of an ASCII letter. -/
theorem case_blind (c : Char) :
    lowerChar c.toLower = lowerChar c ∧
    inRanges caseIgnorableRanges c.toLower = inRanges caseIgnorableRanges c ∧
    inRanges casedRanges c.toLower = inRanges casedRanges c ∧
    (c.toLower == 'Σ') = (c == 'Σ') := by
  by_cases h : 65 ≤ c.toNat ∧ c.toNat ≤ 90
  · have hn := toLower_of_upper h
    have hl : 97 ≤ c.toLower.toNat ∧ c.toLower.toNat ≤ 122 := by omega
    have hsigma : ∀ d : Char, d.toNat < 128 → (d == 'Σ') = false := by
      intro d hd
      rw [beq_eq_false_iff_ne]
      rintro rfl
      exact absurd hd (by decide)
    refine ⟨?_, ?_, ?_, ?_⟩
    · rw [lowerChar, lowerChar, if_pos (by omega), if_pos (by omega),
        toLower_of_not_upper (c := c.toLower) (by omega)]
    · rw [not_ignorable_of_letter (.inr hl), not_ignorable_of_letter (.inl h)]
    · rw [cased_of_letter (.inr hl), cased_of_letter (.inl h)]
    · rw [hsigma _ (by omega), hsigma c (by omega)]
  · rw [toLower_of_not_upper h]
    exact ⟨rfl, rfl, rfl, rfl⟩

theorem meetsCased_toLower (cs : List Char) :
    meetsCased (cs.map Char.toLower) = meetsCased cs := by
  have hskip : (inRanges caseIgnorableRanges ∘ Char.toLower) = inRanges caseIgnorableRanges :=
    funext fun c => (case_blind c).2.1
  unfold meetsCased
  rw [List.dropWhile_map, hskip]
  cases cs.dropWhile (inRanges caseIgnorableRanges) with
  | nil => rfl
  | cons c rest => exact (case_blind c).2.2.1

theorem lowerFrom_toLower (before cs : List Char) :
    lowerFrom (before.map Char.toLower) (cs.map Char.toLower) = lowerFrom before cs := by
  induction cs generalizing before with
  | nil => rfl
  | cons c rest ih =>
    simp only [List.map_cons, lowerFrom, meetsCased_toLower, (case_blind c).1,
      (case_blind c).2.2.2, ← ih (c :: before)]

/-- Names that compare the same have the same lower-case form. -/
theorem lower_congr {a b : String} (h : sameName a b = true) : lower a = lower b := by
  unfold lower
  have ha := lowerFrom_toLower [] a.toList
  have hb := lowerFrom_toLower [] b.toList
  rw [← ha, ← hb, sameName_iff.1 h]

end ShardedSql.Text
