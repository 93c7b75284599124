import ShardedSql.Text.Offset
import Mathlib.Tactic

/-! Byte offsets that fall between characters cut a text into pieces, and the pieces between them are
what slicing takes. -/

namespace ShardedSql.Text

@[simp] theorem byteLength_nil : byteLength [] = 0 := rfl

@[simp] theorem byteLength_cons (c : Char) (cs : List Char) :
    byteLength (c :: cs) = c.utf8Size + byteLength cs := rfl

@[simp] theorem byteLength_append (l r : List Char) :
    byteLength (l ++ r) = byteLength l + byteLength r := by
  induction l with
  | nil => simp
  | cons c l ih => simp [ih, Nat.add_assoc]

theorem utf8ByteSize_eq (s : String) : s.utf8ByteSize = byteLength s.toList := by
  have hlist : ∀ cs : List Char, (String.ofList cs).utf8ByteSize = byteLength cs := by
    intro cs
    induction cs with
    | nil => rfl
    | cons c cs ih =>
      rw [String.ofList_cons, String.utf8ByteSize_append, String.utf8ByteSize_singleton, ih, byteLength_cons]
  rw [← hlist, String.ofList_toList]

/-- A character begins or the text ends at the offset. -/
def IsBoundary (cs : List Char) (n : Nat) : Prop := ∃ l r, cs = l ++ r ∧ byteLength l = n

theorem isBoundary_iff {cs : List Char} {n : Nat} : isBoundary cs n = true ↔ IsBoundary cs n := by
  induction cs generalizing n with
  | nil =>
    cases n with
    | zero => exact iff_of_true rfl ⟨[], [], rfl, rfl⟩
    | succ n =>
      refine iff_of_false Bool.false_ne_true ?_
      rintro ⟨l, r, h, hl⟩
      rw [(List.append_eq_nil_iff.1 h.symm).1] at hl
      cases hl
  | cons c cs ih =>
    cases n with
    | zero => exact iff_of_true rfl ⟨[], c :: cs, rfl, rfl⟩
    | succ n =>
      rw [isBoundary, Bool.and_eq_true, decide_eq_true_eq, ih]
      constructor
      · rintro ⟨hc, l, r, rfl, hl⟩
        refine ⟨c :: l, r, rfl, ?_⟩
        rw [byteLength_cons]
        omega
      · rintro ⟨_ | ⟨d, l⟩, r, h, hl⟩
        · cases hl
        · cases h
          rw [byteLength_cons] at hl
          exact ⟨by omega, l, r, rfl, by omega⟩

theorem IsBoundary.le {cs : List Char} {n : Nat} (h : IsBoundary cs n) : n ≤ byteLength cs := by
  obtain ⟨l, r, rfl, rfl⟩ := h
  simp

theorem isBoundary_zero (cs : List Char) : IsBoundary cs 0 := ⟨[], cs, rfl, rfl⟩

theorem isBoundary_length (cs : List Char) : IsBoundary cs (byteLength cs) :=
  ⟨cs, [], (List.append_nil cs).symm, rfl⟩

/-- Of two cuts through one text the earlier one has the shorter left side. -/
theorem prefix_of_cuts {l r l' r' : List Char} (h : l ++ r = l' ++ r')
    (hle : byteLength l ≤ byteLength l') : ∃ m, l' = l ++ m ∧ r = m ++ r' := by
  induction l generalizing l' with
  | nil => exact ⟨l', rfl, h⟩
  | cons c l ih =>
    cases l' with
    | nil =>
      have hc := c.utf8Size_pos
      rw [byteLength_cons, byteLength_nil] at hle
      omega
    | cons d l' =>
      obtain ⟨rfl, htail⟩ := List.cons_eq_cons.1 h
      rw [byteLength_cons, byteLength_cons] at hle
      obtain ⟨m, rfl, hr⟩ := ih htail (by omega)
      exact ⟨m, rfl, hr⟩

theorem dropBytes_append (l r : List Char) : dropBytes (l ++ r) (byteLength l) = r := by
  induction l with
  | nil => cases r <;> rfl
  | cons c l ih =>
    have hc := c.utf8Size_pos
    rw [List.cons_append, dropBytes, byteLength_cons, if_neg (by omega), Nat.add_sub_cancel_left, ih]

theorem takeBytes_append (l r : List Char) : takeBytes (l ++ r) (byteLength l) = l := by
  induction l with
  | nil => cases r <;> rfl
  | cons c l ih =>
    have hc := c.utf8Size_pos
    rw [List.cons_append, takeBytes, byteLength_cons, if_neg (by omega), Nat.add_sub_cancel_left, ih]

theorem slice_append (l m r : List Char) :
    slice (l ++ (m ++ r)) (byteLength l) (byteLength l + byteLength m) = m := by
  rw [slice, dropBytes_append, Nat.add_sub_cancel_left, takeBytes_append]

section Cuts

variable {cs : List Char} {a b c : Nat}

/-- Two offsets cut a text into three. -/
theorem IsBoundary.cuts (ha : IsBoundary cs a) (hb : IsBoundary cs b) (hab : a ≤ b) :
    ∃ l m r, cs = l ++ (m ++ r) ∧ byteLength l = a ∧ byteLength l + byteLength m = b := by
  obtain ⟨l, r, rfl, rfl⟩ := ha
  obtain ⟨l', r', h, rfl⟩ := hb
  obtain ⟨m, rfl, rfl⟩ := prefix_of_cuts h hab
  exact ⟨l, m, r', rfl, rfl, (byteLength_append l m).symm⟩

theorem byteLength_slice (ha : IsBoundary cs a) (hb : IsBoundary cs b) (hab : a ≤ b) :
    a + byteLength (slice cs a b) = b := by
  obtain ⟨l, m, r, rfl, rfl, rfl⟩ := ha.cuts hb hab
  rw [slice_append]

@[simp] theorem slice_self (cs : List Char) (a : Nat) : slice cs a a = [] := by
  rw [slice, Nat.sub_self]
  cases dropBytes cs a <;> rfl

theorem slice_all (cs : List Char) : slice cs 0 (byteLength cs) = cs := by
  have h := slice_append [] cs []
  rwa [List.append_nil, byteLength_nil, Nat.zero_add] at h

/-- Neighbouring slices make one. -/
theorem slice_append_slice (ha : IsBoundary cs a) (hb : IsBoundary cs b) (hc : IsBoundary cs c)
    (hab : a ≤ b) (hbc : b ≤ c) : slice cs a b ++ slice cs b c = slice cs a c := by
  obtain ⟨l, r, h, rfl⟩ := ha
  obtain ⟨l', x, r', h', rfl, rfl⟩ := hb.cuts hc hbc
  obtain ⟨m, rfl, -⟩ := prefix_of_cuts (h.symm.trans h') hab
  have hbound : slice cs (byteLength l) (byteLength (l ++ m)) = m := by
    rw [h', List.append_assoc, byteLength_append, slice_append]
  have hnext : slice cs (byteLength (l ++ m)) (byteLength (l ++ m) + byteLength x) = x := by
    rw [h', slice_append]
  have hwhole := slice_append l (m ++ x) r'
  rw [hbound, hnext, h', byteLength_append, Nat.add_assoc, ← byteLength_append m x, List.append_assoc,
    ← List.append_assoc m x r', hwhole]

end Cuts

end ShardedSql.Text
