import Mathlib.Tactic

/-! The choices of one member of each of several lists, by places and by the members themselves, both in
the same order. -/

namespace ShardedSql

variable {α : Type}

/-- Every choice of a place within each list, the first list varying slowest. -/
def places : List (List α) → List (List Nat)
  | [] => [[]]
  | l :: ls => (List.range l.length).flatMap fun i => (places ls).map (i :: ·)

theorem mem_places {ls : List (List α)} {p : List Nat} :
    p ∈ places ls ↔ List.Forall₂ (fun i l => i < l.length) p ls := by
  induction ls generalizing p with
  | nil => simp [places]
  | cons l ls ih =>
    simp only [places, List.mem_flatMap, List.mem_range, List.mem_map, ih,
      List.forall₂_cons_right_iff]
    constructor
    · rintro ⟨i, hi, q, hq, rfl⟩
      exact ⟨i, q, hi, hq, rfl⟩
    · rintro ⟨i, q, hi, hq, rfl⟩
      exact ⟨i, hi, q, hq, rfl⟩

/-- The choices come in lexicographic order, so each comes once. -/
theorem pairwise_places (ls : List (List α)) : (places ls).Pairwise (· < ·) := by
  induction ls with
  | nil => simp [places]
  | cons l ls ih =>
    rw [places, List.pairwise_flatMap]
    constructor
    · intro i _
      rw [List.pairwise_map]
      exact ih.imp fun h => List.cons_lt_cons_iff.2 (.inr ⟨rfl, h⟩)
    · refine List.pairwise_lt_range.imp fun {i j} hij p hp q hq => ?_
      obtain ⟨p, -, rfl⟩ := List.mem_map.1 hp
      obtain ⟨q, -, rfl⟩ := List.mem_map.1 hq
      exact List.cons_lt_cons_iff.2 (.inl hij)

theorem length_places (ls : List (List α)) : (places ls).length = (ls.map List.length).prod := by
  induction ls with
  | nil => rfl
  | cons l ls ih => simp [places, ih, List.length_flatMap]

/-- The members at these places, one of each list. -/
inductive Takes : List (List α) → List Nat → List α → Prop
  | nil : Takes [] [] []
  | cons {l : List α} {ls : List (List α)} {i : Nat} {p : List Nat} {a : α} {as : List α}
      (ha : l[i]? = some a) (h : Takes ls p as) : Takes (l :: ls) (i :: p) (a :: as)

section Takes

variable {ls : List (List α)} {p : List Nat} {as bs : List α}

theorem Takes.unique (h : Takes ls p as) (h' : Takes ls p bs) : as = bs := by
  induction h generalizing bs with
  | nil =>
    cases h'
    rfl
  | cons ha _ ih =>
    cases h' with
    | cons hb h' =>
      rw [ha] at hb
      cases hb
      rw [ih h']

theorem Takes.mem_places (h : Takes ls p as) : p ∈ places ls := by
  induction h with
  | nil => exact List.mem_singleton_self _
  | cons ha _ ih =>
    have hi := (List.getElem?_eq_some_iff.1 ha).1
    exact List.mem_flatMap.2 ⟨_, List.mem_range.2 hi, List.mem_map_of_mem ih⟩

end Takes

/-- Every choice of one member of each list, the first list varying slowest. -/
def selections : List (List α) → List (List α)
  | [] => [[]]
  | l :: ls => l.flatMap fun a => (selections ls).map (a :: ·)

theorem mem_selections {ls : List (List α)} {as : List α} :
    as ∈ selections ls ↔ List.Forall₂ (· ∈ ·) as ls := by
  induction ls generalizing as with
  | nil => simp [selections]
  | cons l ls ih =>
    simp only [selections, List.mem_flatMap, List.mem_map, ih, List.forall₂_cons_right_iff]
    constructor
    · rintro ⟨a, ha, bs, hbs, rfl⟩
      exact ⟨a, bs, ha, hbs, rfl⟩
    · rintro ⟨a, bs, ha, hbs, rfl⟩
      exact ⟨a, ha, bs, hbs, rfl⟩

theorem forall₂_range (l : List α) :
    List.Forall₂ (fun i a => l[i]? = some a) (List.range l.length) l := by
  refine List.forall₂_iff_get.2 ⟨List.length_range, fun i hi hi' => ?_⟩
  simp

/-- Each choice takes its members from the places of the same rank. -/
theorem takes_places (ls : List (List α)) :
    List.Forall₂ (Takes ls) (places ls) (selections ls) := by
  induction ls with
  | nil => exact .cons .nil .nil
  | cons l ls ih =>
    refine List.rel_flatMap (forall₂_range l) fun i a ha => ?_
    rw [List.forall₂_map_right_iff, List.forall₂_map_left_iff]
    exact ih.imp fun p as h => .cons ha h

/-- What something can be made of: the members of the first list whose partners give a result, in their
order, each beside its result. -/
theorem exists_sublist_filterMap {β γ : Type} {R : α → β → Prop} {f : β → Option γ} {l : List α}
    {r : List β} (h : List.Forall₂ R l r) (hR : ∀ a b b', R a b → R a b' → b = b') :
    ∃ l', l'.Sublist l ∧ (∀ a, a ∈ l' ↔ a ∈ l ∧ ∃ b c, R a b ∧ f b = some c) ∧
      List.Forall₂ (fun a c => ∃ b, R a b ∧ f b = some c) l' (r.filterMap f) := by
  induction h with
  | nil => exact ⟨[], .slnil, by simp, .nil⟩
  | @cons a b l r hab _ ih =>
    obtain ⟨l', hsub, hmem, hall⟩ := ih
    cases hb : f b with
    | none =>
      -- The member may occur again, but its only partner gives nothing.
      refine ⟨l', hsub.cons a, fun a' => ?_, ?_⟩
      · rw [hmem, List.mem_cons]
        refine ⟨fun ⟨ha', hf⟩ => ⟨.inr ha', hf⟩, fun ⟨ha', b', c, hab', hf⟩ => ⟨?_, b', c, hab', hf⟩⟩
        refine ha'.resolve_left ?_
        rintro rfl
        rw [← hR _ _ _ hab hab', hb] at hf
        cases hf
      · rwa [List.filterMap_cons_none hb]
    | some c =>
      refine ⟨a :: l', hsub.cons_cons a, fun a' => ?_, ?_⟩
      · rw [List.mem_cons, List.mem_cons, hmem, or_and_right]
        refine or_congr_left ⟨?_, And.left⟩
        rintro rfl
        exact ⟨rfl, b, c, hab, hb⟩
      · rw [List.filterMap_cons_some hb]
        exact .cons ⟨b, hab, hb⟩ hall

end ShardedSql
