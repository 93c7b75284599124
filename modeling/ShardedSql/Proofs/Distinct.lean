import ShardedSql.Grouping
import Mathlib.Tactic

/-! Leaving out repetitions keeps the order of what stays, one member of every kind, and no two of a
kind. -/

namespace ShardedSql

variable {α : Type}

theorem distinctFrom_sublist (same : α → α → Bool) (seen l : List α) :
    (distinctFrom same seen l).Sublist l := by
  induction l generalizing seen with
  | nil => exact List.Sublist.slnil
  | cons a l ih =>
    rw [distinctFrom]
    split
    · exact (ih seen).cons a
    · exact (ih (a :: seen)).cons_cons a

theorem distinctBy_sublist (same : α → α → Bool) (l : List α) : (distinctBy same l).Sublist l :=
  distinctFrom_sublist same [] l

theorem distinctFrom_covers {same : α → α → Bool} (hrefl : ∀ a, same a a = true)
    (seen : List α) {l : List α} {a : α} (h : a ∈ l) :
    ∃ b ∈ seen ++ distinctFrom same seen l, same b a = true := by
  induction l generalizing seen with
  | nil => simp at h
  | cons c l ih =>
    rw [distinctFrom]
    split
    · rename_i hc
      rcases List.mem_cons.1 h with rfl | h
      · obtain ⟨b, hb, hs⟩ := List.any_eq_true.1 hc
        exact ⟨b, List.mem_append_left _ hb, hs⟩
      · exact ih seen h
    · rcases List.mem_cons.1 h with rfl | h
      · exact ⟨a, by simp, hrefl a⟩
      · obtain ⟨b, hb, hs⟩ := ih (c :: seen) h
        refine ⟨b, ?_, hs⟩
        simp only [List.cons_append, List.mem_cons, List.mem_append] at hb ⊢
        tauto

/-- Every member is the same as one that stays. -/
theorem distinctBy_covers {same : α → α → Bool} (hrefl : ∀ a, same a a = true) {l : List α} {a : α}
    (h : a ∈ l) : ∃ b ∈ distinctBy same l, same b a = true := by
  exact distinctFrom_covers hrefl [] h

theorem distinctFrom_pairwise (same : α → α → Bool) (seen l : List α) :
    (distinctFrom same seen l).Pairwise (fun a b => same a b = false) ∧
      ∀ s ∈ seen, ∀ a ∈ distinctFrom same seen l, same s a = false := by
  induction l generalizing seen with
  | nil => simp [distinctFrom]
  | cons c l ih =>
    rw [distinctFrom]
    split
    · exact ih seen
    · rename_i hc
      obtain ⟨hp, hs⟩ := ih (c :: seen)
      refine ⟨List.pairwise_cons.2 ⟨hs c List.mem_cons_self, hp⟩, fun s hm a ha => ?_⟩
      rcases List.mem_cons.1 ha with rfl | ha
      · have hne := hc ∘ fun h => List.any_eq_true.2 ⟨s, hm, h⟩
        simpa using hne
      · exact hs s (List.mem_cons_of_mem _ hm) a ha

/-- No two that stay are the same. -/
theorem distinctBy_pairwise (same : α → α → Bool) (l : List α) :
    (distinctBy same l).Pairwise fun a b => same a b = false :=
  (distinctFrom_pairwise same [] l).1

@[simp] theorem mem_distinct [DecidableEq α] {l : List α} {a : α} : a ∈ distinct l ↔ a ∈ l := by
  refine ⟨fun h => (distinctBy_sublist _ l).subset h, fun h => ?_⟩
  have hrefl : ∀ c : α, (c == c) = true := by simp
  obtain ⟨b, hb, hs⟩ := distinctBy_covers hrefl h
  rwa [← eq_of_beq hs]

theorem nodup_distinct [DecidableEq α] (l : List α) : (distinct l).Nodup := by
  refine (distinctBy_pairwise (· == ·) l).imp fun {a b} h => ?_
  simpa using h

theorem length_distinct_le [BEq α] (l : List α) : (distinct l).length ≤ l.length :=
  (distinctBy_sublist _ l).length_le

/-- A list without repetitions stays as it is. -/
theorem distinctFrom_eq_self {same : α → α → Bool} {seen l : List α}
    (hp : l.Pairwise fun a b => same a b = false)
    (hs : ∀ s ∈ seen, ∀ a ∈ l, same s a = false) : distinctFrom same seen l = l := by
  induction l generalizing seen with
  | nil => rfl
  | cons c l ih =>
    obtain ⟨hc, hp⟩ := List.pairwise_cons.1 hp
    have hany : seen.any (same · c) = false := by
      simpa using fun s hm => hs s hm c List.mem_cons_self
    rw [distinctFrom, hany, if_neg Bool.false_ne_true, ih hp]
    intro s hm a ha
    rcases List.mem_cons.1 hm with rfl | hm
    · exact hc a ha
    · exact hs s hm a (List.mem_cons_of_mem _ ha)

theorem distinct_eq_self [DecidableEq α] {l : List α} (h : l.Nodup) : distinct l = l :=
  distinctFrom_eq_self (h.imp fun {a b} hne => by simpa using hne) (by simp)

theorem distinctFrom_eq_eraseDups [DecidableEq α] (seen l : List α) :
    distinctFrom (· == ·) seen l = (l.filter fun a => !seen.any (· == a)).eraseDups := by
  induction l generalizing seen with
  | nil => rfl
  | cons a l ih =>
    rw [distinctFrom]
    split
    · rename_i hseen
      rw [ih, List.filter_cons_of_neg (by simp [hseen])]
    · rename_i hnew
      rw [List.filter_cons_of_pos (by rw [Bool.eq_false_iff.2 hnew, Bool.not_false]),
        List.eraseDups_cons, ih, List.filter_filter]
      refine congrArg (a :: List.eraseDups ·) (List.filter_congr fun b _ => ?_)
      rw [List.any_cons, Bool.not_or, Bool.beq_comm]

theorem distinct_eq_eraseDups [DecidableEq α] (l : List α) : distinct l = l.eraseDups := by
  have h := distinctFrom_eq_eraseDups [] l
  rwa [List.filter_eq_self.2 (by simp)] at h

theorem mem_distinctOnFrom {seen : Std.TreeSet String} {l : List String} {a : String} :
    a ∈ distinctOnFrom id seen l ↔ a ∈ l ∧ seen.contains a = false := by
  induction l generalizing seen with
  | nil => simp [distinctOnFrom]
  | cons b l ih =>
    rw [distinctOnFrom]
    split
    · rename_i hb
      rw [ih, List.mem_cons]
      refine ⟨fun h => ⟨.inr h.1, h.2⟩, fun ⟨h, hseen⟩ => ⟨h.resolve_left ?_, hseen⟩⟩
      rintro rfl
      rw [id_eq, hseen] at hb
      cases hb
    · rename_i hb
      rw [List.mem_cons, ih, List.mem_cons, Std.TreeSet.contains_insert]
      by_cases h : a = b
      · subst h
        exact ⟨fun _ => ⟨.inl rfl, Bool.eq_false_iff.2 hb⟩, fun _ => .inl rfl⟩
      · simp [h, Ne.symm h]

theorem mem_distinctOn {l : List String} {a : String} : a ∈ distinctOn id l ↔ a ∈ l := by
  simp [distinctOn, mem_distinctOnFrom]

section Naming

variable [DecidableEq α] {name : α → String}

theorem distinctOnFrom_eq_distinctFrom {seen : Std.TreeSet String} {before l : List α}
    (hseen : ∀ s, seen.contains s = true ↔ ∃ a ∈ before, name a = s)
    (hname : ∀ a ∈ before ++ l, ∀ b ∈ before ++ l, name a = name b → a = b) :
    distinctOnFrom name seen l = distinctFrom (· == ·) before l := by
  induction l generalizing seen before with
  | nil => rfl
  | cons a l ih =>
    have hsame : seen.contains (name a) = before.any (· == a) := by
      rw [Bool.eq_iff_iff, hseen, List.any_eq_true]
      refine exists_congr fun b => and_congr_right fun hb => ?_
      rw [beq_iff_eq]
      exact ⟨hname b (by simp [hb]) a (by simp), congrArg name⟩
    rw [distinctOnFrom, distinctFrom, hsame]
    split
    · have hsub : before ++ l ⊆ before ++ a :: l :=
        List.append_subset.2 ⟨List.subset_append_left _ _, fun b hb => by simp [hb]⟩
      exact ih hseen fun b hb c hc => hname b (hsub hb) c (hsub hc)
    · have hsub : a :: before ++ l ⊆ before ++ a :: l := List.perm_middle.symm.subset
      refine congrArg (a :: ·) (ih (fun s => ?_) fun b hb c hc => hname b (hsub hb) c (hsub hc))
      rw [Std.TreeSet.contains_insert, Bool.or_eq_true, hseen, List.exists_mem_cons_iff]
      simp

/-- Where the names tell the members apart, taking each name once is taking each member once. -/
theorem distinctOn_eq_distinct {l : List α} (hname : ∀ a ∈ l, ∀ b ∈ l, name a = name b → a = b) :
    distinctOn name l = distinct l :=
  distinctOnFrom_eq_distinctFrom (by simp) hname

end Naming

/-- Picking the members of each key in turn picks every member once. -/
theorem flatMap_filter_perm {κ : Type} [DecidableEq κ] {key : α → κ} {keys : List κ} {l : List α}
    (hkeys : keys.Nodup) (hl : ∀ a ∈ l, key a ∈ keys) :
    (keys.flatMap fun k => l.filter fun a => key a == k).Perm l := by
  induction keys generalizing l with
  | nil =>
    have hnil : l = [] := List.eq_nil_iff_forall_not_mem.2 fun a ha => List.not_mem_nil (hl a ha)
    rw [hnil]
    exact List.Perm.refl _
  | cons k keys ih =>
    obtain ⟨hk, hkeys⟩ := List.nodup_cons.1 hkeys
    have hrest := ih hkeys (l := l.filter fun a => !(key a == k)) fun a ha => by
      obtain ⟨ha, hne⟩ := List.mem_filter.1 ha
      rcases List.mem_cons.1 (hl a ha) with h | h
      · simp [h] at hne
      · exact h
    -- the other keys only pick members without the first one
    have hsame : (keys.flatMap fun k' => l.filter fun a => key a == k') =
        keys.flatMap fun k' => (l.filter fun a => !(key a == k)).filter fun a => key a == k' := by
      refine List.flatMap_congr fun k' hk' => ?_
      rw [List.filter_filter]
      refine List.filter_congr fun a _ => ?_
      have hne : k' ≠ k := fun h => hk (h ▸ hk')
      by_cases ha : key a = k'
      · simp [ha, hne]
      · simp [ha]
    rw [List.flatMap_cons, hsame]
    exact (hrest.append_left _).trans (List.filter_append_perm _ l)

/-- The first group is that of the first member, which leads it. -/
theorem groupOn_cons {κ : Type} [DecidableEq κ] (key : α → κ) (a : α) (l : List α) :
    ∃ rest, groupOn key (a :: l) = (key a, a :: l.filter fun b => key b == key a) :: rest := by
  refine ⟨(distinctFrom (· == ·) [key a] (l.map key)).map fun k =>
    (k, (a :: l).filter fun b => key b == k), ?_⟩
  have hkeys : distinct ((a :: l).map key) =
      key a :: distinctFrom (· == ·) [key a] (l.map key) := rfl
  rw [groupOn, hkeys, List.map_cons]
  simp

theorem groupOn_perm {κ : Type} [DecidableEq κ] (key : α → κ) (l : List α) :
    ((groupOn key l).map (·.2)).flatten.Perm l := by
  have hmap : ((groupOn key l).map (·.2)).flatten =
      (distinct (l.map key)).flatMap fun k => l.filter fun a => key a == k := by
    rw [groupOn, List.map_map, List.flatMap_def]
    rfl
  rw [hmap]
  exact flatMap_filter_perm (nodup_distinct _) fun a ha => mem_distinct.2 (List.mem_map_of_mem ha)

end ShardedSql
