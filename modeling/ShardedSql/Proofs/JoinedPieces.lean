import ShardedSql.Proofs.Places
import ShardedSql.Proofs.Success
import ShardedSql.Route.Placement

/-! The join of groups of pieces. It goes through the choices of one piece of each group in their order and
keeps those that are on one data source, each put together to one piece. -/

namespace ShardedSql

namespace Placement

/-- The pieces side by side, if all are on the data source of the first one. -/
def together? : List Piece → Option Piece
  | [] => none
  | p :: ps =>
    if ps.all (·.source == p.source) then some ⟨p.source, (p :: ps).flatMap (·.tables)⟩ else none

theorem together?_eq_some {ps : List Piece} {r : Piece} :
    together? ps = some r ↔
      ps ≠ [] ∧ (∀ p ∈ ps, p.source = r.source) ∧ r.tables = ps.flatMap (·.tables) := by
  cases ps with
  | nil => simp [together?]
  | cons p ps =>
    simp only [together?, Option.ite_none_right_eq_some, List.all_eq_true, beq_iff_eq, Option.some.injEq,
      ne_eq, reduceCtorEq, not_false_eq_true, true_and, List.forall_mem_cons]
    constructor
    · rintro ⟨hall, rfl⟩
      exact ⟨⟨rfl, hall⟩, rfl⟩
    · rintro ⟨⟨hp, hall⟩, htables⟩
      refine ⟨fun q hq => (hall q hq).trans hp.symm, ?_⟩
      rw [hp, ← htables]

section Step

variable {p q : Piece}

theorem together?_join (h : q.source = p.source) (ps : List Piece) :
    together? (p :: q :: ps) = together? (⟨p.source, p.tables ++ q.tables⟩ :: ps) := by
  simp [together?, h]

theorem together?_apart (h : q.source ≠ p.source) (ps : List Piece) :
    together? (p :: q :: ps) = none := by
  simp [together?, h]

/-- To join a group to a piece and go on is to go on behind both, for every piece of the group. -/
theorem together?_group (p : Piece) (group : List Piece) (pss : List (List Piece)) :
    ((group.filter (·.source == p.source)).flatMap fun q =>
        pss.filterMap fun ps => together? (⟨p.source, p.tables ++ q.tables⟩ :: ps)) =
      group.flatMap fun q => pss.filterMap fun ps => together? (p :: q :: ps) := by
  induction group with
  | nil => rfl
  | cons q group ih =>
    rw [List.flatMap_cons, ← ih, List.filter_cons]
    by_cases hq : q.source = p.source
    · rw [if_pos (beq_iff_eq.2 hq), List.flatMap_cons]
      simp only [together?_join hq]
    · have hnone : (pss.filterMap fun ps => together? (p :: q :: ps)) = [] :=
        List.filterMap_eq_nil_iff.2 fun ps _ => together?_apart hq ps
      rw [if_neg (mt beq_iff_eq.1 hq), hnone, List.nil_append]

end Step

theorem foldl_join (first : List Piece) (rest : List (List Piece)) :
    rest.foldl join first =
      first.flatMap fun p => (selections rest).filterMap fun ps => together? (p :: ps) := by
  -- What is joined so far becomes the pieces to begin with.
  induction rest generalizing first with
  | nil => simp [selections, together?]
  | cons group rest ih =>
    rw [List.foldl_cons, ih, join, List.flatMap_assoc]
    refine List.flatMap_congr fun p _ => ?_
    rw [List.flatMap_map, together?_group, selections, List.filterMap_flatMap]
    simp only [List.filterMap_map, Function.comp_def]

theorem joinAll_eq (groups : List (List Piece)) :
    joinAll groups = (selections groups).filterMap together? := by
  cases groups with
  | nil => rfl
  | cons first rest =>
    rw [joinAll, foldl_join, selections, List.filterMap_flatMap]
    simp [List.filterMap_map]

/-- A piece of the join consists of a piece of every group, all on its data source. -/
theorem mem_joinAll {r : Piece} {groups : List (List Piece)} :
    r ∈ joinAll groups ↔ groups ≠ [] ∧ ∃ ps,
      List.Forall₂ (fun p g => p ∈ g ∧ p.source = r.source) ps groups ∧
        r.tables = ps.flatMap (·.tables) := by
  have hboth : ∀ ps, List.Forall₂ (fun p g => p ∈ g ∧ p.source = r.source) ps groups ↔
      (∀ p ∈ ps, p.source = r.source) ∧ List.Forall₂ (· ∈ ·) ps groups := by
    intro ps
    rw [← List.forall₂_and_left]
    simp only [and_comm]
  simp only [joinAll_eq, List.mem_filterMap, mem_selections, together?_eq_some, hboth]
  constructor
  · rintro ⟨ps, hps, hne, hsource, htables⟩
    refine ⟨?_, ps, ⟨hsource, hps⟩, htables⟩
    rintro rfl
    exact hne (List.forall₂_nil_right_iff.1 hps)
  · rintro ⟨hne, ps, ⟨hsource, hps⟩, htables⟩
    refine ⟨ps, hps, ?_, hsource, htables⟩
    rintro rfl
    exact hne (List.forall₂_nil_left_iff.1 hps)

end Placement

open Placement

/-- The join has one piece for each choice of a piece from every group where all are on one data source, in
the lexicographic order of the places that are chosen. The piece is on that data source, and its tables are
those of the chosen pieces in the order of the groups. What a group does not have a data source for is not
joined there, and without groups there is nothing to join. -/
theorem choices_joined_once (groups : List (List Piece)) :
    (∃ choices : List (List Nat), choices.Pairwise (· < ·) ∧
      (∀ c, c ∈ choices ↔
        groups ≠ [] ∧ ∃ source ps, Takes groups c ps ∧ ∀ p ∈ ps, p.source = source) ∧
      List.Forall₂ (fun c r => ∃ ps, Takes groups c ps ∧ (∀ p ∈ ps, p.source = r.source) ∧
        r.tables = ps.flatMap (·.tables)) choices (joinAll groups)) ∧
    (∀ source, ∀ group ∈ groups, (∀ p ∈ group, p.source ≠ source) →
      ∀ r ∈ joinAll groups, r.source ≠ source) ∧
    joinAll [] = [] := by
  have hempty : ∀ {c ps}, Takes groups c ps → (ps = [] ↔ groups = []) := by
    rintro _ _ (_ | _) <;> simp
  refine ⟨?_, ?_, rfl⟩
  · obtain ⟨choices, hsub, hmem, hall⟩ := exists_sublist_filterMap (f := together?)
      (takes_places groups) fun c ps ps' h h' => h.unique h'
    refine ⟨choices, (pairwise_places groups).sublist hsub, fun c => ?_, ?_⟩
    · rw [hmem]
      constructor
      · rintro ⟨-, ps, r, htakes, hr⟩
        obtain ⟨hne, hsource, -⟩ := together?_eq_some.1 hr
        exact ⟨mt (hempty htakes).2 hne, r.source, ps, htakes, hsource⟩
      · rintro ⟨hne, source, ps, htakes, hsource⟩
        refine ⟨htakes.mem_places, ps, ⟨source, ps.flatMap (·.tables)⟩, htakes, ?_⟩
        exact together?_eq_some.2 ⟨mt (hempty htakes).1 hne, hsource, rfl⟩
    · rw [joinAll_eq]
      refine hall.imp ?_
      rintro c r ⟨ps, htakes, hr⟩
      exact ⟨ps, htakes, (together?_eq_some.1 hr).2⟩
  · rintro source group hgroup hmissing r hr rfl
    obtain ⟨-, ps, hps, -⟩ := mem_joinAll.1 hr
    obtain ⟨p, -, hp, hsource⟩ := exists_of_mem_right hps hgroup
    exact hmissing p hp hsource

def orderPieces : List Piece :=
  [⟨"ds_0", [⟨"t_order", "t_order_0"⟩]⟩, ⟨"ds_1", [⟨"t_order", "t_order_1"⟩]⟩,
    ⟨"ds_0", [⟨"t_order", "t_order_2"⟩]⟩]

def userPieces : List Piece :=
  [⟨"ds_1", [⟨"t_user", "t_user_1"⟩]⟩, ⟨"ds_0", [⟨"t_user", "t_user_0"⟩]⟩]

/-- A shop and its items are bound, and none are on `ds_1`. -/
def shopPieces : List Piece :=
  [⟨"ds_0", [⟨"t_shop", "t_shop_0"⟩, ⟨"t_item", "t_item_0"⟩]⟩,
    ⟨"ds_0", [⟨"t_shop", "t_shop_2"⟩, ⟨"t_item", "t_item_2"⟩]⟩]

/-- Of the twelve choices of places four are joined, in their order, and nothing is left of `ds_1`. -/
theorem choices_joined_once_shops :
    shopPieces ∈ [orderPieces, userPieces, shopPieces] ∧ (∀ p ∈ shopPieces, p.source ≠ "ds_1") ∧
      (∀ r ∈ joinAll [orderPieces, userPieces, shopPieces], r.source ≠ "ds_1") ∧
      ∃ choices : List (List Nat), choices.Pairwise (· < ·) ∧ choices.length = 4 ∧
        [0, 1, 1] ∈ choices ∧ [2, 1, 0] ∈ choices ∧ [1, 0, 0] ∉ choices := by
  have hshops : shopPieces ∈ [orderPieces, userPieces, shopPieces] := by decide
  have hmissing : ∀ p ∈ shopPieces, p.source ≠ "ds_1" := by decide
  obtain ⟨⟨choices, hsorted, hmem, hall⟩, hnowhere, -⟩ :=
    choices_joined_once [orderPieces, userPieces, shopPieces]
  have htakes : ∀ {i j k p q r}, orderPieces[i]? = some p → userPieces[j]? = some q →
      shopPieces[k]? = some r → Takes [orderPieces, userPieces, shopPieces] [i, j, k] [p, q, r] :=
    fun hp hq hr => .cons hp (.cons hq (.cons hr .nil))
  refine ⟨hshops, hmissing, hnowhere _ _ hshops hmissing, choices, hsorted, ?_, ?_, ?_, ?_⟩
  · rw [hall.length_eq]
    rfl
  · exact (hmem _).2 ⟨by simp, "ds_0", _, htakes rfl rfl rfl, by simp⟩
  · exact (hmem _).2 ⟨by simp, "ds_0", _, htakes rfl rfl rfl, by simp⟩
  · intro hcrossed
    obtain ⟨-, source, ps, hps, hsource⟩ := (hmem _).1 hcrossed
    rw [hps.unique (htakes rfl rfl rfl)] at hsource
    have hfirst := hsource _ (List.mem_cons_self)
    have hlast := hsource ⟨"ds_0", [⟨"t_shop", "t_shop_0"⟩, ⟨"t_item", "t_item_0"⟩]⟩ (by simp)
    rw [← hfirst] at hlast
    exact absurd hlast (by decide)

end ShardedSql
