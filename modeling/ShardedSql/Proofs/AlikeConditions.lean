import ShardedSql.Proofs.Narrowing
import ShardedSql.Proofs.Placed

/-! Conditions that are alike place a statement on the same units. Whatever a strategy chooses under one of
them it chooses under the other, so each node, each piece and each unit of one side is on the other side. -/

namespace ShardedSql

/-- Values that are among others ask for targets that are among theirs. -/
theorem StandardAlgorithm.constrained_alike {a : StandardAlgorithm} {available ts ts' : List String}
    {column : String} {k l : Constraint} (hkl : k.Alike l)
    (h : Strategy.constrained a available column k = .ok ts)
    (h' : Strategy.constrained a available column l = .ok ts') : ts ⊆ ts' := by
  rcases k with vs | r <;> rcases l with vs' | r'
  · obtain ⟨found, hfound, h⟩ := bind_eq_ok.1 h
    obtain ⟨found', hfound', h'⟩ := bind_eq_ok.1 h'
    cases h
    cases h'
    intro t ht
    simp only [List.mem_filterMap, id_eq, exists_eq_right, mem_of_mapM_ok hfound,
      mem_of_mapM_ok hfound'] at ht ⊢
    obtain ⟨v, hv, ht⟩ := ht
    exact ⟨v, (hkl v).1 hv, ht⟩
  · exact hkl.elim
  · exact hkl.elim
  · obtain rfl : r = r' := hkl
    rw [h] at h'
    cases h'
    exact List.Subset.refl _

/-- A value holds the columns of another one, with the same values in some order and the same ranges. -/
structure ComplexValue.Within (v w : ComplexValue) : Prop where
  values : ∀ name vs, (name, vs) ∈ v.values.entries →
    ∃ ws, (name, ws) ∈ w.values.entries ∧ ∀ x, x ∈ vs ↔ x ∈ ws
  ranges : ∀ name r, (name, r) ∈ v.ranges.entries → (name, r) ∈ w.ranges.entries

namespace ComplexValue.Within

variable {v w : ComplexValue}

theorem values_isEmpty (h : v.Within w) (hw : w.values.isEmpty = true) : v.values.isEmpty = true := by
  refine List.isEmpty_iff.2 (List.eq_nil_iff_forall_not_mem.2 fun e he => ?_)
  obtain ⟨ws, hws, -⟩ := h.values e.1 e.2 he
  exact List.eq_nil_iff_forall_not_mem.1 (List.isEmpty_iff.1 hw) _ hws

theorem ranges_isEmpty (h : v.Within w) (hw : w.ranges.isEmpty = true) : v.ranges.isEmpty = true := by
  refine List.isEmpty_iff.2 (List.eq_nil_iff_forall_not_mem.2 fun e he => ?_)
  exact List.eq_nil_iff_forall_not_mem.1 (List.isEmpty_iff.1 hw) _ (h.ranges e.1 e.2 he)

end ComplexValue.Within

/-- Both sides have the same combinations, in some order, and so the same targets. -/
theorem ComplexInlineAlgorithm.targets_alike {v w : ComplexValue} (h : v.Within w) (h' : w.Within v)
    {a : ComplexInlineAlgorithm} {available ts ts' : List String} (hts : a.targets available v = .ok ts)
    (hts' : a.targets available w = .ok ts') : ts ⊆ ts' := by
  rcases targets_cases hts with ⟨hranges, rfl⟩ | ⟨hranges, names, ns, hns, rfl⟩ <;>
    rcases targets_cases hts' with ⟨hranges', rfl⟩ | ⟨hranges', names', ns', hns', rfl⟩
  · exact List.Subset.refl _
  · rw [h.ranges_isEmpty hranges'] at hranges
    cases hranges
  · rw [h'.ranges_isEmpty hranges] at hranges'
    cases hranges'
  · intro t ht
    rw [mem_distinct] at ht ⊢
    refine targets_picked h.values_isEmpty (fun picked hp name ws he => ?_) hns hns' ht
    obtain ⟨vs, hvs, hsame⟩ := h'.values name ws he
    obtain ⟨⟨_, x⟩, hx, rfl, hin⟩ := exists_of_mem_right (mem_combinations.1 hp) hvs
    exact ⟨x, (hsame x).2 hin, hx⟩

namespace Strategy

variable {available ts ts' : List String} {table : String} {k l : Condition} {hints : Option (List Value)}

theorem targets_standard (column : String) (a : StandardAlgorithm) :
    (standard column a).targets available table (some k) hints =
      match k.demands.of? table column with
      | none => .ok available
      | some c => constrained a available column c >>= fun rs => .ok (retain available rs) := by
  simp only [targets, Option.bind_some, Condition.demands]
  cases k.find? table column <;> rfl

theorem standard_alike {column : String} {a : StandardAlgorithm} (hkl : k.demands.Alike l.demands)
    (h : (standard column a).targets available table (some k) hints = .ok ts)
    (h' : (standard column a).targets available table (some l) hints = .ok ts') : ts ⊆ ts' := by
  rw [targets_standard] at h h'
  have hcolumn := hkl table column
  generalize k.demands.of? table column = o at h hcolumn
  generalize l.demands.of? table column = o' at h' hcolumn
  cases hcolumn with
  | none =>
    cases h
    cases h'
    exact List.Subset.refl _
  | some hc =>
    obtain ⟨rs, hrs, h⟩ := bind_eq_ok.1 h
    obtain ⟨rs', hrs', h'⟩ := bind_eq_ok.1 h'
    cases h
    cases h'
    exact retain_mono (StandardAlgorithm.constrained_alike hc hrs hrs')

/-- What a complex strategy is told of a column under one condition it is told under the other. -/
theorem says_alike {columns : List String} (hkl : k.demands.Alike l.demands) {name : String} {c : Constraint}
    (h : Says (complexValue columns table k) name c) :
    ∃ d, c.Alike d ∧ Says (complexValue columns table l) name d := by
  obtain ⟨hcolumn, hc⟩ := says_complexValue.1 h
  have hrel := hkl table name
  change Option.Rel _ (Option.map _ _) _ at hrel
  rw [hc] at hrel
  generalize hd : l.demands.of? table name = o at hrel
  cases hrel with
  | some hcd => exact ⟨_, hcd, says_complexValue.2 ⟨hcolumn, hd⟩⟩

theorem complexValue_within {columns : List String} (hkl : k.demands.Alike l.demands) :
    (complexValue columns table k).Within (complexValue columns table l) := by
  constructor
  · intro name vs h
    obtain ⟨d, hd, hsays⟩ := says_alike (c := .list vs) hkl h
    cases d with
    | list ws => exact ⟨ws, hsays, hd⟩
    | range r => exact hd.elim
  · intro name r h
    obtain ⟨d, hd, hsays⟩ := says_alike (c := .range r) hkl h
    cases d with
    | list ws => exact hd.elim
    | range r' =>
      obtain rfl : r = r' := hd
      exact hsays

theorem complex_alike {columns : List String} {a : ComplexInlineAlgorithm} (hkl : k.demands.Alike l.demands)
    (h : (complex columns a).targets available table (some k) hints = .ok ts)
    (h' : (complex columns a).targets available table (some l) hints = .ok ts') : ts ⊆ ts' := by
  have hwithin : (complexValue columns table k).Within (complexValue columns table l) :=
    complexValue_within hkl
  have hwithin' : (complexValue columns table l).Within (complexValue columns table k) :=
    complexValue_within hkl.symm
  simp only [targets, Option.map_some, Option.getD_some] at h h'
  generalize complexValue columns table k = v at h hwithin hwithin'
  generalize complexValue columns table l = w at h' hwithin hwithin'
  have hempty : (v.values.isEmpty && v.ranges.isEmpty) = (w.values.isEmpty && w.ranges.isEmpty) := by
    rw [Bool.eq_iff_iff, Bool.and_eq_true, Bool.and_eq_true]
    exact ⟨fun hv => ⟨hwithin'.values_isEmpty hv.1, hwithin'.ranges_isEmpty hv.2⟩,
      fun hw => ⟨hwithin.values_isEmpty hw.1, hwithin.ranges_isEmpty hw.2⟩⟩
  rw [hempty] at h
  split at h'
  · rename_i hnone
    rw [if_pos hnone] at h
    cases h
    cases h'
    exact List.Subset.refl _
  · rename_i hsome
    rw [if_neg hsome] at h
    obtain ⟨rs, hrs, h⟩ := bind_eq_ok.1 h
    obtain ⟨rs', hrs', h'⟩ := bind_eq_ok.1 h'
    cases h
    cases h'
    exact retain_mono (ComplexInlineAlgorithm.targets_alike hwithin hwithin' hrs hrs')

/-- What a strategy chooses under a condition it chooses under every condition alike. -/
theorem targets_alike {s : Strategy} (hkl : k.demands.Alike l.demands)
    (h : s.targets available table (some k) hints = .ok ts)
    (h' : s.targets available table (some l) hints = .ok ts') : ts ⊆ ts' := by
  cases s with
  | standard column a => exact standard_alike hkl h h'
  | complex columns a => exact complex_alike hkl h h'
  | everywhere | hint a =>
    obtain rfl : ts = ts' := Except.ok.inj (h.symm.trans h')
    exact List.Subset.refl _

end Strategy

namespace Placement

variable {rule : ShardingRule} {query : Query} {hint : Hint} {t : TableRule} {topology : Topology}
  {c d : Conditions} {tables : List String} {route route' : Route}

theorem nodesUnder_alike {k l : Condition} {nodes nodes' : List DataNode} (hkl : k.demands.Alike l.demands)
    (h : nodesUnder rule hint t (some k) = .ok nodes) (h' : nodesUnder rule hint t (some l) = .ok nodes') :
    nodes ⊆ nodes' :=
  nodesUnder_mono (Strategy.targets_alike hkl) (Strategy.targets_alike hkl) h h'

theorem nodesOf_alike {lists lists' : List (List DataNode)} (hcd : c.Alike d)
    (h : nodesOf rule hint t c = .ok lists) (h' : nodesOf rule hint t d = .ok lists') :
    lists.flatten ⊆ lists'.flatten := by
  unfold nodesOf at h h'
  rw [hcd.isEmpty] at h
  split at h'
  · rename_i hnone
    rw [if_pos hnone] at h
    cases h.symm.trans h'
    exact List.Subset.refl _
  · rename_i hsome
    rw [if_neg hsome] at h
    intro n hn
    obtain ⟨nodes, hnodes, hn⟩ := List.mem_flatten.1 hn
    obtain ⟨k, hk, hunder⟩ := (mem_of_mapM_ok h nodes).1 hnodes
    obtain ⟨l, hl, hkl⟩ := hcd.left k hk
    obtain ⟨nodes', hnodes', hunder'⟩ := exists_of_mem_left (mapM_eq_ok.1 h') hl
    exact List.mem_flatten.2 ⟨nodes', hnodes', nodesUnder_alike hkl hunder hunder' hn⟩

/-- A piece under some conditions is among those that the lead is placed by under conditions alike. -/
theorem mem_pieces_alike {lead : Lead} {lists : List (List DataNode)} {pieces : List Piece} {q : Piece}
    (hcd : c.Alike d) (hq : PieceOf rule query c lead q)
    (h : placeLead rule query d lead = .ok (lists, pieces)) : q ∈ pieces := by
  obtain ⟨t, lists₀, node, ht, hlists₀, hnode, hpiece⟩ := hq
  obtain ⟨t', ps, ht', hlists, -, hps, rfl⟩ := placeLead_eq_ok h
  rw [ht] at ht'
  cases ht'
  exact mem_distinct.2 ((mem_of_mapM_ok hps q).2 ⟨node, nodesOf_alike hcd hlists₀ hlists hnode, hpiece⟩)

theorem standard_alike (hcd : c.Alike d) (h : standard rule query c tables = .ok route)
    (h' : standard rule query d tables = .ok route') : route.units ⊆ route'.units := by
  rintro ⟨⟨source, actual⟩, mappings⟩ hu
  obtain ⟨hleads, hactual, qs, hqs, hmappings⟩ := mem_standard h hu
  obtain ⟨placed, hplaced, h'⟩ := bind_eq_ok.1 h'
  cases h'
  obtain rfl : actual = source := hactual
  obtain rfl : mappings = qs.flatMap (·.tables) := hmappings
  have hpieces : List.Forall₂ (fun q g => q ∈ g ∧ q.source = actual) qs (placed.map (·.2)) := by
    rw [List.forall₂_map_right_iff]
    refine (forall₂_comp (List.Forall₂.flip hqs) (mapM_eq_ok.1 hplaced)).imp ?_
    rintro q ⟨lists, pieces⟩ ⟨lead, ⟨hq, hsource⟩, hlead⟩
    exact ⟨mem_pieces_alike hcd hq hlead, hsource⟩
  have hchosen : qs ≠ [] := by
    rintro rfl
    exact hleads (List.forall₂_nil_right_iff.1 hqs)
  exact unit_mem_joinAll hchosen hpieces

end Placement

end ShardedSql
