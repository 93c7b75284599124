import ShardedSql.Proofs.Targets

/-! What a strategy chooses for the single values of a row it also chooses for every condition that
is true of those values, whichever part of them the condition speaks about. -/

namespace ShardedSql

/-- The condition gives single values to the columns of a table, or nothing where there is no
value. -/
def Condition.Pins (d : Condition) (columns : List String) (table : String)
    (value : String → Option Value) : Prop :=
  ∀ column ∈ columns,
    (d.find? table column).map (·.constraint) = (value column).map fun v => .list [v]

/-- What the condition says about the columns of a table is true of the values. -/
def Condition.TrueOf (c : Condition) (columns : List String) (table : String)
    (value : String → Option Value) : Prop :=
  ∀ column ∈ columns, ∀ e, c.find? table column = some e →
    ∃ v, value column = some v ∧ e.constraint.admits v = true

namespace Strategy

variable {available ts ts' : List String} {table : String} {value : String → Option Value}
  {c d : Condition} {hints hints' : Option (List Value)}

theorem standard_covers {column : String} {a : StandardAlgorithm}
    (hd : d.Pins [column] table value) (hc : c.TrueOf [column] table value)
    (h : (standard column a).targets available table (some d) hints = .ok ts)
    (h' : (standard column a).targets available table (some c) hints' = .ok ts') : ts ⊆ ts' := by
  have hsub := targets_subset h
  simp only [targets, Option.bind_some] at h h'
  split at h'
  · cases h'
    exact hsub
  · rename_i e he
    obtain ⟨rs', hrs', h'⟩ := bind_eq_ok.1 h'
    cases h'
    obtain ⟨v, hv, hadm⟩ := hc column (List.mem_singleton_self _) e he
    have hpin := hd column (List.mem_singleton_self _)
    rw [hv] at hpin
    obtain ⟨e₀, he₀, hk⟩ := Option.map_eq_some_iff.1 hpin
    rw [he₀] at h
    dsimp only at h
    rw [hk] at h
    obtain ⟨rs, hrs, h⟩ := bind_eq_ok.1 h
    cases h
    obtain ⟨os, hos, hrs⟩ := bind_eq_ok.1 hrs
    cases hrs
    intro name hname
    obtain ⟨t, ht, hfind⟩ := mem_retain.1 hname
    obtain ⟨o, ho, rfl⟩ := List.mem_filterMap.1 ht
    obtain ⟨w, hw, hprec⟩ := (mem_of_mapM_ok hos _).1 ho
    rw [List.mem_singleton.1 hw] at hprec
    cases hcon : e.constraint with
    | list vs =>
      rw [hcon] at hrs' hadm
      obtain ⟨os', hos', hrs'⟩ := bind_eq_ok.1 hrs'
      cases hrs'
      have hmem := (mem_of_mapM_ok hos' _).2 ⟨v, by simpa using hadm, hprec⟩
      exact mem_retain.2 ⟨t, List.mem_filterMap.2 ⟨_, hmem, rfl⟩, hfind⟩
    | range r =>
      rw [hcon] at hrs' hadm
      rcases StandardAlgorithm.mem_range_of_precise hprec hrs' hadm with rfl | hmem
      · exact retain_subset_all _ _ hname
      · exact mem_retain.2 ⟨t, hmem, hfind⟩

end Strategy

namespace ComplexInlineAlgorithm

/-- A combination picks one value of each column. -/
theorem mem_combinations {es : List (String × List Value)} {picked : List (String × Value)} :
    picked ∈ combinations es ↔ List.Forall₂ (fun p e => p.1 = e.1 ∧ p.2 ∈ e.2) picked es := by
  induction es generalizing picked with
  | nil => simp [combinations]
  | cons e es ih =>
    obtain ⟨column, values⟩ := e
    simp only [combinations, List.mem_flatMap, List.mem_map, ih]
    constructor
    · rintro ⟨v, hv, rest, hrest, rfl⟩
      exact .cons ⟨rfl, hv⟩ hrest
    · rintro (_ | @⟨⟨_, v⟩, _, rest, _, ⟨rfl, hv⟩, hrest⟩)
      exact ⟨v, hv, rest, hrest, rfl⟩

theorem targets_cases {a : ComplexInlineAlgorithm} {available ts : List String} {v : ComplexValue}
    (h : a.targets available v = .ok ts) :
    (v.ranges.isEmpty = false ∧ ts = available) ∨
    (v.ranges.isEmpty = true ∧ ∃ names ns, (flatten v.values).mapM
      (fun picked => Inline.target a.template names (bindings picked)) = .ok ns ∧
      ts = distinct ns) := by
  unfold targets at h
  split at h
  · rename_i hr
    split at h <;> cases h
    exact .inl ⟨by simpa using hr, rfl⟩
  · rename_i hr
    split at h
    · cases h
    · split at h
      · cases h
      · obtain ⟨ns, hns, h⟩ := bind_eq_ok.1 h
        cases h
        exact .inr ⟨by simpa using hr, _, ns, hns, rfl⟩

theorem names_of_mem_combinations {m : NameMap (List Value)} {picked : List (String × Value)}
    (h : picked ∈ combinations m.entries) : picked.Pairwise fun a b => a.1 ≠ b.1 := by
  have hnames : picked.map Prod.fst = m.entries.map Prod.fst := by
    rw [← List.forall₂_eq_eq_eq, List.forall₂_map_left_iff, List.forall₂_map_right_iff]
    exact (mem_combinations.1 h).imp fun _ _ h => h.1
  have hd := m.names_differ
  rw [← List.pairwise_map (R := (· ≠ ·))] at hd ⊢
  rwa [hnames]

/-- Where every combination holds a value for each column of another side, that side has the same
targets. -/
theorem targets_picked {template : Template} {names names' : String} {m m' : NameMap (List Value)}
    {ns ns' : List String} (hempty : m'.isEmpty = true → m.isEmpty = true)
    (hpicked : ∀ picked ∈ combinations m.entries, ∀ name vs, (name, vs) ∈ m'.entries →
      ∃ v ∈ vs, (name, v) ∈ picked)
    (h : (flatten m).mapM (fun picked => Inline.target template names (bindings picked)) = .ok ns)
    (h' : (flatten m').mapM (fun picked => Inline.target template names' (bindings picked)) =
      .ok ns') : ns ⊆ ns' := by
  intro t ht
  obtain ⟨picked, hmem, ht⟩ := (mem_of_mapM_ok h t).1 ht
  have hsome : ¬ m.isEmpty = true := by
    intro hnone
    rw [flatten, if_pos hnone] at hmem
    exact List.not_mem_nil hmem
  rw [flatten, if_neg hsome] at hmem
  have hvalue : ∀ name v, (name, v) ∈ picked → picked.lookup name = some v := fun _ _ =>
    lookup_of_mem (names_of_mem_combinations hmem)
  -- the same values, for the columns of the other side only
  have hfewer : (m'.entries.map fun e => (e.1, (picked.lookup e.1).getD .null)) ∈ flatten m' := by
    rw [flatten, if_neg (mt hempty hsome), mem_combinations, List.forall₂_map_left_iff, List.forall₂_same]
    rintro ⟨name, vs⟩ he
    obtain ⟨v, hv, hin⟩ := hpicked picked hmem name vs he
    rw [hvalue name v hin]
    exact ⟨rfl, hv⟩
  have hext : Bindings.Extends
      (bindings (m'.entries.map fun e => (e.1, (picked.lookup e.1).getD .null))) (bindings picked) := by
    intro name w hw
    obtain ⟨⟨name', vs⟩, he, hpair⟩ := List.mem_map.1 (mem_of_lookup hw)
    cases hpair
    obtain ⟨v, -, hin⟩ := hpicked picked hmem name' vs he
    rw [hvalue name' v hin]
    exact hvalue name' v hin
  obtain ⟨t', ht', hfound⟩ := exists_of_mem_left (mapM_eq_ok.1 h') hfewer
  rw [Inline.target_extends hext hfound] at ht
  cases ht
  exact ht'

end ComplexInlineAlgorithm

namespace Strategy

variable {available ts ts' : List String} {table : String} {value : String → Option Value}
  {c d : Condition} {hints hints' : Option (List Value)}

theorem says_of_pins {columns : List String} (hd : d.Pins columns table value) {name : String}
    {k : Constraint} :
    Says (complexValue columns table d) name k ↔
      name ∈ columns ∧ ∃ v, value name = some v ∧ k = .list [v] := by
  rw [says_complexValue]
  refine and_congr_right fun hcol => ?_
  rw [hd name hcol]
  constructor
  · intro h
    obtain ⟨v, hv, rfl⟩ := Option.map_eq_some_iff.1 h
    exact ⟨v, hv, rfl⟩
  · rintro ⟨v, hv, rfl⟩
    rw [hv, Option.map_some]

/-- A condition that says anything about the columns of the row has the row pin that column. -/
theorem says_of_trueOf {columns : List String} (hc : c.TrueOf columns table value) {name : String}
    {k : Constraint} (h : Says (complexValue columns table c) name k) :
    name ∈ columns ∧ ∃ v, value name = some v ∧ k.admits v = true := by
  obtain ⟨hcol, hfind⟩ := says_complexValue.1 h
  obtain ⟨e, he, rfl⟩ := Option.map_eq_some_iff.1 hfind
  exact ⟨hcol, hc name hcol e he⟩

theorem says_something {v : ComplexValue} (h : ¬ (v.values.isEmpty && v.ranges.isEmpty) = true) :
    ∃ name k, Says v name k := by
  by_contra hno
  refine h (Bool.and_eq_true_iff.2 ⟨List.isEmpty_iff.2 ?_, List.isEmpty_iff.2 ?_⟩) <;>
    refine List.eq_nil_iff_forall_not_mem.2 fun e he => hno ?_
  · exact ⟨e.1, .list e.2, he⟩
  · exact ⟨e.1, .range e.2, he⟩

theorem complex_covers {columns : List String} {a : ComplexInlineAlgorithm}
    (hd : d.Pins columns table value) (hc : c.TrueOf columns table value)
    (h : (complex columns a).targets available table (some d) hints = .ok ts)
    (h' : (complex columns a).targets available table (some c) hints' = .ok ts') : ts ⊆ ts' := by
  have hsub := targets_subset h
  -- what the condition says about a column the row says as well
  have hpinned : ∀ name k, Says (complexValue columns table c) name k → ∃ v, value name = some v ∧
      k.admits v = true ∧ (name, [v]) ∈ (complexValue columns table d).values.entries := by
    intro name k hk
    obtain ⟨hcol, v, hv, hadm⟩ := says_of_trueOf hc hk
    exact ⟨v, hv, hadm, (says_of_pins (k := .list [v]) hd).2 ⟨hcol, v, hv, rfl⟩⟩
  simp only [targets, Option.map_some, Option.getD_some] at h h'
  generalize hV : complexValue columns table d = V at h hpinned
  generalize hV' : complexValue columns table c = V' at h' hpinned
  split at h'
  · cases h'
    exact hsub
  · rename_i hne
    obtain ⟨rs', hrs', h'⟩ := bind_eq_ok.1 h'
    cases h'
    obtain ⟨name, k, hk⟩ := says_something hne
    obtain ⟨v, -, -, hentry⟩ := hpinned name k hk
    have hvalues : V.values.isEmpty = false := List.isEmpty_eq_false_iff_exists_mem.2 ⟨_, hentry⟩
    have hranges : V.ranges.isEmpty = true := by
      refine List.isEmpty_iff.2 (List.eq_nil_iff_forall_not_mem.2 fun e he => ?_)
      rw [← hV] at he
      obtain ⟨-, v, -, hv⟩ := (says_of_pins (k := .range e.2) hd).1 he
      cases hv
    rw [hvalues] at h
    obtain ⟨rs, hrs, h⟩ := bind_eq_ok.1 h
    cases h
    obtain ⟨hr, -⟩ | ⟨-, names, ns, hns, rfl⟩ := ComplexInlineAlgorithm.targets_cases hrs
    · rw [hranges] at hr
      cases hr
    · obtain ⟨-, rfl⟩ | ⟨hr', names', ns', hns', rfl⟩ := ComplexInlineAlgorithm.targets_cases hrs'
      · exact retain_subset_all _ _
      · refine retain_mono fun t ht => ?_
        rw [mem_distinct] at ht ⊢
        have hvalues' : V'.values.isEmpty = false := by
          simpa [hr'] using hne
        refine ComplexInlineAlgorithm.targets_picked (fun hnone => ?_) (fun picked hp name vs he => ?_)
          hns hns' ht
        · rw [hvalues'] at hnone
          cases hnone
        · obtain ⟨v, -, hadm, hmem⟩ := hpinned name (.list vs) he
          obtain ⟨⟨_, w⟩, hw, rfl, hval⟩ :=
            exists_of_mem_right (ComplexInlineAlgorithm.mem_combinations.1 hp) hmem
          cases List.mem_singleton.1 hval
          exact ⟨w, (Constraint.admits_list _ _).1 hadm, hw⟩

/-- What a strategy chooses for the values of a row it also chooses for every condition that is
true of them. -/
theorem targets_covers {s : Strategy} (hs : s.isHint = false) (hd : d.Pins s.columns table value)
    {c : Option Condition} (hc : ∀ c' ∈ c, c'.TrueOf s.columns table value)
    (h : s.targets available table (some d) hints = .ok ts)
    (h' : s.targets available table c hints' = .ok ts') : ts ⊆ ts' := by
  have hsub := targets_subset h
  cases c with
  | none =>
    cases s with
    | everywhere | standard column a | complex columns a =>
      cases h'
      exact hsub
    | hint a => cases hs
  | some c =>
    have hc := hc c rfl
    cases s with
    | everywhere =>
      cases h'
      exact hsub
    | standard column a => exact standard_covers hd hc h h'
    | complex columns a => exact complex_covers hd hc h h'
    | hint a => cases hs

end Strategy

end ShardedSql
