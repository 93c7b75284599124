import ShardedSql.Proofs.Distinct
import ShardedSql.Proofs.JoinedPieces
import ShardedSql.Proofs.Names

/-! Joining the tables of a statement. Tables that are bound to no other one are placed on their own,
and the join holds every choice of one piece for each of them on one data source. -/

namespace ShardedSql

open Text (sameName)

/-- No binding group holds both tables. -/
def ShardingRule.Unbound (rule : ShardingRule) (a b : String) : Prop :=
  ∀ group ∈ rule.bindingGroups, ¬ (Text.lower a ∈ group ∧ Text.lower b ∈ group)

theorem mem_shardingTables {rule : ShardingRule} {tables : List String} {table : String}
    (h : table ∈ rule.shardingTables tables) : table ∈ tables ∧ rule.isSharding table = true :=
  List.mem_filter.1 ((distinctBy_sublist _ _).subset h)

theorem exists_mem_shardingTables {rule : ShardingRule} {tables : List String} {table : String}
    {t : TableRule} (h : table ∈ tables) (ht : rule.table? table = some t) :
    ∃ table' ∈ rule.shardingTables tables, sameName table' table = true := by
  have hmem : table ∈ tables.filter rule.isSharding :=
    List.mem_filter.2 ⟨h, by rw [ShardingRule.isSharding, ht]; rfl⟩
  exact distinctBy_covers Text.sameName_refl hmem

/-- Tables that are bound together are all in one group. -/
theorem ShardingRule.group_of_allBinding {rule : ShardingRule} {tables : List String}
    (h : rule.allBinding tables = true) :
    ∃ group ∈ rule.bindingGroups, ∀ table ∈ tables, Text.lower table ∈ group := by
  unfold allBinding at h
  split at h
  · cases h
  · obtain ⟨group, hgroup, hall⟩ := (Option.any_eq_true _ _).1 h
    rw [List.all_eq_true] at hall
    exact ⟨group, List.mem_of_find?_eq_some hgroup, fun table ht => List.contains_iff_mem.1 (hall table ht)⟩

namespace Placement

variable {rule : ShardingRule}

theorem allBinding_of_unbound {a b : String} (h : rule.Unbound a b) :
    rule.allBinding [a, b] = false := by
  rw [Bool.eq_false_iff]
  intro hbound
  obtain ⟨group, hgroup, hall⟩ := ShardingRule.group_of_allBinding hbound
  exact h group hgroup ⟨hall a (by simp), hall b (by simp)⟩

theorem mem_leadsFrom {all covered rest : List String} {lead : Lead}
    (h : lead ∈ leadsFrom rule all covered rest) :
    lead.table ∈ rest ∧ lead.partners = all.filter fun other =>
      !sameName other lead.table && rule.allBinding [lead.table, other] := by
  induction rest generalizing covered with
  | nil => exact absurd h List.not_mem_nil
  | cons table rest ih =>
    rw [leadsFrom] at h
    split at h
    · obtain ⟨hmem, hpartners⟩ := ih h
      exact ⟨List.mem_cons_of_mem _ hmem, hpartners⟩
    · rcases List.mem_cons.1 h with rfl | h
      · exact ⟨List.mem_cons_self, rfl⟩
      · obtain ⟨hmem, hpartners⟩ := ih h
        exact ⟨List.mem_cons_of_mem _ hmem, hpartners⟩

/-- A lead is one of the tables, and its partners are those that are bound to it. -/
theorem mem_leads {tables : List String} {lead : Lead} (h : lead ∈ leads rule tables) :
    lead.table ∈ tables ∧ lead.partners = tables.filter fun other =>
      !sameName other lead.table && rule.allBinding [lead.table, other] :=
  mem_leadsFrom h

theorem leadsFrom_unbound {all covered rest : List String}
    (hrest : rest.Pairwise fun a b => sameName a b = false)
    (hcovered : ∀ c ∈ covered, ∀ a ∈ rest, sameName c a = false)
    (hfree : ∀ a ∈ rest, ∀ b ∈ all, sameName b a = true ∨ rule.Unbound a b) :
    leadsFrom rule all covered rest = rest.map (⟨·, []⟩) := by
  induction rest generalizing covered with
  | nil => rfl
  | cons table rest ih =>
    obtain ⟨htable, hrest⟩ := List.pairwise_cons.1 hrest
    have hany : covered.any (sameName · table) = false := by
      simpa using fun c hc => hcovered c hc table List.mem_cons_self
    have hpartners : (all.filter fun other =>
        !sameName other table && rule.allBinding [table, other]) = [] := by
      refine List.filter_eq_nil_iff.2 fun b hb => ?_
      rcases hfree table List.mem_cons_self b hb with hs | hu
      · simp [hs]
      · simp [allBinding_of_unbound hu]
    rw [leadsFrom, hany, if_neg Bool.false_ne_true, hpartners]
    dsimp only
    rw [List.map_cons, ih hrest _ fun a ha => hfree a (List.mem_cons_of_mem _ ha)]
    intro c hc a ha
    rcases List.mem_append.1 hc with hc | hc
    · exact hcovered c hc a (List.mem_cons_of_mem _ ha)
    · rw [List.mem_singleton.1 hc]
      exact htable a ha

/-- Tables that are bound to no other one have no partners. -/
theorem leads_unbound {tables : List String}
    (hapart : tables.Pairwise fun a b => sameName a b = false)
    (hfree : ∀ a ∈ tables, ∀ b ∈ tables, sameName b a = true ∨ rule.Unbound a b) :
    leads rule tables = tables.map (⟨·, []⟩) :=
  leadsFrom_unbound hapart (fun _ h => absurd h List.not_mem_nil) hfree

/-- A table on its own. -/
def lonePiece (table : String) (n : DataNode) : Piece := ⟨n.dataSource, [⟨table, n.table⟩]⟩

theorem piece_lone (table : String) (n : DataNode) :
    piece rule ⟨table, []⟩ n = .ok (lonePiece table n) := rfl

theorem pieces_lone (table : String) (nodes : List DataNode) :
    nodes.mapM (piece rule ⟨table, []⟩) = .ok (nodes.map (lonePiece table)) := by
  rw [mapM_eq_ok, List.forall₂_map_right_iff, List.forall₂_same]
  exact fun n _ => piece_lone table n

/-- A lead is placed by the nodes of its table, each of which makes a piece. -/
theorem placeLead_eq_ok {query : Query} {conditions : Conditions} {lead : Lead}
    {lists : List (List DataNode)} {pieces : List Piece}
    (h : placeLead rule query conditions lead = .ok (lists, pieces)) :
    ∃ t ps, rule.table? lead.table = some t ∧ nodesOf rule query.hint t conditions = .ok lists ∧
      (query.statement.kind = .insert → checkRows lead.table lists = .ok ()) ∧
      lists.flatten.mapM (piece rule lead) = .ok ps ∧ pieces = distinct ps := by
  unfold placeLead at h
  cases ht : rule.table? lead.table with
  | none =>
    rw [ht] at h
    cases h
  | some t =>
    rw [ht] at h
    obtain ⟨lists', hlists, h⟩ := bind_eq_ok.1 h
    dsimp only at h
    split at h
    · obtain ⟨_, hcheck, h⟩ := bind_eq_ok.1 h
      obtain ⟨ps, hps, h⟩ := bind_eq_ok.1 h
      cases h
      exact ⟨t, ps, rfl, hlists, fun _ => hcheck, hps, rfl⟩
    · rename_i hkind
      obtain ⟨ps, hps, h⟩ := bind_eq_ok.1 h
      cases h
      exact ⟨t, ps, rfl, hlists, fun hinsert => absurd (beq_iff_eq.2 hinsert) hkind, hps, rfl⟩

/-- A table without partners is placed by its own nodes. -/
theorem placeLead_lone {query : Query} {conditions : Conditions} {table : String}
    {lists : List (List DataNode)} {pieces : List Piece}
    (h : placeLead rule query conditions ⟨table, []⟩ = .ok (lists, pieces)) :
    ∃ t, rule.table? table = some t ∧ nodesOf rule query.hint t conditions = .ok lists ∧
      (query.statement.kind = .insert → checkRows table lists = .ok ()) ∧
      pieces = distinct (lists.flatten.map (lonePiece table)) := by
  obtain ⟨t, ps, ht, hlists, hcheck, hps, rfl⟩ := placeLead_eq_ok h
  rw [pieces_lone] at hps
  cases hps
  exact ⟨t, ht, hlists, hcheck, rfl⟩

/-- A choice of pieces on one data source is a unit. -/
theorem unit_mem_joinAll {source : String} {qs : List Piece} {groups : List (List Piece)} (hne : qs ≠ [])
    (h : List.Forall₂ (fun q g => q ∈ g ∧ q.source = source) qs groups) :
    ⟨⟨source, source⟩, qs.flatMap (·.tables)⟩ ∈ distinct ((joinAll groups).map Piece.unit) := by
  have hgroups : groups ≠ [] := by
    rintro rfl
    exact hne (List.forall₂_nil_right_iff.1 h)
  have hjoined : ⟨source, qs.flatMap (·.tables)⟩ ∈ joinAll groups :=
    mem_joinAll.2 ⟨hgroups, qs, h, rfl⟩
  exact mem_distinct.2 (List.mem_map_of_mem hjoined)

end Placement

end ShardedSql
