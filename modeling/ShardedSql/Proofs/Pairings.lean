import ShardedSql.Proofs.DeclaredNodes

/-! Bound tables are paired by their places among the actual tables of a data source. Where both have as many
there, and no two of one name, the pairing can be read in both directions, so no actual table is the partner
of two. -/

namespace ShardedSql

open Text (sameName)

namespace TableRule

variable {t : TableRule} {source : String}

/-- No two of the actual tables on the data source have one name. -/
def TellsApart (t : TableRule) (source : String) : Prop :=
  (t.tablesOn source).Pairwise fun a b => sameName a b = false

theorem indexOn?_getElem (h : t.TellsApart source) {i : Nat} (hi : i < (t.tablesOn source).length) :
    t.indexOn? source (t.tablesOn source)[i] = some i := by
  rw [indexOn?, List.findIdx?_eq_some_iff_getElem]
  refine ⟨hi, Text.sameName_refl _, fun j hj => ?_⟩
  rw [List.pairwise_iff_getElem.1 h j i (by omega) hi hj]
  exact Bool.false_ne_true

end TableRule

namespace ShardingRule

variable {rule : ShardingRule} {lead partner source : String} {t u : TableRule}

/-- Two tables with a rule each, with as many actual tables on the data source and none of them twice. -/
structure LaidOutAlike (rule : ShardingRule) (source lead partner : String) (t u : TableRule) : Prop where
  lead : rule.table? lead = some t
  partner : rule.table? partner = some u
  count : (t.tablesOn source).length = (u.tablesOn source).length
  leadApart : t.TellsApart source
  partnerApart : u.TellsApart source

namespace LaidOutAlike

variable (h : rule.LaidOutAlike source lead partner t u)
include h

theorem symm : rule.LaidOutAlike source partner lead u t :=
  ⟨h.partner, h.lead, h.count.symm, h.partnerApart, h.leadApart⟩

/-- The table at each place is paired with the one at that place. -/
theorem partnerTable?_getElem {i : Nat} (hi : i < (t.tablesOn source).length) :
    rule.partnerTable? source lead (t.tablesOn source)[i] partner = (u.tablesOn source)[i]? := by
  rw [partnerTable?, h.lead, h.partner]
  change ((t.indexOn? source (t.tablesOn source)[i]).bind fun i => (u.tablesOn source)[i]?) = _
  rw [TableRule.indexOn?_getElem h.leadApart hi, Option.bind_some]

theorem partnerTable?_back {a : String} (ha : a ∈ t.tablesOn source) :
    ∃ b ∈ u.tablesOn source, rule.partnerTable? source lead a partner = some b ∧
      rule.partnerTable? source partner b lead = some a := by
  obtain ⟨i, hi, rfl⟩ := List.mem_iff_getElem.1 ha
  have hi' : i < (u.tablesOn source).length := h.count ▸ hi
  refine ⟨_, List.getElem_mem hi', ?_, ?_⟩
  · rw [h.partnerTable?_getElem hi, List.getElem?_eq_getElem]
  · rw [h.symm.partnerTable?_getElem hi', List.getElem?_eq_getElem]

theorem partnerTable?_injective {a a' : String} (ha : a ∈ t.tablesOn source)
    (ha' : a' ∈ t.tablesOn source)
    (heq : rule.partnerTable? source lead a partner = rule.partnerTable? source lead a' partner) :
    a = a' := by
  obtain ⟨b, -, hb, hback⟩ := h.partnerTable?_back ha
  obtain ⟨b', -, hb', hback'⟩ := h.partnerTable?_back ha'
  rw [hb, hb', Option.some_inj] at heq
  rw [heq, hback'] at hback
  exact (Option.some_inj.1 hback).symm

end LaidOutAlike

end ShardingRule

namespace Placement

variable {rule : ShardingRule} {lead : Lead} {node : DataNode} {q : Piece}

/-- What stands beside the lead in a piece is paired with it. The lead itself may count as its partner. -/
theorem partnerTable?_of_mem_piece (h : piece rule lead node = .ok q) {m : Mapping} (hm : m ∈ q.tables)
    {t : TableRule} (ht : rule.table? lead.table = some t) (hapart : t.TellsApart node.dataSource)
    (hnode : node.table ∈ t.tablesOn node.dataSource) :
    rule.partnerTable? node.dataSource lead.table node.table m.logic = some m.actual := by
  obtain ⟨partners, hpartners, h⟩ := bind_eq_ok.1 h
  cases h
  rcases List.mem_cons.1 hm with rfl | hm
  · obtain ⟨i, hi, htable⟩ := List.mem_iff_getElem.1 hnode
    have hself : rule.LaidOutAlike node.dataSource lead.table lead.table t t :=
      ⟨ht, ht, rfl, hapart, hapart⟩
    rw [← htable, hself.partnerTable?_getElem hi, List.getElem?_eq_getElem]
  · obtain ⟨partner, -, hpair⟩ := (mem_of_mapM_ok hpartners m).1 hm
    unfold pairing at hpair
    split at hpair
    · cases hpair
      assumption
    · cases hpair

/-- A piece that has an actual table of the partner was placed on an actual table of the lead that is
paired with it. -/
theorem paired_of_mem_pieces {lead partner : String} {t u : TableRule} {p : Piece}
    (h : rule.LaidOutAlike p.source lead partner t u) {query : Query} {conditions : Conditions}
    {partners : List String} {lists : List (List DataNode)} {pieces : List Piece}
    (hplaced : placeLead rule query conditions ⟨lead, partners⟩ = .ok (lists, pieces))
    (hp : p ∈ pieces) {actual : String} (hm : ⟨partner, actual⟩ ∈ p.tables) :
    ∃ table ∈ t.tablesOn p.source, piece rule ⟨lead, partners⟩ ⟨p.source, table⟩ = .ok p ∧
      rule.partnerTable? p.source lead table partner = some actual := by
  obtain ⟨t', lists', ⟨source, table⟩, ht', hlists, hnode, hpiece⟩ := pieceOf_of_placeLead hplaced hp
  obtain rfl : t = t' := Option.some_inj.1 (h.lead.symm.trans ht')
  obtain rfl : p.source = source := (piece_eq_ok hpiece).1
  have htable := (mem_of_nodesOf hlists hnode).2
  have hpaired := partnerTable?_of_mem_piece hpiece hm h.lead h.leadApart htable
  exact ⟨table, htable, hpiece, hpaired⟩

end Placement

/-- Between two tables that are laid out alike on a data source, the pairing takes the actual tables of the
one there to those of the other, one to one and onto, and with the roles swapped it leads back. Of the pieces
of a lead there no two have the same actual table of the partner. -/
theorem binding_pairing_reversible {rule : ShardingRule} {source lead partner : String} {t u : TableRule}
    (h : rule.LaidOutAlike source lead partner t u) :
    Set.BijOn (fun a => rule.partnerTable? source lead a partner) {a | a ∈ t.tablesOn source}
        (some '' {b | b ∈ u.tablesOn source}) ∧
      (∀ a ∈ t.tablesOn source, ∀ b, rule.partnerTable? source lead a partner = some b →
        rule.partnerTable? source partner b lead = some a) ∧
      ∀ query conditions partners lists pieces,
        Placement.placeLead rule query conditions ⟨lead, partners⟩ = .ok (lists, pieces) →
        ∀ p ∈ pieces, ∀ q ∈ pieces, p.source = source → q.source = source →
          ∀ actual, ⟨partner, actual⟩ ∈ p.tables → ⟨partner, actual⟩ ∈ q.tables → p = q := by
  refine ⟨⟨?_, ?_, ?_⟩, ?_, ?_⟩
  · intro a ha
    obtain ⟨b, hb, hpaired, -⟩ := h.partnerTable?_back ha
    exact ⟨b, hb, hpaired.symm⟩
  · intro a ha a' ha'
    exact h.partnerTable?_injective ha ha'
  · rintro _ ⟨b, hb, rfl⟩
    obtain ⟨a, ha, -, hpaired⟩ := h.symm.partnerTable?_back hb
    exact ⟨a, ha, hpaired⟩
  · intro a ha b hpaired
    obtain ⟨b', -, hpaired', hback⟩ := h.partnerTable?_back ha
    rw [hpaired, Option.some_inj] at hpaired'
    rwa [hpaired']
  · intro query conditions partners lists pieces hplaced p hp q hq hsource hsource' actual hm hm'
    subst hsource
    obtain ⟨table, htable, hpiece, hpaired⟩ := Placement.paired_of_mem_pieces h hplaced hp hm
    obtain ⟨table', htable', hpiece', hpaired'⟩ :=
      Placement.paired_of_mem_pieces (hsource' ▸ h) hplaced hq hm'
    rw [hsource'] at htable' hpiece' hpaired'
    obtain rfl := h.partnerTable?_injective htable htable' (hpaired.trans hpaired'.symm)
    exact Except.ok.inj (hpiece.symm.trans hpiece')

/-- Orders and their items, on two data sources in turn, one of which is spelled in two ways. -/
def mixedOrders : TableRule where
  logicTable := "t_order"
  nodes := [⟨"ds_0", "t_order_a"⟩, ⟨"ds_1", "t_order_b"⟩, ⟨"DS_0", "t_order_c"⟩]
  databaseStrategy := none
  tableStrategy := none
  keyStrategy := none
  nodes_ne_nil := List.cons_ne_nil _ _

def mixedItems : TableRule where
  logicTable := "t_item"
  nodes := [⟨"ds_1", "t_item_1"⟩, ⟨"DS_0", "t_item_3"⟩, ⟨"ds_0", "t_item_2"⟩, ⟨"ds_1", "t_item_0"⟩]
  databaseStrategy := none
  tableStrategy := none
  keyStrategy := none
  nodes_ne_nil := List.cons_ne_nil _ _

def mixedShop : ShardingRule := (ShardingRule.empty.withTable mixedOrders).withTable mixedItems

theorem binding_pairing_reversible_mixed :
    mixedShop.LaidOutAlike "ds_0" "T_ORDER" "t_item" mixedOrders mixedItems ∧
      mixedShop.partnerTable? "ds_0" "T_ORDER" "t_order_c" "t_item" = some "t_item_2" ∧
      mixedShop.partnerTable? "ds_0" "t_item" "t_item_2" "T_ORDER" = some "t_order_c" := by
  have halike : mixedShop.LaidOutAlike "ds_0" "T_ORDER" "t_item" mixedOrders mixedItems :=
    ⟨rfl, rfl, rfl, by unfold TableRule.TellsApart; decide, by unfold TableRule.TellsApart; decide⟩
  have hpaired : mixedShop.partnerTable? "ds_0" "T_ORDER" "t_order_c" "t_item" = some "t_item_2" := rfl
  exact ⟨halike, hpaired,
    (binding_pairing_reversible halike).2.1 "t_order_c" (by decide) "t_item_2" hpaired⟩

end ShardedSql
