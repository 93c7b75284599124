import ShardedSql.Proofs.Histories
import ShardedSql.Proofs.Placed

/-! The tables that a unit of a sharded statement maps. They are the leads with their partners, so every
sharding table of the statement is among them, and one is there twice just where two leads have it in
common, which takes a table that two binding groups share. -/

namespace ShardedSql

open Text (sameName)

/-- Of tables that are all different two are the same only if they are one. -/
theorem eq_of_apart {tables : List String} (h : tables.Pairwise fun a b => sameName a b = false)
    {a b : String} (ha : a ∈ tables) (hb : b ∈ tables) (hsame : sameName a b = true) : a = b := by
  have hsymm : Std.Symm fun a b => sameName a b = false := ⟨fun a b hab => by rwa [Text.sameName_comm]⟩
  by_contra hne
  have hdiffer := h.forall ha hb hne
  rw [hsame] at hdiffer
  cases hdiffer

namespace ShardingRule

variable {rule : ShardingRule}

/-- No two binding groups have one of the tables in common. -/
def BindsApart (rule : ShardingRule) (tables : List String) : Prop :=
  ∀ table ∈ tables, ∀ g ∈ rule.bindingGroups, ∀ g' ∈ rule.bindingGroups,
    Text.lower table ∈ g → Text.lower table ∈ g' → g = g'

theorem mem_of_bindingGroup? {table : String} {g : List String}
    (h : rule.bindingGroup? table = some g) : g ∈ rule.bindingGroups ∧ Text.lower table ∈ g := by
  have hmem := List.find?_some h
  exact ⟨List.mem_of_find?_eq_some h, List.contains_iff_mem.1 hmem⟩

/-- The group in which a table is looked up is the only one it is in. -/
theorem allBinding_of_group {tables : List String} (hbinds : rule.BindsApart tables) {a b : String}
    (ha : a ∈ tables) {g : List String} (hg : g ∈ rule.bindingGroups) (hag : Text.lower a ∈ g)
    (hbg : Text.lower b ∈ g) : rule.allBinding [a, b] = true := by
  have hfound : rule.bindingGroup? a = some g := by
    cases hfind : rule.bindingGroup? a with
    | none =>
      have hmissing := List.find?_eq_none.1 hfind g hg
      exact absurd (List.contains_iff_mem.2 hag) hmissing
    | some g' =>
      obtain ⟨hg', hag'⟩ := mem_of_bindingGroup? hfind
      rw [hbinds a ha g' hg' g hg hag' hag]
  simp [allBinding, hfound, hag, hbg]

end ShardingRule

namespace Placement

/-- A lead with its partners. -/
def Lead.tables (lead : Lead) : List String := lead.table :: lead.partners

/-- The tables of all leads, in the order in which a unit maps them. -/
def ledTables (rule : ShardingRule) (tables : List String) : List String :=
  (leads rule tables).flatMap Lead.tables

variable {rule : ShardingRule} {tables : List String}

/-- A table that is covered leads no more. -/
theorem leadsFrom_apart (all covered rest : List String) :
    (leadsFrom rule all covered rest).Pairwise
      (fun l l' => ∀ t ∈ l.tables, sameName t l'.table = false) ∧
    ∀ c ∈ covered, ∀ l ∈ leadsFrom rule all covered rest, sameName c l.table = false := by
  induction rest generalizing covered with
  | nil => exact ⟨.nil, fun _ _ l hl => absurd hl List.not_mem_nil⟩
  | cons table rest ih =>
    rw [leadsFrom]
    split
    · exact ih covered
    · rename_i hfree
      obtain ⟨hpairwise, hcovered⟩ := ih (covered ++ table :: all.filter fun other =>
        !sameName other table && rule.allBinding [table, other])
      refine ⟨List.pairwise_cons.2 ⟨fun l hl t ht => ?_, hpairwise⟩, fun c hc l hl => ?_⟩
      · exact hcovered t (List.mem_append_right _ ht) l hl
      · rcases List.mem_cons.1 hl with rfl | hl
        · rw [List.any_eq_true, not_exists] at hfree
          exact Bool.eq_false_iff.2 fun hsame => hfree c ⟨hc, hsame⟩
        · exact hcovered c (List.mem_append_left _ hc) l hl

/-- Every table is covered before or led. -/
theorem leadsFrom_covers {all covered rest : List String} {table : String} (h : table ∈ rest) :
    (∃ c ∈ covered, sameName c table = true) ∨
      ∃ l ∈ leadsFrom rule all covered rest, ∃ t ∈ l.tables, sameName t table = true := by
  induction rest generalizing covered with
  | nil => exact absurd h List.not_mem_nil
  | cons first rest ih =>
    rw [leadsFrom]
    split
    · rename_i hcovered
      rcases List.mem_cons.1 h with rfl | h
      · exact .inl (List.any_eq_true.1 hcovered)
      · exact ih h
    · rcases List.mem_cons.1 h with rfl | h
      · exact .inr ⟨_, List.mem_cons_self, table, List.mem_cons_self, Text.sameName_refl table⟩
      · rcases ih h with ⟨c, hc, hsame⟩ | ⟨l, hl, hled⟩
        · rcases List.mem_append.1 hc with hc | hc
          · exact .inl ⟨c, hc, hsame⟩
          · exact .inr ⟨_, List.mem_cons_self, c, hc, hsame⟩
        · exact .inr ⟨l, List.mem_cons_of_mem _ hl, hled⟩

theorem leads_cover {table : String} (h : table ∈ tables) :
    ∃ l ∈ leads rule tables, ∃ t ∈ l.tables, sameName t table = true :=
  (leadsFrom_covers h).resolve_left fun ⟨_, hc, _⟩ => List.not_mem_nil hc

theorem Lead.tables_subset {lead : Lead} (h : lead ∈ leads rule tables) : lead.tables ⊆ tables := by
  obtain ⟨htable, hpartners⟩ := mem_leads h
  rw [Lead.tables, hpartners]
  exact List.cons_subset.2 ⟨htable, List.filter_subset_self _⟩

theorem Lead.tables_nodup {lead : Lead} (h : lead ∈ leads rule tables) (hnodup : tables.Nodup) :
    lead.tables.Nodup := by
  obtain ⟨-, hpartners⟩ := mem_leads h
  refine List.nodup_cons.2 ⟨fun hself => ?_, ?_⟩
  · rw [hpartners] at hself
    have hother := (List.mem_filter.1 hself).2
    rw [Text.sameName_refl] at hother
    cases hother
  · rw [hpartners]
    exact hnodup.filter _

/-- The tables of a lead share a binding group with it, unless it is the lead itself. -/
theorem Lead.group_of_mem {lead : Lead} (h : lead ∈ leads rule tables) {t : String}
    (ht : t ∈ lead.tables) : t = lead.table ∨
      ∃ g ∈ rule.bindingGroups, Text.lower lead.table ∈ g ∧ Text.lower t ∈ g := by
  rcases List.mem_cons.1 ht with rfl | ht
  · exact .inl rfl
  · rw [(mem_leads h).2, List.mem_filter, Bool.and_eq_true] at ht
    obtain ⟨g, hg, hall⟩ := ShardingRule.group_of_allBinding ht.2.2
    exact .inr ⟨g, hg, hall _ (by simp), hall t (by simp)⟩

/-- What shares a binding group with a lead is led by it. -/
theorem Lead.mem_of_group (hbinds : rule.BindsApart tables) {lead : Lead}
    (h : lead ∈ leads rule tables) {t : String} (ht : t ∈ tables) {g : List String}
    (hg : g ∈ rule.bindingGroups) (hlead : Text.lower lead.table ∈ g) (htg : Text.lower t ∈ g) :
    ∃ t' ∈ lead.tables, sameName t' t = true := by
  obtain ⟨htable, hpartners⟩ := mem_leads h
  cases hsame : sameName t lead.table with
  | true => exact ⟨_, List.mem_cons_self, Text.sameName_symm hsame⟩
  | false =>
    refine ⟨t, List.mem_cons_of_mem _ ?_, Text.sameName_refl t⟩
    rw [hpartners, List.mem_filter]
    refine ⟨ht, ?_⟩
    rw [hsame, ShardingRule.allBinding_of_group hbinds htable hg hlead htg]
    rfl

/-- Where no two binding groups share a table, no two leads do. -/
theorem ledTables_nodup (hnodup : tables.Nodup) (hbinds : rule.BindsApart tables) :
    (ledTables rule tables).Nodup := by
  refine List.nodup_flatMap.2 ⟨fun lead h => lead.tables_nodup h hnodup, ?_⟩
  refine (leadsFrom_apart tables [] tables).1.imp_of_mem ?_
  intro l l' hl hl' hapart t ht ht'
  suffices hled : ∃ t' ∈ l.tables, sameName t' l'.table = true by
    obtain ⟨t', ht', hsame⟩ := hled
    rw [hapart t' ht'] at hsame
    cases hsame
  have hmem := (mem_leads hl').1
  rcases l'.group_of_mem hl' ht' with rfl | ⟨g', hg', hlead', htg'⟩
  · exact ⟨_, ht, Text.sameName_refl _⟩
  · rcases l.group_of_mem hl ht with rfl | ⟨g, hg, hlead, htg⟩
    · exact l.mem_of_group hbinds hl hmem hg' htg' hlead'
    · have hsame := hbinds t (l.tables_subset hl ht) g hg g' hg' htg htg'
      exact l.mem_of_group hbinds hl hmem hg hlead (hsame ▸ hlead')

/-- Of tables that are all different just those are led that there are. -/
theorem mem_ledTables (hapart : tables.Pairwise fun a b => sameName a b = false) {table : String} :
    table ∈ ledTables rule tables ↔ table ∈ tables := by
  constructor
  · intro h
    obtain ⟨lead, hlead, ht⟩ := List.mem_flatMap.1 h
    exact lead.tables_subset hlead ht
  · intro h
    obtain ⟨l, hl, t, ht, hsame⟩ := leads_cover h
    rw [← eq_of_apart hapart (l.tables_subset hl ht) h hsame]
    exact List.mem_flatMap.2 ⟨l, hl, ht⟩

/-- A unit of the standard route maps what is led. -/
theorem logics_of_standard {query : Query} {conditions : Conditions} {route : Route} {u : RouteUnit}
    (h : standard rule query conditions tables = .ok route) (hu : u ∈ route.units) :
    u.tables.map (·.logic) = ledTables rule tables := by
  obtain ⟨-, -, qs, hqs, htables⟩ := mem_standard h hu
  have hled : qs.map (fun q => q.tables.map (·.logic)) = (leads rule tables).map Lead.tables := by
    rw [← List.forall₂_eq_eq_eq, List.forall₂_map_left_iff, List.forall₂_map_right_iff]
    refine hqs.flip.imp fun q lead hq => ?_
    obtain ⟨⟨t, lists, node, -, -, -, hpiece⟩, -⟩ := hq
    exact (piece_eq_ok hpiece).2
  rw [htables, List.map_flatMap, ledTables, List.flatMap_def, List.flatMap_def, hled]

end Placement

namespace RouteUnit

/-- The unit maps every table and no other, in whatever letter case. -/
structure Maps (u : RouteUnit) (tables : List String) : Prop where
  only : ∀ m ∈ u.tables, ∃ t ∈ tables, sameName m.logic t = true
  every : ∀ t ∈ tables, ∃ m ∈ u.tables, sameName m.logic t = true

/-- The unit maps every table just once, and no other. -/
structure MapsOnce (u : RouteUnit) (tables : List String) : Prop where
  only : ∀ m ∈ u.tables, ∃ t ∈ tables, sameName m.logic t = true
  once : ∀ t ∈ tables, u.tables.countP (fun m => sameName m.logic t) = 1

variable {u : RouteUnit} {tables led : List String}

theorem maps_of_logics (hlogics : u.tables.map (·.logic) = led)
    (hled : ∀ t, t ∈ led ↔ t ∈ distinctBy sameName tables) : u.Maps tables := by
  constructor
  · intro m hm
    have hmem : m.logic ∈ led := hlogics ▸ List.mem_map_of_mem hm
    have hkind := (distinctBy_sublist _ _).subset ((hled _).1 hmem)
    exact ⟨m.logic, hkind, Text.sameName_refl _⟩
  · intro t ht
    obtain ⟨kind, hkind, hsame⟩ := distinctBy_covers Text.sameName_refl ht
    obtain ⟨m, hm, heq⟩ := List.mem_map.1 (hlogics ▸ (hled kind).2 hkind)
    exact ⟨m, hm, heq ▸ hsame⟩

theorem mapsOnce_iff (hlogics : u.tables.map (·.logic) = led)
    (hled : ∀ t, t ∈ led ↔ t ∈ distinctBy sameName tables) : u.MapsOnce tables ↔ led.Nodup := by
  have hapart := distinctBy_pairwise sameName tables
  -- the mappings of a table are counted by the one spelling of it that is led
  have hcount : ∀ t, ∀ kind ∈ led, sameName kind t = true →
      u.tables.countP (fun m => sameName m.logic t) = led.count kind := by
    intro t kind hkind hsame
    rw [← hlogics, List.count, List.countP_map]
    refine List.countP_congr fun m hm => ?_
    have hmem : m.logic ∈ led := hlogics ▸ List.mem_map_of_mem hm
    rw [Text.sameName_congr_right (Text.sameName_symm hsame), Function.comp_apply, beq_iff_eq]
    refine ⟨eq_of_apart hapart ((hled _).1 hmem) ((hled _).1 hkind), fun heq => ?_⟩
    rw [heq]
    exact Text.sameName_refl kind
  rw [List.nodup_iff_count_eq_one]
  constructor
  · intro h t ht
    rw [← hcount t t ht (Text.sameName_refl t)]
    exact h.once t ((distinctBy_sublist _ _).subset ((hled t).1 ht))
  · intro h
    refine ⟨(maps_of_logics hlogics hled).only, fun t ht => ?_⟩
    obtain ⟨kind, hkind, hsame⟩ := distinctBy_covers Text.sameName_refl ht
    rw [hcount t kind ((hled kind).2 hkind) hsame]
    exact h kind ((hled kind).2 hkind)

end RouteUnit

/-- A routed statement on sharding tables that is no definition and not all broadcast: each unit maps every
sharding table of the statement and nothing else. It maps each just once where no table is led twice, and
so where no two binding groups share one of the tables. -/
theorem sharded_units_map_tables {r : ShardingRouter} {topology : Topology} {parse : Reading}
    {s : ShardingState} {query : Query} {route : Route} (hs : r.Reached topology parse s)
    (hread : query.statement = parse query.sql) (hkind : query.statement.kind ≠ .ddl)
    (hbroadcast : r.rule.allBroadcast query.statement.tables = false)
    (h : (r.route query topology s).1 = .ok route) {u : RouteUnit} (hu : u ∈ route.units) :
    u.Maps (query.statement.tables.filter r.rule.isSharding) ∧
    (u.MapsOnce (query.statement.tables.filter r.rule.isSharding) ↔
      (Placement.ledTables r.rule (r.rule.shardingTables query.statement.tables)).Nodup) ∧
    (r.rule.BindsApart (query.statement.tables.filter r.rule.isSharding) →
      u.MapsOnce (query.statement.tables.filter r.rule.isSharding)) := by
  rw [(ShardingRouter.route_faithful hread hs.faithful).1] at h
  obtain ⟨e, placed, -, -, hplaced, -, rfl⟩ := ShardingRouter.answer_eq_ok.1 h
  have hlogics : u.tables.map (·.logic) =
      Placement.ledTables r.rule (r.rule.shardingTables query.statement.tables) := by
    rw [Placement.place, hbroadcast, if_neg Bool.false_ne_true] at hplaced
    split at hplaced
    · cases hplaced
      exact absurd hu List.not_mem_nil
    · rw [if_neg (by simpa using hkind)] at hplaced
      exact Placement.logics_of_standard hplaced hu
  have hapart := distinctBy_pairwise sameName (query.statement.tables.filter r.rule.isSharding)
  have hled : ∀ t, t ∈ Placement.ledTables r.rule (r.rule.shardingTables query.statement.tables) ↔ _ :=
    fun t => Placement.mem_ledTables hapart
  have honce := RouteUnit.mapsOnce_iff hlogics hled
  refine ⟨RouteUnit.maps_of_logics hlogics hled, honce, fun hbinds => honce.2 ?_⟩
  refine Placement.ledTables_nodup ?_ fun table ht => hbinds table ((distinctBy_sublist _ _).subset ht)
  refine hapart.imp fun hdiffer heq => ?_
  rw [heq, Text.sameName_refl] at hdiffer
  cases hdiffer

/-- A table in two halves on one data source. -/
def halved (table : String) : TableRule :=
  ⟨table, [⟨"ds_0", table ++ "_0"⟩, ⟨"ds_0", table ++ "_1"⟩], none, none, none, List.cons_ne_nil _ _⟩

def threeHalved : ShardingRule :=
  ((ShardingRule.empty.withTable (halved "a")).withTable (halved "b")).withTable (halved "c")

def bindingOf (groups : List (List String)) : ShardingRouter where
  rule := { threeHalved with bindingGroups := groups }
  validators := [.dml { threeHalved with bindingGroups := groups }]

def readThree : Query := ⟨"SELECT * FROM a, c, b", .of .select ["a", "c", "b"], [], .none⟩

/-- The units over these choices of halves. -/
def onHalves (choices : List (List Mapping)) : Route :=
  ⟨choices.map fun tables => ⟨⟨"ds_0", "ds_0"⟩, tables⟩, [], []⟩

def boundHalves : Route := onHalves [
  [⟨"a", "a_0"⟩, ⟨"b", "b_0"⟩, ⟨"c", "c_0"⟩], [⟨"a", "a_0"⟩, ⟨"b", "b_0"⟩, ⟨"c", "c_1"⟩],
  [⟨"a", "a_1"⟩, ⟨"b", "b_1"⟩, ⟨"c", "c_0"⟩], [⟨"a", "a_1"⟩, ⟨"b", "b_1"⟩, ⟨"c", "c_1"⟩]]

def sharedHalves : Route := onHalves [
  [⟨"a", "a_0"⟩, ⟨"b", "b_0"⟩, ⟨"c", "c_0"⟩, ⟨"b", "b_0"⟩],
  [⟨"a", "a_0"⟩, ⟨"b", "b_0"⟩, ⟨"c", "c_1"⟩, ⟨"b", "b_1"⟩],
  [⟨"a", "a_1"⟩, ⟨"b", "b_1"⟩, ⟨"c", "c_0"⟩, ⟨"b", "b_0"⟩],
  [⟨"a", "a_1"⟩, ⟨"b", "b_1"⟩, ⟨"c", "c_1"⟩, ⟨"b", "b_1"⟩]]

/-- With one binding group every half of the bound tables meets both halves of the other table. -/
theorem sharded_units_map_tables_bound :
    ((bindingOf [["a", "b"]]).route readThree ⟨"", ∅⟩ ⟨∅, none⟩).1 = .ok boundHalves ∧
      ∀ u ∈ boundHalves.units, u.MapsOnce ["a", "c", "b"] := by
  have hroute : ((bindingOf [["a", "b"]]).route readThree ⟨"", ∅⟩ ⟨∅, none⟩).1 = .ok boundHalves := rfl
  have hreached : (bindingOf [["a", "b"]]).Reached ⟨"", ∅⟩ (fun _ => readThree.statement) ⟨∅, none⟩ :=
    .initial rfl
  refine ⟨hroute, fun u hu => ?_⟩
  refine (sharded_units_map_tables hreached rfl (by decide) rfl hroute hu).2.2 ?_
  intro table _ g hg g' hg' _ _
  rw [List.mem_singleton.1 hg, List.mem_singleton.1 hg']

/-- Where a table is in two binding groups, a unit maps it to both of its halves. -/
theorem shared_table_mapped_twice :
    (threeHalved.withBindingGroup ["a", "b"] >>= fun rule => rule.withBindingGroup ["b", "c"]) =
        .ok (bindingOf [["a", "b"], ["b", "c"]]).rule ∧
      ((bindingOf [["a", "b"], ["b", "c"]]).route readThree ⟨"", ∅⟩ ⟨∅, none⟩).1 = .ok sharedHalves ∧
      ∀ u ∈ sharedHalves.units, ¬ u.MapsOnce ["a", "c", "b"] := by
  refine ⟨rfl, rfl, fun u hu honce => ?_⟩
  have htwice : ∀ u ∈ sharedHalves.units, u.tables.countP (fun m => sameName m.logic "b") = 2 := by
    decide
  have hsingle := honce.once "b" (by decide)
  rw [htwice u hu] at hsingle
  cases hsingle

end ShardedSql
