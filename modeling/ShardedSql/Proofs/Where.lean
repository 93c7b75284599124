import ShardedSql.Rule.Extraction
import ShardedSql.Proofs.Names
import ShardedSql.Proofs.Order
import ShardedSql.Proofs.Success

/-! The conditions extracted from a `WHERE` clause mean the part of the clause that is about sharding
columns. The invariant of the fold over a group: the entries so far together with the predicates
still to come are satisfied by the same values as the whole group. -/

namespace ShardedSql

open Text (sameName)

/-- What the columns hold. A column may hold nothing, and names count up to the case of ASCII
letters. -/
structure Valuation where
  value? : String → String → Option Value
  same : ∀ {t t' c c'}, sameName t t' = true → sameName c c' = true → value? t c = value? t' c'

/-- The value of an operand, if its parameter is bound. -/
def Operand.value? (params : List Value) : Operand → Option Value
  | .literal v => some v
  | .parameter index => params[index]?

/-- Whether a comparison holds of a value. -/
def Comparison.Holds (params : List Value) (v : Value) : Comparison → Prop
  | .equal o => o.value? params = some v
  | .oneOf os => ∃ o ∈ os, o.value? params = some v
  | .between lower upper =>
    ∃ a b, lower.value? params = some a ∧ upper.value? params = some b ∧ a ≤ v ∧ v ≤ b
  | .lessThan o => ∃ a, o.value? params = some a ∧ v < a
  | .atMost o => ∃ a, o.value? params = some a ∧ v ≤ a
  | .greaterThan o => ∃ a, o.value? params = some a ∧ a < v
  | .atLeast o => ∃ a, o.value? params = some a ∧ a ≤ v

def Predicate.Holds (params : List Value) (a : Valuation) (p : Predicate) : Prop :=
  ∃ v, a.value? p.table p.column = some v ∧ p.comparison.Holds params v

/-- All predicates of a group on sharding columns hold. -/
def GroupHolds (rule : ShardingRule) (params : List Value) (a : Valuation)
    (group : List Predicate) : Prop :=
  ∀ p ∈ group, rule.isShardingColumn p.table p.column = true → p.Holds params a

/-- No predicate of a group is on a sharding column. -/
def Unsharded (rule : ShardingRule) (group : List Predicate) : Prop :=
  ∀ p ∈ group, rule.isShardingColumn p.table p.column = false

namespace ColumnConstraint

def Satisfied (a : Valuation) (e : ColumnConstraint) : Prop :=
  ∃ v, a.value? e.table e.column = some v ∧ e.constraint.admits v = true

def SameColumn (e d : ColumnConstraint) : Prop :=
  sameName e.table d.table = true ∧ sameName e.column d.column = true

end ColumnConstraint

def Condition.Satisfied (a : Valuation) (c : Condition) : Prop := ∀ e ∈ c.entries, e.Satisfied a

/-- No two entries are about one column. -/
def DistinctColumns (entries : List ColumnConstraint) : Prop :=
  entries.Pairwise fun e d => ¬ e.SameColumn d

namespace Extraction

theorem resolve_eq_ok {params : List Value} {o : Operand} {v : Value} :
    resolve params o = .ok v ↔ o.value? params = some v := by
  cases o with
  | literal w => simp [resolve, Operand.value?]
  | parameter index =>
    simp only [resolve, Operand.value?]
    cases params[index]? <;> simp

/-- A comparison becomes the constraint that admits what it holds of. -/
theorem admits_iff_holds {params : List Value} {c : Comparison} {k : Constraint}
    (h : constraint params c = .ok k) (v : Value) : k.admits v = true ↔ c.Holds params v := by
  cases c with
  | equal o =>
    obtain ⟨a, ha, hk⟩ := bind_eq_ok.1 h
    cases hk
    rw [resolve_eq_ok] at ha
    simp only [Constraint.admits_ofValues, List.mem_singleton, Comparison.Holds, ha,
      Option.some.injEq]
    exact eq_comm
  | oneOf os =>
    obtain ⟨vs, hvs, hk⟩ := bind_eq_ok.1 h
    cases hk
    simp [Comparison.Holds, mem_of_mapM_ok hvs, resolve_eq_ok]
  | between lower upper =>
    obtain ⟨a, ha, h⟩ := bind_eq_ok.1 h
    obtain ⟨b, hb, hk⟩ := bind_eq_ok.1 h
    cases hk
    rw [resolve_eq_ok] at ha hb
    simp [Comparison.Holds, ha, hb, ValueRange.closed, ValueRange.contains, Bound.allowsAbove,
      Bound.allowsBelow, Value.le_iff]
  | _ o =>
    obtain ⟨a, ha, hk⟩ := bind_eq_ok.1 h
    cases hk
    rw [resolve_eq_ok] at ha
    simp [Comparison.Holds, ha, ValueRange.contains, Bound.allowsAbove, Bound.allowsBelow,
      Value.le_iff, Value.lt_iff]

theorem satisfied_intersect (a : Valuation) {e d : ColumnConstraint} (h : e.SameColumn d) :
    (∃ k, e.constraint.intersect d.constraint = some k ∧
      ColumnConstraint.Satisfied a { e with constraint := k }) ↔ e.Satisfied a ∧ d.Satisfied a := by
  have hv := a.same h.1 h.2
  unfold ColumnConstraint.Satisfied
  dsimp only
  rw [← hv]
  cases a.value? e.table e.column with
  | none => simp
  | some v => simp [Constraint.admits_intersect]

/-- Narrowing leaves what the entry and the old entries allow together. -/
theorem narrow_satisfied (a : Valuation) (entry : ColumnConstraint) (es : List ColumnConstraint) :
    (∃ es', narrow entry es = some es' ∧ ∀ e ∈ es', e.Satisfied a) ↔
      entry.Satisfied a ∧ ∀ e ∈ es, e.Satisfied a := by
  induction es with
  | nil => simp [narrow]
  | cons e es ih =>
    rw [narrow]
    split
    · rename_i hs
      rw [Bool.and_eq_true] at hs
      have hk := satisfied_intersect a hs
      simp only [Option.map_eq_some_iff, List.forall_mem_cons]
      constructor
      · rintro ⟨_, ⟨k, hk', rfl⟩, h⟩
        obtain ⟨he, hes⟩ := List.forall_mem_cons.1 h
        obtain ⟨he, hd⟩ := hk.1 ⟨k, hk', he⟩
        exact ⟨hd, he, hes⟩
      · rintro ⟨hd, he, hes⟩
        obtain ⟨k, hk', he⟩ := hk.2 ⟨he, hd⟩
        exact ⟨_, ⟨k, hk', rfl⟩, List.forall_mem_cons.2 ⟨he, hes⟩⟩
    · simp only [Option.map_eq_some_iff, List.forall_mem_cons]
      constructor
      · rintro ⟨_, ⟨es', hn, rfl⟩, h⟩
        obtain ⟨he, hes⟩ := List.forall_mem_cons.1 h
        obtain ⟨hd, hes⟩ := ih.1 ⟨es', hn, hes⟩
        exact ⟨hd, he, hes⟩
      · rintro ⟨hd, he, hes⟩
        obtain ⟨es', hn, hes⟩ := ih.2 ⟨hd, hes⟩
        exact ⟨_, ⟨es', hn, rfl⟩, List.forall_mem_cons.2 ⟨he, hes⟩⟩

/-- Narrowing keeps the columns of the entries and adds at most that of the new one. -/
theorem narrow_columns {entry : ColumnConstraint} {es es' : List ColumnConstraint}
    (h : narrow entry es = some es') {d : ColumnConstraint} (hd : d ∈ es') :
    d = entry ∨ ∃ e ∈ es, e.table = d.table ∧ e.column = d.column := by
  induction es generalizing es' with
  | nil =>
    cases h
    exact .inl (List.mem_singleton.1 hd)
  | cons e es ih =>
    rw [narrow] at h
    split at h
    · obtain ⟨k, -, rfl⟩ := Option.map_eq_some_iff.1 h
      rcases List.mem_cons.1 hd with rfl | hd
      · exact .inr ⟨e, List.mem_cons_self, rfl, rfl⟩
      · exact .inr ⟨d, List.mem_cons_of_mem _ hd, rfl, rfl⟩
    · obtain ⟨es'', hn, rfl⟩ := Option.map_eq_some_iff.1 h
      rcases List.mem_cons.1 hd with rfl | hd
      · exact .inr ⟨d, List.mem_cons_self, rfl, rfl⟩
      · rcases ih hn hd with hd | ⟨c, hc, hn⟩
        · exact .inl hd
        · exact .inr ⟨c, List.mem_cons_of_mem _ hc, hn⟩

theorem narrow_distinct {entry : ColumnConstraint} {es es' : List ColumnConstraint}
    (h : narrow entry es = some es') (hes : DistinctColumns es) : DistinctColumns es' := by
  induction es generalizing es' with
  | nil =>
    cases h
    exact List.pairwise_singleton _ _
  | cons e es ih =>
    obtain ⟨he, hes⟩ := List.pairwise_cons.1 hes
    rw [narrow] at h
    split at h
    · obtain ⟨k, -, rfl⟩ := Option.map_eq_some_iff.1 h
      exact List.pairwise_cons.2 ⟨he, hes⟩
    · rename_i hne
      obtain ⟨es'', hn, rfl⟩ := Option.map_eq_some_iff.1 h
      refine List.pairwise_cons.2 ⟨fun d hd hs => ?_, ih hn hes⟩
      rcases narrow_columns hn hd with rfl | ⟨c, hc, ht, hcol⟩
      · exact hne (Bool.and_eq_true _ _ ▸ hs)
      · refine he c hc ?_
        rw [ColumnConstraint.SameColumn, ht, hcol]
        exact hs

theorem narrow_ne_nil {entry : ColumnConstraint} {es es' : List ColumnConstraint}
    (h : narrow entry es = some es') : es' ≠ [] := by
  cases es with
  | nil =>
    cases h
    exact List.cons_ne_nil _ _
  | cons e es =>
    rw [narrow] at h
    split at h <;> obtain ⟨_, -, rfl⟩ := Option.map_eq_some_iff.1 h <;> exact List.cons_ne_nil _ _

/-- What an outcome allows. -/
def Outcome.Allows (a : Valuation) : Outcome → Prop
  | .alternative c => c.Satisfied a
  | .unconstrained => True
  | .contradiction => False

theorem groupFrom_allows (a : Valuation) {rule : ShardingRule} {params : List Value}
    {entries : List ColumnConstraint} {ps : List Predicate} {o : Outcome}
    (h : groupFrom rule params entries ps = .ok o) :
    o.Allows a ↔ (∀ e ∈ entries, e.Satisfied a) ∧ GroupHolds rule params a ps := by
  induction ps generalizing entries with
  | nil =>
    cases h
    unfold ofEntries
    cases entries with
    | nil => simp [Outcome.Allows, GroupHolds]
    | cons e es => simp [Outcome.Allows, GroupHolds, Condition.Satisfied]
  | cons p ps ih =>
    have hcons : GroupHolds rule params a (p :: ps) ↔
        (rule.isShardingColumn p.table p.column = true → p.Holds params a) ∧
          GroupHolds rule params a ps := List.forall_mem_cons
    rw [groupFrom] at h
    split at h
    · rename_i hp
      obtain ⟨k, hk, h⟩ := bind_eq_ok.1 h
      have hn := narrow_satisfied a ⟨p.table, p.column, k⟩ entries
      have hholds : ColumnConstraint.Satisfied a ⟨p.table, p.column, k⟩ ↔ p.Holds params a := by
        simp only [ColumnConstraint.Satisfied, Predicate.Holds, admits_iff_holds hk]
      rw [hcons, ← hholds, imp_iff_right hp]
      split at h
      · rename_i entries' hnarrow
        simp only [hnarrow, Option.some.injEq, exists_eq_left'] at hn
        rw [ih h, hn]
        tauto
      · rename_i hnarrow
        simp only [hnarrow, reduceCtorEq, false_and, exists_false, false_iff] at hn
        cases h
        simp only [Outcome.Allows, false_iff]
        tauto
    · rename_i hp
      rw [hcons, ih h]
      simp [hp]

/-- Only a group without a predicate on a sharding column leaves the statement unconstrained. -/
theorem groupFrom_unconstrained {rule : ShardingRule} {params : List Value}
    {entries : List ColumnConstraint} {ps : List Predicate}
    (h : groupFrom rule params entries ps = .ok .unconstrained) :
    entries = [] ∧ Unsharded rule ps := by
  induction ps generalizing entries with
  | nil =>
    rw [groupFrom, ofEntries] at h
    split at h
    · rename_i hnil
      exact ⟨List.isEmpty_iff.1 hnil, fun p hp => absurd hp List.not_mem_nil⟩
    · cases h
  | cons p ps ih =>
    rw [groupFrom] at h
    split at h
    · obtain ⟨k, -, h⟩ := bind_eq_ok.1 h
      split at h
      · rename_i hn
        exact absurd (ih h).1 (narrow_ne_nil hn)
      · cases h
    · rename_i hp
      obtain ⟨he, hps⟩ := ih h
      exact ⟨he, List.forall_mem_cons.2 ⟨by simpa using hp, hps⟩⟩

theorem groupFrom_distinct {rule : ShardingRule} {params : List Value}
    {entries : List ColumnConstraint} {ps : List Predicate} {c : Condition}
    (h : groupFrom rule params entries ps = .ok (.alternative c)) (he : DistinctColumns entries) :
    DistinctColumns c.entries := by
  induction ps generalizing entries with
  | nil =>
    rw [groupFrom, ofEntries] at h
    split at h <;> cases h
    exact he
  | cons p ps ih =>
    rw [groupFrom] at h
    split at h
    · obtain ⟨k, -, h⟩ := bind_eq_ok.1 h
      split at h
      · rename_i hn
        exact ih h (narrow_distinct hn he)
      · cases h
    · exact ih h he

/-- Either a group is free of sharding columns and leaves the statement unconstrained, or the
alternatives allow what the groups allow, and there are none only if there were no groups or every
group contradicts itself. -/
theorem groupsFrom_allows (a : Valuation) {rule : ShardingRule} {params : List Value} {merge : Bool}
    {alternatives : List Condition} {contradictions : Bool} {groups : List (List Predicate)}
    {c : Conditions}
    (h : groupsFrom rule params merge alternatives contradictions groups = .ok c) :
    (c = .unconstrained ∧ ∃ g ∈ groups, Unsharded rule g) ∨
    (alternatives ⊆ c.alternatives ∧
    ((∃ k ∈ c.alternatives, k.Satisfied a) ↔
      (∃ k ∈ alternatives, k.Satisfied a) ∨ ∃ g ∈ groups, GroupHolds rule params a g) ∧
    (c.alwaysFalse = true → c.alternatives = []) ∧
    (c.alternatives = [] → c.alwaysFalse = false → contradictions = false ∧ groups = [])) := by
  induction groups generalizing alternatives contradictions with
  | nil =>
    cases h
    right
    split
    · rename_i hc
      rw [Bool.and_eq_true, List.isEmpty_iff] at hc
      simp [Conditions.contradiction, hc.1]
    · rename_i hc
      rw [Bool.and_eq_true, List.isEmpty_iff] at hc
      refine ⟨List.Subset.refl _, by simp [Conditions.of], by simp [Conditions.of], ?_⟩
      intro hnil _
      exact ⟨Bool.eq_false_iff.2 fun hb => hc ⟨hnil, hb⟩, rfl⟩
  | cons g groups ih =>
    rw [groupsFrom] at h
    obtain ⟨o, ho, h⟩ := bind_eq_ok.1 h
    have hg : o.Allows a ↔ GroupHolds rule params a g := by
      simpa using groupFrom_allows a ho
    cases o with
    | alternative k =>
      rcases ih h with ⟨hc, g', hg', hf⟩ | ⟨hsub, hiff, hfalse, hnil⟩
      · exact .inl ⟨hc, g', List.mem_cons_of_mem _ hg', hf⟩
      · have hk : k ∈ c.alternatives := hsub (by simp)
        refine .inr ⟨fun d hd => hsub (by simp [hd]), ?_, hfalse, fun hc => ?_⟩
        · rw [hiff, List.exists_mem_cons_iff, ← hg]
          simp only [List.mem_append, List.mem_singleton, or_and_right, exists_or, exists_eq_left,
            Outcome.Allows, or_assoc]
        · rw [hc] at hk
          exact absurd hk List.not_mem_nil
    | unconstrained =>
      cases h
      exact .inl ⟨rfl, g, List.mem_cons_self, (groupFrom_unconstrained ho).2⟩
    | contradiction =>
      rcases ih h with ⟨hc, g', hg', hf⟩ | ⟨hsub, hiff, hfalse, hnil⟩
      · exact .inl ⟨hc, g', List.mem_cons_of_mem _ hg', hf⟩
      · refine .inr ⟨hsub, ?_, hfalse, fun hc hf => absurd (hnil hc hf).1 Bool.noConfusion⟩
        rw [hiff, List.exists_mem_cons_iff, ← hg]
        simp only [Outcome.Allows, false_or]

theorem groupsFrom_distinct {rule : ShardingRule} {params : List Value} {merge : Bool}
    {alternatives : List Condition} {contradictions : Bool} {groups : List (List Predicate)}
    {c : Conditions}
    (h : groupsFrom rule params merge alternatives contradictions groups = .ok c)
    (ha : ∀ k ∈ alternatives, DistinctColumns k.entries) :
    ∀ k ∈ c.alternatives, DistinctColumns k.entries := by
  induction groups generalizing alternatives contradictions with
  | nil =>
    cases h
    split
    · simp [Conditions.contradiction]
    · exact ha
  | cons g groups ih =>
    rw [groupsFrom] at h
    obtain ⟨o, ho, h⟩ := bind_eq_ok.1 h
    cases o with
    | alternative k =>
      refine ih h fun d hd => ?_
      rcases List.mem_append.1 hd with hd | hd
      · exact ha d hd
      · rw [List.mem_singleton.1 hd]
        exact groupFrom_distinct ho List.Pairwise.nil
    | unconstrained =>
      cases h
      simp [Conditions.unconstrained]
    | contradiction => exact ih h ha

/-- A statement that needs conditions and inserts no rows is read by its groups. -/
theorem extract_where {rule : ShardingRule} {query : Query} (keys : KeyCounters)
    (hneeds : query.statement.needsConditions = true)
    (hrows : query.statement.kind = .insert → query.statement.insert = none) :
    extract rule query keys =
      ((groupsFrom rule query.params
        (query.statement.kind == .select && query.statement.features.subquery) [] false
        query.statement.groups).map (⟨·, []⟩), keys) := by
  rw [extract, hneeds]
  cases hk : query.statement.kind <;> cases hi : query.statement.insert <;>
    simp only [hk, hi, reduceCtorEq, imp_false, not_true_eq_false] at hrows
  all_goals
    simp only [Bool.not_true, Bool.false_eq_true, ↓reduceIte]
    generalize groupsFrom _ _ _ _ _ _ = r
    cases r <;> rfl

end Extraction

/-- What the conditions of a statement say about its groups. Nothing satisfies groups that are known
to be contradictory; a statement is left unconstrained only when it has no groups or a group without
a predicate on a sharding column; otherwise the alternatives together allow what the groups allow. -/
structure MeansWhere (rule : ShardingRule) (query : Query) (c : Conditions) : Prop where
  contradictory : c.alwaysFalse = true →
    ∀ a, ∀ g ∈ query.statement.groups, ¬ GroupHolds rule query.params a g
  unconstrained : c.isEmpty = true → c.alwaysFalse = false →
    query.statement.groups = [] ∨ ∃ g ∈ query.statement.groups, Unsharded rule g
  alternatives : c.isEmpty = false →
    ∀ a, (∃ k ∈ c.alternatives, k.Satisfied a) ↔
      ∃ g ∈ query.statement.groups, GroupHolds rule query.params a g
  distinct : ∀ k ∈ c.alternatives, DistinctColumns k.entries

/-- The conditions extracted from a statement that inserts no rows mean its `WHERE` clause. -/
theorem extract_means_where {rule : ShardingRule} {query : Query} {keys keys' : KeyCounters}
    {e : Extracted} (hneeds : query.statement.needsConditions = true)
    (hrows : query.statement.kind = .insert → query.statement.insert = none)
    (h : Extraction.extract rule query keys = (.ok e, keys')) :
    MeansWhere rule query e.conditions := by
  rw [Extraction.extract_where keys hneeds hrows, Prod.mk.injEq, map_eq_ok] at h
  obtain ⟨⟨c, hg, rfl⟩, -⟩ := h
  have hdistinct := Extraction.groupsFrom_distinct hg fun k hk => absurd hk List.not_mem_nil
  have hcases (a : Valuation) := Extraction.groupsFrom_allows a hg
  simp only [List.not_mem_nil, false_and, exists_false, false_or] at hcases
  refine ⟨fun hfalse a g hm hgroup => ?_, fun hempty hfalse => ?_, fun hne a => ?_, hdistinct⟩
  · rcases hcases a with ⟨rfl, -⟩ | ⟨-, hiff, hnone, -⟩
    · exact Bool.noConfusion hfalse
    · obtain ⟨k, hk, -⟩ := hiff.2 ⟨g, hm, hgroup⟩
      rw [hnone hfalse] at hk
      exact List.not_mem_nil hk
  · rcases hcases ⟨fun _ _ => none, fun _ _ => rfl⟩ with ⟨-, hfree⟩ | ⟨-, -, -, hnone⟩
    · exact .inr hfree
    · exact .inl (hnone (List.isEmpty_iff.1 hempty) hfalse).2
  · rcases hcases a with ⟨rfl, -⟩ | ⟨-, hiff, -⟩
    · exact Bool.noConfusion hne
    · exact hiff

/-- Orders, spread over two data sources by user and over two tables by order. -/
def orderTable : TableRule where
  logicTable := "t_order"
  nodes := [⟨"ds_0", "t_order_0"⟩, ⟨"ds_0", "t_order_1"⟩, ⟨"ds_1", "t_order_0"⟩,
    ⟨"ds_1", "t_order_1"⟩]
  databaseStrategy := some (.standard "user_id" (.mod ⟨2, by decide⟩))
  tableStrategy := some (.standard "order_id" (.mod ⟨2, by decide⟩))
  keyStrategy := none
  nodes_ne_nil := List.cons_ne_nil _ _

def orders : ShardingRule := ShardingRule.empty.withTable orderTable

/-- One group that narrows a column twice, in two spellings, and one that contradicts itself. -/
def narrowedOrders : Query where
  sql := "SELECT * FROM t_order WHERE …"
  statement := { Statement.of .select ["t_order"] with
    groups := [[⟨"t_order", "order_id", .oneOf [.parameter 0, .literal (.int 7), .parameter 1]⟩,
        ⟨"t_order", "note", .equal (.literal (.str "x"))⟩,
        ⟨"T_ORDER", "Order_Id", .between (.literal (.int 4)) (.parameter 0)⟩],
      [⟨"t_order", "user_id", .lessThan (.literal (.int 1))⟩,
        ⟨"t_order", "user_id", .atLeast (.literal (.int 1))⟩]] }
  params := [.int 9, .int 3]
  hint := .none

theorem extract_means_where_orders :
    Extraction.extract orders narrowedOrders ∅ =
      (.ok ⟨.of [⟨[⟨"t_order", "order_id", .list [.int 9, .int 7]⟩]⟩] false, []⟩, ∅) ∧
    MeansWhere orders narrowedOrders
      (.of [⟨[⟨"t_order", "order_id", .list [.int 9, .int 7]⟩]⟩] false) := by
  have h : Extraction.extract orders narrowedOrders ∅ =
      (.ok ⟨.of [⟨[⟨"t_order", "order_id", .list [.int 9, .int 7]⟩]⟩] false, []⟩, ∅) := rfl
  exact ⟨h, extract_means_where rfl (fun hk => by cases hk) h⟩

end ShardedSql
