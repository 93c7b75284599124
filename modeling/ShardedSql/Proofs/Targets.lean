import ShardedSql.Rule.Strategy
import ShardedSql.Proofs.Bindings
import ShardedSql.Proofs.Names
import ShardedSql.Proofs.NameMaps
import ShardedSql.Proofs.Numerals
import ShardedSql.Proofs.Order

/-! What a strategy is asked for, and what it chooses: always some of the available targets. A range of
integers that does not reach every shard has the targets of its integers. -/

namespace ShardedSql

open Text (sameName)

theorem Value.int_le_int {a b : Int64} : Value.int a ≤ Value.int b ↔ a.toInt ≤ b.toInt :=
  Int.isLE_compare

theorem Value.int_lt_int {a b : Int64} : Value.int a < Value.int b ↔ a.toInt < b.toInt :=
  Value.compare_lt_iff.symm.trans compare_lt_iff_lt

/-- Between two integers there are only integers. -/
theorem Value.int_of_between {a b : Int64} {v : Value} (ha : .int a ≤ v) (hb : v ≤ .int b) :
    ∃ n, v = .int n := by
  cases v with
  | null => exact (Bool.false_ne_true ha).elim
  | bool c => exact (Bool.false_ne_true ha).elim
  | int n => exact ⟨n, rfl⟩
  | str s => exact (Bool.false_ne_true hb).elim

namespace Modulo

variable {count : ShardCount} {available : List String} {column : String} {r : ValueRange}

theorem first?_eq_some {lower : Bound} {a : Int64} : first? lower = some a ↔
    lower = .included (.int a) ∨ ∃ m, lower = .excluded (.int m) ∧ a.toInt = m.toInt + 1 := by
  constructor
  · intro h
    rcases lower with _ | (_ | _ | m | _) | (_ | _ | m | _) <;>
      simp only [first?, reduceCtorEq] at h
    · cases h
      exact .inl rfl
    · exact .inr ⟨m, rfl, Text.fit64_eq_some.1 h⟩
  · rintro (rfl | ⟨m, rfl, ha⟩)
    · rfl
    · exact Text.fit64_eq_some.2 ha

theorem last?_eq_some {upper : Bound} {b : Int64} : last? upper = some b ↔
    upper = .included (.int b) ∨ ∃ m, upper = .excluded (.int m) ∧ b.toInt = m.toInt - 1 := by
  constructor
  · intro h
    rcases upper with _ | (_ | _ | m | _) | (_ | _ | m | _) <;>
      simp only [last?, reduceCtorEq] at h
    · cases h
      exact .inl rfl
    · exact .inr ⟨m, rfl, Text.fit64_eq_some.1 h⟩
  · rintro (rfl | ⟨m, rfl, hb⟩)
    · rfl
    · exact Text.fit64_eq_some.2 hb

theorem allowsAbove_int_iff {lower : Bound} {a : Int64} (h : first? lower = some a) (n : Int64) :
    lower.allowsAbove (.int n) = true ↔ a.toInt ≤ n.toInt := by
  rcases first?_eq_some.1 h with rfl | ⟨m, rfl, ha⟩
  · exact Value.int_le_int
  · have hlt : (Bound.excluded (.int m)).allowsAbove (.int n) = true ↔ m.toInt < n.toInt :=
      Value.int_lt_int
    rw [hlt]
    omega

theorem allowsBelow_int_iff {upper : Bound} {b : Int64} (h : last? upper = some b) (n : Int64) :
    upper.allowsBelow (.int n) = true ↔ n.toInt ≤ b.toInt := by
  rcases last?_eq_some.1 h with rfl | ⟨m, rfl, hb⟩
  · exact Value.int_le_int
  · have hlt : (Bound.excluded (.int m)).allowsBelow (.int n) = true ↔ n.toInt < m.toInt :=
      Value.int_lt_int
    rw [hlt]
    omega

theorem int_le_of_first? {lower : Bound} {a : Int64} (h : first? lower = some a) {v : Value}
    (hv : lower.allowsAbove v = true) : ∃ m, Value.int m ≤ v := by
  rcases first?_eq_some.1 h with rfl | ⟨m, rfl, -⟩
  · exact ⟨a, hv⟩
  · exact ⟨m, (Value.lt_iff.1 hv).le⟩

theorem le_int_of_last? {upper : Bound} {b : Int64} (h : last? upper = some b) {v : Value}
    (hv : upper.allowsBelow v = true) : ∃ m, v ≤ Value.int m := by
  rcases last?_eq_some.1 h with rfl | ⟨m, rfl, -⟩
  · exact ⟨b, hv⟩
  · exact ⟨m, (Value.lt_iff.1 hv).le⟩

/-- A range that integers bound has nothing but integers in it. -/
theorem int_of_contains {a b : Int64} (ha : first? r.lower = some a) (hb : last? r.upper = some b)
    {v : Value} (hv : r.contains v = true) : ∃ n, v = .int n := by
  rw [ValueRange.contains, Bool.and_eq_true] at hv
  obtain ⟨_, hle⟩ := int_le_of_first? ha hv.1
  obtain ⟨_, hge⟩ := le_int_of_last? hb hv.2
  exact Value.int_of_between hle hge

/-- Integers bound the range, and fewer of them lie in it than there are shards. -/
def Narrow (count : ShardCount) (r : ValueRange) : Prop :=
  ∃ a b, first? r.lower = some a ∧ last? r.upper = some b ∧ b.toInt - a.toInt + 1 < count.val

theorem narrow_iff {a b : Int64} (ha : first? r.lower = some a) (hb : last? r.upper = some b) :
    Narrow count r ↔ b.toInt - a.toInt + 1 < count.val := by
  simp [Narrow, ha, hb]

theorem range_of_not_narrow (h : ¬ Narrow count r) : range count available r = available := by
  unfold range
  split
  · rename_i a b ha hb
    rw [narrow_iff ha hb] at h
    exact if_pos (by omega)
  · rfl

theorem contains_int_iff {a b : Int64} (ha : first? r.lower = some a) (hb : last? r.upper = some b)
    (n : Int64) : r.contains (.int n) = true ↔ a.toInt ≤ n.toInt ∧ n.toInt ≤ b.toInt := by
  rw [ValueRange.contains, Bool.and_eq_true, allowsAbove_int_iff ha, allowsBelow_int_iff hb]

theorem range_of_narrow {a b : Int64} (ha : first? r.lower = some a) (hb : last? r.upper = some b)
    (h : b.toInt - a.toInt + 1 < count.val) : range count available r =
      distinct (((List.range (b.toInt - a.toInt + 1).toNat).map fun i : Nat => a.toInt + i).filterMap
        fun key => find? available (shard count key)) := by
  rw [range, ha, hb]
  dsimp only
  rw [if_neg (by omega), List.filterMap_map]
  rfl

/-- A narrow range has just the targets of its integers, each once. -/
theorem mem_range_iff (h : Narrow count r) {t : String} : t ∈ range count available r ↔
    ∃ n : Int64, r.contains (.int n) = true ∧ find? available (shard count n.toInt) = some t := by
  obtain ⟨a, b, ha, hb, hlt⟩ := h
  simp only [range_of_narrow ha hb hlt, mem_distinct, List.mem_filterMap, List.mem_map,
    List.mem_range, contains_int_iff ha hb]
  constructor
  · rintro ⟨_, ⟨i, hi, rfl⟩, ht⟩
    obtain ⟨n, hn⟩ :=
      Text.exists_fit64 (a := a) (b := b) (n := a.toInt + i) (by omega) (by omega)
    have hval := Text.fit64_eq_some.1 hn
    exact ⟨n, by omega, by rw [hval]; exact ht⟩
  · rintro ⟨n, ⟨hle, hge⟩, ht⟩
    exact ⟨n.toInt, ⟨(n.toInt - a.toInt).toNat, by omega, by omega⟩, ht⟩

theorem nodup_range (h : Narrow count r) : (range count available r).Nodup := by
  obtain ⟨a, b, ha, hb, hlt⟩ := h
  rw [range_of_narrow ha hb hlt]
  exact nodup_distinct _

theorem precise_int (n : Int64) : precise count available column (.int n) =
    .ok (find? available (shard count n.toInt)) := rfl

/-- The target of a value within the range is among the targets of the range. -/
theorem mem_range_of_precise {v : Value} {t : String}
    (h : precise count available column v = .ok (some t)) (hv : r.contains v = true) :
    range count available r = available ∨ t ∈ range count available r := by
  by_cases hnarrow : Narrow count r
  · obtain ⟨a, b, ha, hb, hlt⟩ := hnarrow
    obtain ⟨n, rfl⟩ := int_of_contains ha hb hv
    exact .inr ((mem_range_iff ⟨a, b, ha, hb, hlt⟩).2 ⟨n, hv, Except.ok.inj h⟩)
  · exact .inl (range_of_not_narrow hnarrow)

end Modulo

/-- A range asks for the targets of all values in it, or for everything. -/
theorem StandardAlgorithm.mem_range_of_precise {a : StandardAlgorithm} {available ts : List String}
    {column t : String} {v : Value} {r : ValueRange}
    (h : a.precise available column v = .ok (some t)) (hr : a.range available r = .ok ts)
    (hv : r.contains v = true) : ts = available ∨ t ∈ ts := by
  cases a with
  | inline a =>
    left
    simp only [StandardAlgorithm.range, InlineAlgorithm.range] at hr
    split at hr <;> cases hr
    rfl
  | mod count =>
    cases hr
    exact Modulo.mem_range_of_precise h hv
  | hashMod count =>
    cases hr
    exact .inl rfl

namespace Strategy

theorem mem_retain {available targets : List String} {name : String} :
    name ∈ retain available targets ↔
      ∃ t ∈ targets, available.find? (fun n => sameName n t) = some name := by
  simp [retain]

theorem retain_subset (available targets : List String) : retain available targets ⊆ available := by
  intro name h
  obtain ⟨t, -, ht⟩ := mem_retain.1 h
  exact List.mem_of_find?_eq_some ht

theorem retain_mono {available targets targets' : List String} (h : targets ⊆ targets') :
    retain available targets ⊆ retain available targets' := by
  intro name hn
  obtain ⟨t, ht, hf⟩ := mem_retain.1 hn
  exact mem_retain.2 ⟨t, h ht, hf⟩

/-- A retained name is the first of its spelling. -/
theorem find?_of_retain {available : List String} {t name : String}
    (h : available.find? (fun n => sameName n t) = some name) :
    available.find? (fun n => sameName n name) = some name := by
  have hs := List.find?_some h
  simp only [Text.sameName_congr_right hs, h]

theorem retain_subset_all (available targets : List String) :
    retain available targets ⊆ retain available available := by
  intro name h
  obtain ⟨t, -, ht⟩ := mem_retain.1 h
  exact mem_retain.2 ⟨name, retain_subset _ _ h, find?_of_retain ht⟩

/-- A complex value holds a constraint for a column. -/
def Says (v : ComplexValue) (name : String) : Constraint → Prop
  | .list vs => (name, vs) ∈ v.values.entries
  | .range r => (name, r) ∈ v.ranges.entries

theorem says_addColumn {table : String} {c : Condition} {v : ComplexValue} {column name : String}
    {k : Constraint} (hv : Says v name k → (c.find? table name).map (·.constraint) = some k) :
    Says (addColumn table c v column) name k ↔
      (name = column ∧ (c.find? table name).map (·.constraint) = some k) ∨ Says v name k := by
  have hsame : (name = column ∧ (c.find? table name).map (·.constraint) = some k) ↔
      (name = column ∧ (c.find? table column).map (·.constraint) = some k) :=
    and_congr_right fun h => by rw [h]
  -- an entry that is replaced was put in for the same column, so it is put in again
  have hagree : Says v name k → name = column →
      (c.find? table column).map (·.constraint) = some k := by
    rintro h rfl
    exact hv h
  rw [hsame]
  unfold addColumn
  split
  · rename_i ws hw
    rw [hw] at hagree ⊢
    cases k with
    | list vs =>
      have hins : (name, vs) ∈ v.values.entries → name = column → (name, vs) = (column, ws) := by
        intro h hn
        cases hagree h hn
        rw [hn]
      simp only [Says, NameMap.mem_insert_of_agree hins, Prod.mk.injEq, Option.some.injEq,
        Constraint.list.injEq, eq_comm]
    | range r => simp [Says]
  · rename_i q hq
    rw [hq] at hagree ⊢
    cases k with
    | list vs => simp [Says]
    | range r =>
      have hins : (name, r) ∈ v.ranges.entries → name = column → (name, r) = (column, q) := by
        intro h hn
        cases hagree h hn
        rw [hn]
      simp only [Says, NameMap.mem_insert_of_agree hins, Prod.mk.injEq, Option.some.injEq,
        Constraint.range.injEq, eq_comm]
  · rename_i hnone
    simp [hnone]

/-- A complex value holds just what the condition says about the columns. -/
theorem says_complexValue {columns : List String} {table : String} {c : Condition} {name : String}
    {k : Constraint} : Says (complexValue columns table c) name k ↔
      name ∈ columns ∧ (c.find? table name).map (·.constraint) = some k := by
  have hfold : ∀ (columns : List String) (v : ComplexValue),
      (Says v name k → (c.find? table name).map (·.constraint) = some k) →
      (Says (columns.foldl (addColumn table c) v) name k ↔
        (name ∈ columns ∧ (c.find? table name).map (·.constraint) = some k) ∨ Says v name k) := by
    intro columns
    induction columns with
    | nil => simp
    | cons column columns ih =>
      intro v hv
      have hadd : Says (addColumn table c v column) name k ↔ _ := says_addColumn hv
      rw [List.foldl_cons, ih _ (fun h => ?_), hadd, List.mem_cons]
      · tauto
      · rcases hadd.1 h with ⟨-, h⟩ | h
        · exact h
        · exact hv h
  have hempty : ¬ Says ⟨∅, ∅⟩ name k := by cases k <;> simp [Says]
  rw [complexValue, hfold columns _ fun h => absurd h hempty]
  simp [hempty]

/-- Either nothing was chosen and every target stays, or each chosen one is the first of its
spelling. -/
theorem targets_settled {s : Strategy} {available ts : List String} {table : String}
    {c : Option Condition} {hints : Option (List Value)}
    (h : s.targets available table c hints = .ok ts) :
    ts = available ∨ ∀ name ∈ ts, available.find? (fun n => sameName n name) = some name := by
  have hretain : ∀ {x : Except RouteError (List String)},
      (x >>= fun rs => Except.ok (retain available rs)) = .ok ts →
      ∀ name ∈ ts, available.find? (fun n => sameName n name) = some name := by
    intro x hx name hname
    obtain ⟨rs, -, hx⟩ := bind_eq_ok.1 hx
    cases hx
    obtain ⟨t, -, ht⟩ := mem_retain.1 hname
    exact find?_of_retain ht
  cases s with
  | everywhere =>
    cases h
    exact .inl rfl
  | standard column a =>
    simp only [targets] at h
    split at h
    · cases h
      exact .inl rfl
    · exact .inr (hretain h)
  | complex columns a =>
    simp only [targets] at h
    split at h
    · cases h
      exact .inl rfl
    · exact .inr (hretain h)
  | hint a =>
    simp only [targets] at h
    split at h
    · cases h
      exact .inl rfl
    · exact .inr (hretain h)

theorem targets_subset {s : Strategy} {available ts : List String} {table : String}
    {c : Option Condition} {hints : Option (List Value)}
    (h : s.targets available table c hints = .ok ts) : ts ⊆ available := by
  rcases targets_settled h with rfl | hfirst
  · exact List.Subset.refl _
  · exact fun name hname => List.mem_of_find?_eq_some (hfirst name hname)

end Strategy

end ShardedSql
