import ShardedSql.Proofs.Targets

/-! The targets of a range are those of the integers in it, or all of them where the range reaches every
shard. On the way nothing is computed that 64 bits do not hold: with words in the place of integers, and
steps that fail where they overflow, the same targets come out. -/

namespace ShardedSql

namespace Word

/-- The sum, unless it overflows. -/
def add? (a b : Int64) : Option Int64 := Text.fit64 (a.toInt + b.toInt)

/-- The difference, unless it overflows. -/
def sub? (a b : Int64) : Option Int64 := Text.fit64 (a.toInt - b.toInt)

/-- The word nearest to the difference. -/
def saturatingSub (a b : Int64) : Int64 :=
  Int64.ofInt (max Int64.minValue.toInt (min (a.toInt - b.toInt) Int64.maxValue.toInt))

/-- The least non-negative remainder, unless there is no quotient or it overflows. -/
def rem? (a b : Int64) : Option Int64 :=
  if b = 0 ∨ a = Int64.minValue ∧ b = -1 then none else Text.fit64 (a.toInt % b.toInt)

/-- So many words, each one more than the one before it. Nothing is added to the last one. -/
def ascending : Nat → Int64 → Option (List Int64)
  | 0, _ => some []
  | 1, a => some [a]
  | n + 2, a => do
    let next ← add? a 1
    let rest ← ascending (n + 1) next
    some (a :: rest)

theorem le_saturatingSub {w a b : Int64} (hw : 0 ≤ w.toInt) :
    w ≤ saturatingSub a b ↔ w.toInt ≤ a.toInt - b.toInt := by
  have hle := Int64.le_iff_toInt_le.1 (Int64.le_maxValue w)
  have hmin : Int64.minValue.toInt = -2 ^ 63 := by decide
  have hmax : Int64.maxValue.toInt < 2 ^ 63 := by decide
  rw [Int64.le_iff_toInt_le, saturatingSub, Int64.toInt_ofInt_of_le (by omega) (by omega)]
  omega

/-- A remainder by a positive word is below it, so it is a word. -/
theorem rem?_of_pos {a b : Int64} (hb : 0 < b.toInt) :
    ∃ m, rem? a b = some m ∧ m.toInt = a.toInt % b.toInt := by
  have hnonneg := Int.emod_nonneg a.toInt hb.ne'
  have hlt := Int.emod_lt_of_pos a.toInt hb
  have hdefined : ¬ (b = 0 ∨ a = Int64.minValue ∧ b = -1) := by
    rintro (rfl | ⟨-, rfl⟩)
    · exact absurd hb (by decide)
    · exact absurd hb (by decide)
  obtain ⟨m, hm⟩ := Text.exists_fit64 (a := 0) hnonneg hlt.le
  exact ⟨m, by rw [rem?, if_neg hdefined, hm], Text.fit64_eq_some.1 hm⟩

/-- Below a word there is always a next one. -/
theorem ascending_eq {n : Nat} {a b : Int64} (h : ∀ i : Nat, i < n → a.toInt + i ≤ b.toInt) :
    ∃ words, ascending n a = some words ∧
      words.map Int64.toInt = (List.range n).map fun i : Nat => a.toInt + i := by
  induction n generalizing a with
  | zero => exact ⟨[], rfl, rfl⟩
  | succ n ih =>
    cases n with
    | zero => exact ⟨[a], rfl, by simp⟩
    | succ n =>
      obtain ⟨next, hnext⟩ :=
        Text.exists_fit64 (a := a) (n := a.toInt + 1) (by omega) (h 1 (by omega))
      have hval : next.toInt = a.toInt + 1 := Text.fit64_eq_some.1 hnext
      obtain ⟨words, hwords, hmap⟩ := ih (a := next) fun i hi => by
        have hnextle := h (i + 1) (by omega)
        push_cast at hnextle
        omega
      have hadd : add? a 1 = some next := hnext
      refine ⟨a :: words, by simp [ascending, hadd, hwords], ?_⟩
      rw [List.map_cons, hmap, List.range_succ_eq_map (n := n + 1), List.map_cons, List.map_map]
      simp only [hval, Function.comp_def, Nat.cast_succ, Nat.cast_zero, add_zero]
      simp only [add_assoc, add_comm (1 : Int)]

end Word

namespace Modulo

variable {count : ShardCount} {available : List String} {column : String} {r : ValueRange}

theorem mem_of_precise {v : Value} {t : String}
    (h : precise count available column v = .ok (some t)) : t ∈ available := by
  obtain ⟨n, -, hn⟩ := bind_eq_ok.1 h
  exact List.mem_of_find?_eq_some (Except.ok.inj hn)

/-- The targets of a range, computed with words; it fails where a sum, a difference or a remainder
overflows. -/
def rangeInWords (count : Int64) (available : List String) (r : ValueRange) :
    Option (List String) :=
  match first? r.lower, last? r.upper with
  | some a, some b => do
    let widest ← Word.sub? count 1
    if widest ≤ Word.saturatingSub b a then some available
    else do
      let keys ← Word.ascending (b.toInt - a.toInt + 1).toNat a
      let shards ← keys.mapM (Word.rem? · count)
      some (distinct (shards.filterMap fun shard => find? available shard.toInt))
  | _, _ => some available

/-- The remainders of words are the shards of their integers. -/
theorem mapM_rem?_eq {n : Int64} (hn : n.toInt = count.val) (keys : List Int64) :
    ∃ shards, keys.mapM (Word.rem? · n) = some shards ∧
      shards.map Int64.toInt = (keys.map Int64.toInt).map (shard count) := by
  have hpos : 0 < n.toInt := by
    have := count.property
    omega
  induction keys with
  | nil => exact ⟨[], rfl, rfl⟩
  | cons key keys ih =>
    obtain ⟨m, hm, hval⟩ := Word.rem?_of_pos (a := key) hpos
    obtain ⟨shards, hshards, hmap⟩ := ih
    refine ⟨m :: shards, by simp [List.mapM_cons, hm, hshards], ?_⟩
    simp [hmap, hval, hn, shard]

theorem rangeInWords_eq {n : Int64} (hn : n.toInt = count.val) :
    rangeInWords n available r = some (range count available r) := by
  have hpos := count.property
  have hzero : (0 : Int64).toInt = 0 := rfl
  obtain ⟨widest, hwidest⟩ :=
    Text.exists_fit64 (a := 0) (b := n) (n := n.toInt - 1) (by omega) (by omega)
  have hval := Text.fit64_eq_some.1 hwidest
  have hsub : Word.sub? n 1 = some widest := hwidest
  unfold rangeInWords
  split
  · rename_i a b ha hb
    rw [hsub, Option.bind_eq_bind, Option.bind_some]
    split
    · rename_i hle
      have hwide := (Word.le_saturatingSub (by omega)).1 hle
      rw [range_of_not_narrow]
      rw [narrow_iff ha hb]
      omega
    · rename_i hle
      have hnarrow := mt (Word.le_saturatingSub (by omega)).2 hle
      obtain ⟨keys, hkeys, hmap⟩ := Word.ascending_eq (n := (b.toInt - a.toInt + 1).toNat)
        (a := a) (b := b) fun i hi => by omega
      obtain ⟨shards, hshards, hshard⟩ := mapM_rem?_eq hn keys
      have htargets : (shards.filterMap fun s => find? available s.toInt) =
          (keys.map Int64.toInt).filterMap fun key => find? available (shard count key) := by
        rw [← Function.comp_def (find? available) Int64.toInt, ← List.filterMap_map, hshard,
          List.filterMap_map]
        rfl
      rw [hkeys, Option.bind_eq_bind, Option.bind_some, hshards, Option.bind_some, htargets,
        hmap, range_of_narrow ha hb (by omega)]
  · rename_i hopen
    rw [range_of_not_narrow]
    rintro ⟨a, b, ha, hb, -⟩
    exact hopen a b ha hb

end Modulo

/-- The target of a value within a range is a target of the range. A range that is narrow, or does not ask
for all that is available, has the targets of its integers and no others, each of them once. A count that
is a word is enough to compute all of it with words, and no step overflows. -/
theorem range_matches_precise (count : ShardCount) (available : List String) (column : String)
    (r : ValueRange) :
    (∀ v t, r.contains v = true → Modulo.precise count available column v = .ok (some t) →
      t ∈ Modulo.range count available r) ∧
    (Modulo.Narrow count r ∨ Modulo.range count available r ≠ available →
      (Modulo.range count available r).Nodup ∧
      ∀ t, t ∈ Modulo.range count available r ↔ ∃ n : Int64, r.contains (.int n) = true ∧
        Modulo.precise count available column (.int n) = .ok (some t)) ∧
    ∀ n : Int64, n.toInt = count.val →
      (∀ key : Int64, ∃ shard, Word.rem? key n = some shard ∧
        shard.toInt = Modulo.shard count key.toInt) ∧
      Modulo.rangeInWords n available r = some (Modulo.range count available r) := by
  refine ⟨fun v t hv ht => ?_, fun h => ?_, fun n hn => ⟨fun key => ?_, Modulo.rangeInWords_eq hn⟩⟩
  · rcases Modulo.mem_range_of_precise ht hv with hall | hmem
    · rw [hall]
      exact Modulo.mem_of_precise ht
    · exact hmem
  · have hnarrow : Modulo.Narrow count r := by
      rcases h with h | h
      · exact h
      · by_contra hwide
        exact h (Modulo.range_of_not_narrow hwide)
    refine ⟨Modulo.nodup_range hnarrow, fun t => ?_⟩
    simp only [Modulo.mem_range_iff hnarrow, Modulo.precise_int, Except.ok.injEq]
  · have hpos := count.property
    obtain ⟨shard, hshard, hval⟩ := Word.rem?_of_pos (a := key) (b := n) (by omega)
    exact ⟨shard, hshard, by rw [hval, hn, Modulo.shard]⟩

/-- Four tables, and the last two integers there are. -/
def fourItems : List String := ["t_item_2", "t_item_0", "t_item_3", "t_item_1"]

def lastIntegers : ValueRange :=
  ⟨.excluded (.int (Int64.maxValue - 2)), .included (.int Int64.maxValue)⟩

theorem range_matches_precise_last :
    lastIntegers.contains (.int Int64.maxValue) = true ∧
      Modulo.precise ⟨4, by decide⟩ fourItems "item_id" (.int Int64.maxValue) = .ok (some "t_item_3") ∧
      "t_item_3" ∈ Modulo.range ⟨4, by decide⟩ fourItems lastIntegers ∧
      Modulo.range ⟨4, by decide⟩ fourItems lastIntegers ≠ fourItems ∧
      (Modulo.range ⟨4, by decide⟩ fourItems lastIntegers).Nodup ∧
      (4 : Int64).toInt = (⟨4, by decide⟩ : ShardCount).val ∧
      Modulo.rangeInWords 4 fourItems lastIntegers = some ["t_item_2", "t_item_3"] := by
  have hin : lastIntegers.contains (.int Int64.maxValue) = true := by decide
  have htarget : Modulo.precise ⟨4, by decide⟩ fourItems "item_id" (.int Int64.maxValue) =
      .ok (some "t_item_3") := by decide +kernel
  have hrange : Modulo.range ⟨4, by decide⟩ fourItems lastIntegers = ["t_item_2", "t_item_3"] := by
    decide +kernel
  have hnarrow : Modulo.range ⟨4, by decide⟩ fourItems lastIntegers ≠ fourItems := by
    rw [hrange]
    decide
  have h := range_matches_precise ⟨4, by decide⟩ fourItems "item_id" lastIntegers
  refine ⟨hin, htarget, h.1 _ _ hin htarget, hnarrow, (h.2.1 (.inr hnarrow)).1, rfl, ?_⟩
  rw [(h.2.2 4 rfl).2, hrange]

end ShardedSql
