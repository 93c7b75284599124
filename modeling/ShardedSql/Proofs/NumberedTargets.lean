import ShardedSql.Algorithm.Basic
import ShardedSql.Proofs.Numerals
import ShardedSql.Proofs.Order
import ShardedSql.Proofs.Success

/-! Targets that are numbered from zero behind one name. Whatever else is available, as long as it ends in
no number below the count, a key is sent to the target that its remainder numbers, wherever that stands in
the list. -/

namespace ShardedSql

/-- The text does not end in a digit. -/
def Digitless (front : List Char) : Prop := ∀ c, front.getLast? = some c → c.isDigit = false

/-- The digits at the end of a name, all of them, denote a number. -/
def EndsInNumber (name : String) (m : Nat) : Prop :=
  ∃ front digits, name.toList = front ++ digits ∧ Digitless front ∧ digits ≠ [] ∧
    digits.all Char.isDigit = true ∧ Nat.ofDigitChars 10 digits 0 = m

/-- The targets of one name with each number below the count, in any order, and besides them only such as
end in no number or in a greater one. -/
structure Numbered (front : String) (count : Nat) (available : List String) : Prop where
  digitless : Digitless front.toList
  numbers : ∀ i < count, front ++ toString i ∈ available
  others : ∀ name ∈ available, (∃ i < count, name = front ++ toString i) ∨
    ∀ m, EndsInNumber name m → count ≤ m

theorem toList_numbered (front : String) (i : Nat) :
    (front ++ toString i).toList = front.toList ++ Nat.toDigits 10 i := by
  simp

theorem endsInNumber_numbered {front : String} (h : Digitless front.toList) (i : Nat) :
    EndsInNumber (front ++ toString i) i :=
  ⟨front.toList, Nat.toDigits 10 i, toList_numbered front i, h,
    Text.digits?_eq_some.1 (Text.digits?_toDigits i)⟩

/-- Digits without a sign are read as they are. -/
theorem Text.int64?_digits {cs : List Char} (h : cs.all Char.isDigit = true) :
    int64? (String.ofList cs) = (digits? cs).bind fun n => fit64 n := by
  rw [int64?, String.toList_ofList]
  split
  · simp at h
  · simp at h
  · rfl

/-- No digit stands before the last digits of a text. -/
theorem digitless_front (cs : List Char) : Digitless (cs.reverse.dropWhile Char.isDigit).reverse := by
  intro c hc
  rw [List.getLast?_reverse] at hc
  have hhead := List.head?_dropWhile_not Char.isDigit cs.reverse
  rw [hc] at hhead
  exact hhead

theorem takeWhile_digits {front digits : List Char} (hfront : Digitless front)
    (hdigits : digits.all Char.isDigit = true) :
    ((front ++ digits).reverse.takeWhile Char.isDigit).reverse = digits := by
  have hstop : front.reverse.takeWhile Char.isDigit = [] := by
    cases hlast : front.reverse with
    | nil => rfl
    | cons c cs =>
      have hc : c.isDigit = false := hfront c (by rw [← List.head?_reverse, hlast]; rfl)
      simp [hc]
  rw [List.reverse_append, List.takeWhile_append_of_pos (by simpa using hdigits), hstop,
    List.append_nil, List.reverse_reverse]

theorem EndsInNumber.unique {name : String} {m m' : Nat} (h : EndsInNumber name m)
    (h' : EndsInNumber name m') : m = m' := by
  obtain ⟨front, digits, hsplit, hfront, -, hdigits, rfl⟩ := h
  obtain ⟨front', digits', hsplit', hfront', -, hdigits', rfl⟩ := h'
  rw [← takeWhile_digits hfront hdigits, ← hsplit, hsplit', takeWhile_digits hfront' hdigits']

theorem Digitless.not_endsInNumber {name : String} (h : Digitless name.toList) (m : Nat) :
    ¬ EndsInNumber name m := by
  rintro ⟨front, digits, hsplit, hfront, hne, hdigits, -⟩
  apply hne
  rw [← takeWhile_digits hfront hdigits, ← hsplit, ← List.append_nil name.toList,
    takeWhile_digits h rfl]

namespace Modulo

theorem suffix?_eq {name : String} {front digits : List Char} (h : name.toList = front ++ digits)
    (hfront : Digitless front) (hdigits : digits.all Char.isDigit = true) :
    suffix? name = (Text.digits? digits).bind fun n => Text.fit64 n := by
  rw [suffix?, h, takeWhile_digits hfront hdigits, Text.int64?_digits hdigits]

/-- A name is found by the number it ends in, as far as 64 bits hold such numbers. -/
theorem suffix?_any_iff {name : String} {m : Nat} :
    (suffix? name).any (·.toInt == (m : Int)) = true ↔ EndsInNumber name m ∧ m < 2 ^ 63 := by
  rw [Option.any_eq_true]
  constructor
  · rintro ⟨n, hn, hval⟩
    have hsplit : name.toList = (name.toList.reverse.dropWhile Char.isDigit).reverse ++
        (name.toList.reverse.takeWhile Char.isDigit).reverse := by
      rw [← List.reverse_append, List.takeWhile_append_dropWhile, List.reverse_reverse]
    have hall : (name.toList.reverse.takeWhile Char.isDigit).reverse.all Char.isDigit = true := by
      rw [List.all_reverse]
      exact List.all_takeWhile
    rw [suffix?_eq hsplit (digitless_front _) hall] at hn
    obtain ⟨m', hm, hfit⟩ := Option.bind_eq_some_iff.1 hn
    have hlt := n.toInt_lt
    have hsame := Text.fit64_eq_some.1 hfit
    rw [beq_iff_eq] at hval
    obtain rfl : m' = m := by omega
    exact ⟨⟨_, _, hsplit, digitless_front _, Text.digits?_eq_some.1 hm⟩, by omega⟩
  · rintro ⟨⟨front, digits, hsplit, hfront, hdigits⟩, hlt⟩
    have hval : (Int64.ofInt m).toInt = m := Int64.toInt_ofInt_of_le (by omega) (by omega)
    refine ⟨Int64.ofInt m, ?_, by rw [hval, beq_self_eq_true]⟩
    rw [suffix?_eq hsplit hfront hdigits.2.1, Text.digits?_eq_some.2 hdigits, Option.bind_some]
    exact Text.fit64_eq_some.2 hval

/-- Among numbered targets the one with the number is found. -/
theorem find?_numbered {front : String} {count : Nat} {available : List String}
    (h : Numbered front count available) (hcount : count < 2 ^ 63) {i : Nat} (hi : i < count) :
    find? available i = some (front ++ toString i) := by
  have hends := endsInNumber_numbered h.digitless
  cases hfind : find? available i with
  | none =>
    have hmissed := List.find?_eq_none.1 hfind _ (h.numbers i hi)
    exact absurd (suffix?_any_iff.2 ⟨hends i, by omega⟩) hmissed
  | some name =>
    unfold find? at hfind
    have hmatch := List.find?_some hfind
    have hname := (suffix?_any_iff.1 hmatch).1
    rcases h.others name (List.mem_of_find?_eq_some hfind) with ⟨j, -, rfl⟩ | hother
    · rw [(hends j).unique hname]
    · exact absurd (hother i hname) (by omega)

theorem find?_shard {front : String} {count : ShardCount} {available : List String}
    (h : Numbered front count.val available) (hcount : count.val < 2 ^ 63) (key : Int) :
    find? available (shard count key) = some (front ++ toString (key % count.val)) := by
  have hpos := count.property
  have hnonneg := Int.emod_nonneg key (b := count.val) (by omega)
  have hlt := Int.emod_lt_of_pos key (b := count.val) (by omega)
  rw [shard]
  obtain ⟨i, hi⟩ := Int.eq_ofNat_of_zero_le hnonneg
  rw [hi] at hlt ⊢
  exact find?_numbered h hcount (by omega)

end Modulo

/-- Half of 64 bits is never negative. -/
theorem Value.stableHash_nonneg (v : Value) : 0 ≤ v.stableHash.toInt := by
  unfold stableHash
  generalize v.text.toUTF8.toList.foldl hashByte 0xcbf29ce484222325 = hash
  have hhalf : (hash >>> 1).toNat = hash.toNat / 2 := by
    simp [UInt64.toNat_shiftRight, Nat.shiftRight_eq_div_pow]
  have hlt : hash.toNat < 2 ^ 64 := hash.toNat_lt
  have hsmall : 2 * (hash >>> 1).toNat < 2 ^ 64 := by omega
  have hval : (hash >>> 1).toInt64.toInt = (hash >>> 1).toNat := BitVec.toInt_eq_toNat_of_lt hsmall
  omega

/-- A count that options give fits in 64 bits. -/
theorem Options.Reader.positive_lt {r : Reader} {option : String} {count : ShardCount}
    (h : r.positive option = .ok count) : count.val < 2 ^ 63 := by
  obtain ⟨raw, -, h⟩ := bind_eq_ok.1 h
  dsimp only at h
  split at h
  · cases h
    dsimp only
    cases Text.int64? raw with
    | none => simp
    | some n =>
      have hlt := n.toInt_lt
      simp only [Option.map_some, Option.getD_some]
      omega
  · cases h

/-- Where the targets are numbered, every integer and every text of one is sent to the target that the least
non-negative remainder of it numbers, and everything but null to the one that its hash numbers. There is no
key without a target. -/
theorem numbered_targets_hit {front : String} {count : ShardCount} {available : List String}
    (h : Numbered front count.val available) (hcount : count.val < 2 ^ 63) (column : String) :
    (∀ k : Int64, (StandardAlgorithm.mod count).precise available column (.int k) =
      .ok (some (front ++ toString (k.toInt % count.val)))) ∧
    (∀ s k, Text.int64? (Text.trim s) = some k →
      (StandardAlgorithm.mod count).precise available column (.str s) =
        .ok (some (front ++ toString (k.toInt % count.val)))) ∧
    (∀ v, v ≠ .null → 0 ≤ v.stableHash.toInt ∧
      (StandardAlgorithm.hashMod count).precise available column v =
        .ok (some (front ++ toString (v.stableHash.toInt % count.val)))) ∧
    ∀ v, (StandardAlgorithm.mod count).precise available column v ≠ .ok none ∧
      (StandardAlgorithm.hashMod count).precise available column v ≠ .ok none := by
  have hfound := fun key => Modulo.find?_shard h hcount key
  have hmod : ∀ v k, Modulo.key column v = .ok k →
      (StandardAlgorithm.mod count).precise available column v =
        .ok (some (front ++ toString (k.toInt % count.val))) := by
    intro v k hk
    rw [StandardAlgorithm.precise, Modulo.precise, hk, ← hfound k.toInt]
    rfl
  have hhash : ∀ v, v ≠ .null → (StandardAlgorithm.hashMod count).precise available column v =
      .ok (some (front ++ toString (v.stableHash.toInt % count.val))) := by
    intro v hv
    have hnull : v.isNull = false := Bool.eq_false_iff.2 (mt Value.isNull_iff.1 hv)
    rw [StandardAlgorithm.precise, Modulo.hashed, hnull, hfound]
    rfl
  refine ⟨fun k => hmod _ _ rfl, fun s k hs => hmod _ _ (by rw [Modulo.key, hs]),
    fun v hv => ⟨v.stableHash_nonneg, hhash v hv⟩, fun v => ⟨fun hnone => ?_, fun hnone => ?_⟩⟩
  · obtain ⟨k, hk, -⟩ := bind_eq_ok.1 hnone
    rw [hmod v k hk] at hnone
    cases hnone
  · by_cases hv : v = .null
    · rw [hv] at hnone
      cases hnone
    · rw [hhash v hv] at hnone
      cases hnone

/-- Names of items in another order, with one that no count of three asks for and one without a number. -/
def someItems : List String := ["t_item_2", "t_item_13", "t_item_0", "t_items", "t_item_1"]

theorem numbered_someItems : Numbered "t_item_" 3 someItems := by
  have hfront : Digitless "t_item_".toList := by
    intro c hc
    obtain rfl : '_' = c := by simpa using hc
    decide
  have hword : Digitless "t_items".toList := by
    intro c hc
    obtain rfl : 's' = c := by simpa using hc
    decide
  refine ⟨hfront, by decide, ?_⟩
  simp only [someItems, List.forall_mem_cons]
  refine ⟨.inl ⟨2, by decide⟩, .inr fun m hm => ?_, .inl ⟨0, by decide⟩, .inr fun m hm => ?_,
    .inl ⟨1, by decide⟩, by simp⟩
  · have h13 : EndsInNumber "t_item_13" 13 := endsInNumber_numbered hfront 13
    rw [← h13.unique hm]
    decide
  · exact absurd hm (hword.not_endsInNumber m)

theorem numbered_targets_hit_items :
    Numbered "t_item_" (⟨3, by decide⟩ : ShardCount).val someItems ∧
      (⟨3, by decide⟩ : ShardCount).val < 2 ^ 63 ∧ Text.int64? (Text.trim " -7 ") = some (-7) ∧
      (StandardAlgorithm.mod ⟨3, by decide⟩).precise someItems "item_id" (.str " -7 ") =
        .ok (some "t_item_2") := by
  have hbuilt : Options.Reader.positive ⟨Modulo.tag, .ofList [(Modulo.countOption, "3")]⟩
      Modulo.countOption = .ok ⟨3, by decide⟩ := by decide +kernel
  have hcount := Options.Reader.positive_lt hbuilt
  have hparses : Text.int64? (Text.trim " -7 ") = some (-7) := by decide +kernel
  have h := numbered_targets_hit numbered_someItems hcount "item_id"
  exact ⟨numbered_someItems, hcount, hparses, h.2.1 " -7 " (-7) hparses⟩

end ShardedSql
