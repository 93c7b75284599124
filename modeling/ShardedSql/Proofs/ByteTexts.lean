import ShardedSql.Expr.Error
import ShardedSql.Proofs.Checked

/-! Texts as bytes in UTF-8, read at offsets, where a reader can go wrong in ways that are no refusals: it can cut
through a character or behind the end, or go on for ever. A byte of a longer character is never taken for a character
of one byte, so readers that look for such characters pass over the others. -/

namespace ShardedSql

/-- What ends a reader with neither an answer nor a refusal: a piece of text that does not begin and end with
characters, a closing brace too many, a token behind the end, and a reader that is used again without having gone
on. -/
inductive Mishap where
  | slice (start finish : Nat)
  | depth
  | token (index : Nat)
  | stuck
  deriving DecidableEq

inductive Failure where
  | refused (e : ExprError)
  | mishap (m : Mishap)
  deriving DecidableEq

abbrev Attempt := Except Failure

/-- The same answer or refusal. -/
def safe {α : Type} (r : Except ExprError α) : Attempt α := r.mapError .refused

theorem safe_bind {α β : Type} (r : Except ExprError α) (f : α → Except ExprError β) :
    safe (r >>= f) = safe r >>= fun a => safe (f a) := by
  cases r <;> rfl

namespace Text

/-- The bytes of the text, each as the character of that number. -/
def bytes (cs : List Char) : List Char := cs.flatMap fun c => (String.utf8EncodeChar c).map Char.ofUInt8

/-- The piece of text between two offsets. -/
def piece (cs : List Char) (start finish : Nat) : Attempt (List Char) :=
  match slice? cs start finish with
  | some m => .ok m
  | none => .error (.mishap (.slice start finish))

theorem piece_append (l m r : List Char) :
    piece (l ++ (m ++ r)) (byteLength l) (byteLength l + byteLength m) = .ok m := by
  have hstart : IsBoundary (l ++ (m ++ r)) (byteLength l) := ⟨l, m ++ r, rfl, rfl⟩
  have hfinish : IsBoundary (l ++ (m ++ r)) (byteLength l + byteLength m) :=
    ⟨l ++ m, r, (List.append_assoc l m r).symm, byteLength_append l m⟩
  rw [piece, slice?, decide_eq_true (Nat.le_add_right _ _), decide_eq_true hfinish.le, isBoundary_iff.2 hstart,
    isBoundary_iff.2 hfinish, slice_append]
  rfl

theorem piece_between (l m r : List Char) :
    piece (l ++ m ++ r) (byteLength l) (byteLength (l ++ m)) = .ok m := by
  rw [List.append_assoc, byteLength_append, piece_append]

example : piece ['a', '\u00e9'] 1 2 = .error (.mishap (.slice 1 2)) := by decide

/-! ### Bytes and characters -/

theorem bytes_append (l r : List Char) : bytes (l ++ r) = bytes l ++ bytes r := List.flatMap_append

theorem bytes_cons (c : Char) (cs : List Char) :
    bytes (c :: cs) = (String.utf8EncodeChar c).map Char.ofUInt8 ++ bytes cs := rfl

theorem length_bytes (cs : List Char) : (bytes cs).length = byteLength cs := by
  induction cs with
  | nil => rfl
  | cons c cs ih =>
    rw [bytes_cons, List.length_append, List.length_map, String.length_utf8EncodeChar, ih, byteLength_cons]

/-- The rest of a text from an offset at which a character begins. -/
theorem piece_rest (l r : List Char) : piece (l ++ r) (byteLength l) (bytes (l ++ r)).length = .ok r := by
  have h := piece_append l r []
  rwa [List.append_nil, ← byteLength_append, ← length_bytes (l ++ r)] at h

theorem drop_bytes (l r : List Char) : (bytes (l ++ r)).drop (byteLength l) = bytes r := by
  rw [bytes_append, ← length_bytes, List.drop_left]

theorem utf8Size_of_lt {c : Char} (h : c.toNat < 128) : c.utf8Size = 1 :=
  Char.utf8Size_eq_one_iff.2 (UInt32.le_iff_toNat_le.2 (Nat.le_of_lt_succ h))

theorem bytes_of_lt {c : Char} (h : c.toNat < 128) : (String.utf8EncodeChar c).map Char.ofUInt8 = [c] := by
  have hbyte : Char.ofUInt8 c.val.toUInt8 = c := by
    refine Char.ext (UInt32.toNat.inj ?_)
    change c.val.toNat % 256 = c.val.toNat
    have hlt : c.val.toNat < 128 := h
    omega
  rw [String.utf8EncodeChar_eq_singleton (utf8Size_of_lt h), List.map_singleton, hbyte]

theorem le_of_mem_utf8EncodeChar {c : Char} (h : 128 ≤ c.toNat) {b : UInt8} (hb : b ∈ String.utf8EncodeChar c) :
    128 ≤ b.toNat := by
  have hlong : ¬ c.val.toNat ≤ 127 := by
    change 128 ≤ c.val.toNat at h
    omega
  have hbyte : ∀ n, 128 ≤ n → n < 256 → 128 ≤ (UInt8.ofNat n).toNat := by
    intro n hn hlt
    rwa [UInt8.toNat_ofNat', Nat.mod_eq_of_lt hlt]
  rw [String.utf8EncodeChar] at hb
  simp only [hlong, if_false] at hb
  split_ifs at hb <;> simp only [List.mem_cons, List.not_mem_nil, or_false] at hb
  · obtain rfl | rfl := hb <;> exact hbyte _ (by omega) (by omega)
  · obtain rfl | rfl | rfl := hb <;> exact hbyte _ (by omega) (by omega)
  · obtain rfl | rfl | rfl | rfl := hb <;> exact hbyte _ (by omega) (by omega)

theorem ne_of_long {b d : Char} (hb : 128 ≤ b.toNat) (hd : d.toNat < 128) : b ≠ d := by
  rintro rfl
  omega

/-- The byte stands for the character, or it is one of a longer character. -/
def Shows (b c : Char) : Prop := b = c ∨ 128 ≤ b.toNat ∧ 128 ≤ c.toNat

/-- A class of characters of one byte. -/
def OneByte (p : Char → Bool) : Prop := ∀ c, p c = true → c.toNat < 128

theorem Shows.eq_iff {b c : Char} (h : Shows b c) {a : Char} (ha : a.toNat < 128) : b = a ↔ c = a := by
  obtain rfl | ⟨hb, hc⟩ := h
  · rfl
  · refine iff_of_false ?_ ?_ <;> rintro rfl <;> omega

theorem Shows.class_eq {b c : Char} (h : Shows b c) {p : Char → Bool} (hp : OneByte p) : p b = p c := by
  obtain rfl | ⟨hb, hc⟩ := h
  · rfl
  · have hnone : ∀ d : Char, 128 ≤ d.toNat → p d = false := fun d hd =>
      Bool.eq_false_iff.2 fun hpd => absurd (hp d hpd) (Nat.not_lt.2 hd)
    rw [hnone b hb, hnone c hc]

/-- The bytes of a character that follow its first one. -/
theorem le_of_mem_bytes {c : Char} {k : Nat} (hk : k < c.utf8Size) (hfirst : k = 0 → 128 ≤ c.toNat) :
    ∃ b, ((String.utf8EncodeChar c).map Char.ofUInt8)[k]? = some b ∧ 128 ≤ b.toNat := by
  have hlong : 128 ≤ c.toNat := by
    by_contra hlt
    have hone := congrArg List.length (bytes_of_lt (Nat.not_le.1 hlt))
    rw [List.length_map, String.length_utf8EncodeChar, List.length_singleton] at hone
    exact hlt (hfirst (by omega))
  have hlength : k < (String.utf8EncodeChar c).length := by rwa [String.length_utf8EncodeChar]
  refine ⟨Char.ofUInt8 (String.utf8EncodeChar c)[k], ?_, ?_⟩
  · rw [List.getElem?_map, List.getElem?_eq_getElem hlength, Option.map_some]
  · exact le_of_mem_utf8EncodeChar hlong (List.getElem_mem hlength)

theorem getElem?_bytes (l : List Char) (c : Char) (r : List Char) {k : Nat} (hk : k < c.utf8Size) :
    (bytes (l ++ c :: r))[byteLength l + k]? = ((String.utf8EncodeChar c).map Char.ofUInt8)[k]? := by
  have hlength : k < ((String.utf8EncodeChar c).map Char.ofUInt8).length := by
    rwa [List.length_map, String.length_utf8EncodeChar]
  rw [bytes_append, ← length_bytes, List.getElem?_append_right (Nat.le_add_right _ _), Nat.add_sub_cancel_left,
    bytes_cons, List.getElem?_append_left hlength]

/-- The byte at which a character begins. -/
theorem exists_first (l : List Char) (c : Char) (r : List Char) :
    ∃ b, (bytes (l ++ c :: r))[byteLength l]? = some b ∧ Shows b c := by
  have hbyte := getElem?_bytes l c r c.utf8Size_pos
  rw [Nat.add_zero] at hbyte
  by_cases hc : c.toNat < 128
  · rw [bytes_of_lt hc] at hbyte
    exact ⟨c, hbyte, .inl rfl⟩
  · obtain ⟨b, hb, hlong⟩ := le_of_mem_bytes c.utf8Size_pos fun _ => Nat.not_lt.1 hc
    exact ⟨b, hbyte.trans hb, .inr ⟨hlong, Nat.not_lt.1 hc⟩⟩

theorem getElem?_of_lt (l : List Char) {c : Char} (hc : c.toNat < 128) (r : List Char) :
    (bytes (l ++ c :: r))[byteLength l]? = some c := by
  obtain ⟨b, hb, hshows⟩ := exists_first l c r
  rw [hb, (hshows.eq_iff hc).2 rfl]

theorem takeWhile_bytes {p : Char → Bool} (hp : OneByte p) (cs : List Char) :
    (bytes cs).takeWhile p = bytes (cs.takeWhile p) := by
  induction cs with
  | nil => rfl
  | cons c cs ih =>
    by_cases hc : p c = true
    · rw [List.takeWhile_cons_of_pos hc, bytes_cons, bytes_cons, bytes_of_lt (hp c hc), List.singleton_append,
        List.takeWhile_cons_of_pos hc, ih, List.singleton_append]
    · obtain ⟨b, hb, hshows⟩ := exists_first [] c cs
      obtain ⟨behind, hbehind⟩ := List.head?_eq_some_iff.1 (List.head?_eq_getElem?.trans hb)
      rw [List.takeWhile_cons_of_neg hc, ← List.nil_append (c :: cs), hbehind,
        List.takeWhile_cons_of_neg (by rwa [hshows.class_eq hp])]
      rfl

theorem prefix_bytes {word : List Char} (hword : ∀ a ∈ word, a.toNat < 128) {cs : List Char} :
    word <+: bytes cs ↔ word <+: cs := by
  induction word generalizing cs with
  | nil => exact iff_of_true List.nil_prefix List.nil_prefix
  | cons a word ih =>
    cases cs with
    | nil => rfl
    | cons c cs =>
      have ha : a.toNat < 128 := hword a (by simp)
      by_cases hc : c.toNat < 128
      · rw [bytes_cons, bytes_of_lt hc, List.singleton_append, List.cons_prefix_cons, List.cons_prefix_cons,
          ih fun d hd => hword d (by simp [hd])]
      · obtain ⟨b, hb, hshows⟩ := exists_first [] c cs
        obtain ⟨behind, hbehind⟩ := List.head?_eq_some_iff.1 (List.head?_eq_getElem?.trans hb)
        rw [List.nil_append] at hbehind
        rw [hbehind, List.cons_prefix_cons, List.cons_prefix_cons]
        have hne : a ≠ c := by
          rintro rfl
          exact hc ha
        refine iff_of_false (fun h => hne ?_) fun h => hne h.1
        exact ((hshows.eq_iff ha).1 h.1.symm).symm

/-! ### Places of readers -/

/-- A reader has come to the offset, where a character begins, and `seen` is what it passed last. -/
structure Stands (cs before seen rest : List Char) (offset : Nat) : Prop where
  split : cs = before ++ seen.reverse ++ rest
  offset : byteLength (before ++ seen.reverse) = offset

namespace Stands

variable {cs before seen r : List Char} {c : Char} {offset : Nat}

theorem start (cs : List Char) : Stands cs [] [] cs 0 := ⟨rfl, rfl⟩

theorem passed (word : List Char) (h : Stands cs before seen (word ++ r) offset) :
    Stands cs before (word.reverse ++ seen) r (offset + byteLength word) := by
  obtain ⟨rfl, rfl⟩ := h
  constructor <;> simp [Nat.add_assoc]

theorem next (h : Stands cs before seen (c :: r) offset) : Stands cs before (c :: seen) r (offset + c.utf8Size) :=
  h.passed [c]

/-- From here on nothing has been passed. -/
theorem fresh (h : Stands cs before seen r offset) : Stands cs (before ++ seen.reverse) [] r offset := by
  obtain ⟨rfl, rfl⟩ := h
  constructor <;> simp

theorem drop (h : Stands cs before seen r offset) : (bytes cs).drop offset = bytes r := by
  rw [h.split, ← h.offset, drop_bytes]

theorem piece_behind (word : List Char) (h : Stands cs before seen (word ++ r) offset) :
    piece cs offset (offset + byteLength word) = .ok word := by
  rw [h.split, ← h.offset, piece_append]

theorem piece_rest (h : Stands cs before seen r offset) : piece cs offset (bytes cs).length = .ok r := by
  rw [h.split, ← h.offset, Text.piece_rest]

theorem piece_seen (h : Stands cs before seen r offset) : piece cs (byteLength before) offset = .ok seen.reverse := by
  rw [h.split, ← h.offset, piece_between]

theorem ended (h : Stands cs before seen [] offset) : (bytes cs).length = offset := by
  rw [h.split, List.append_nil, length_bytes, h.offset]

theorem first (h : Stands cs before seen (c :: r) offset) : ∃ b, (bytes cs)[offset]? = some b ∧ Shows b c := by
  rw [h.split, ← h.offset]
  exact exists_first (before ++ seen.reverse) c r

theorem byte (h : Stands cs before seen (c :: r) offset) (hc : c.toNat < 128) : (bytes cs)[offset]? = some c := by
  rw [h.split, ← h.offset]
  exact getElem?_of_lt (before ++ seen.reverse) hc r

theorem next_of_lt (h : Stands cs before seen (c :: r) offset) (hc : c.toNat < 128) :
    Stands cs before (c :: seen) r (offset + 1) := by
  have hnext := h.next
  rwa [utf8Size_of_lt hc] at hnext

section Passing

variable {β : Type} {f : Nat → β}

/-- What a reader does that passes over the bytes of longer characters is the same behind such a character. -/
theorem across (h : Stands cs before seen (c :: r) offset)
    (hf : ∀ i b, (bytes cs)[i]? = some b → 128 ≤ b.toNat → f i = f (i + 1)) {k : Nat} (hk : k ≤ c.utf8Size)
    (hfirst : k = 0 → 128 ≤ c.toNat) : f (offset + k) = f (offset + c.utf8Size) := by
  obtain ⟨rfl, rfl⟩ := h
  obtain ⟨m, hm⟩ := Nat.exists_eq_add_of_le hk
  induction m generalizing k with
  | zero => rw [hm, Nat.add_zero]
  | succ m ih =>
    have hinside : k < c.utf8Size := by omega
    obtain ⟨b, hb, hlong⟩ := le_of_mem_bytes hinside hfirst
    rw [hf _ b ((getElem?_bytes (before ++ seen.reverse) c r hinside).trans hb) hlong, Nat.add_assoc]
    exact ih (by omega) (by omega) (by omega)

/-- What a reader does that passes over a character, too, is the same behind it. -/
theorem pass (h : Stands cs before seen (c :: r) offset)
    (hf : ∀ i b, (bytes cs)[i]? = some b → b = c ∨ 128 ≤ b.toNat → f i = f (i + 1)) :
    f offset = f (offset + c.utf8Size) := by
  by_cases hc : c.toNat < 128
  · rw [utf8Size_of_lt hc]
    exact hf _ c (h.byte hc) (.inl rfl)
  · exact h.across (fun i b hb hlong => hf i b hb (.inr hlong)) (Nat.zero_le _) fun _ => Nat.not_lt.1 hc

end Passing

end Stands

end Text

end ShardedSql
