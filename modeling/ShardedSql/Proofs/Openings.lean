import Mathlib.Data.List.DropRight
import ShardedSql.Proofs.Offsets
import ShardedSql.Proofs.Placeholders
import ShardedSql.Text.Blank

/-! Templates are read with every opening in its usual spelling. The spelling is done once and for all, and it
goes on piece by piece where no opening is cut in two; blanks, strings and braces stay what they were. -/

namespace ShardedSql.Template

/-- The text with every opening in its usual spelling. -/
def spelled (cs : List Char) : List Char := normalizeFrom [] cs

theorem normalizeFrom_append (seen before cs : List Char) :
    normalizeFrom (seen ++ before) cs = before.reverse ++ normalizeFrom seen cs := by
  fun_induction normalizeFrom seen cs with
  | case1 seen => rw [normalizeFrom, List.reverse_append]
  | case2 seen r ih => exact ih
  | case3 seen c r h ih =>
    have hkept : ¬ aliasOpening <+: c :: r := by
      rintro ⟨r', hr'⟩
      exact h r' (List.cons.inj hr').1.symm (List.cons.inj hr').2.symm
    rw [normalizeFrom_cons hkept, ← ih, List.cons_append]

theorem normalizeFrom_eq (seen cs : List Char) : normalizeFrom seen cs = seen.reverse ++ spelled cs :=
  normalizeFrom_append [] seen cs

@[simp] theorem spelled_nil : spelled [] = [] := rfl

theorem spelled_alias (r : List Char) : spelled (aliasOpening ++ r) = opening ++ spelled r :=
  normalizeFrom_eq opening.reverse r

theorem spelled_cons {c : Char} {r : List Char} (h : ¬ aliasOpening <+: c :: r) :
    spelled (c :: r) = c :: spelled r := by
  rw [spelled, normalizeFrom_cons h, normalizeFrom_eq]
  rfl

theorem spelled_cons_of_ne {c : Char} (hc : c ≠ '$') (r : List Char) : spelled (c :: r) = c :: spelled r :=
  spelled_cons fun h => hc (List.cons_prefix_cons.1 h).1.symm

/-- A text begins with the other spelling, or its first character stays. -/
@[elab_as_elim]
theorem spelling_induction {P : List Char → Prop} (nil : P [])
    (aliased : ∀ r, P r → P (aliasOpening ++ r))
    (kept : ∀ c r, ¬ aliasOpening <+: c :: r → P r → P (c :: r)) (cs : List Char) : P cs := by
  match cs with
  | [] => exact nil
  | c :: r =>
    by_cases h : aliasOpening <+: c :: r
    · obtain ⟨r', hr'⟩ := h
      have hlength := congrArg List.length hr'
      rw [← hr']
      exact aliased r' (spelling_induction nil aliased kept r')
    · exact kept c r h (spelling_induction nil aliased kept r)
termination_by cs.length
decreasing_by
  · simp [aliasOpening] at hlength ⊢
    omega
  · simp

/-- What follows cannot complete an opening in the other spelling. -/
def Fresh (r : List Char) : Prop := ∀ c ∈ r.head?, c ∉ aliasOpening.tail

theorem spelled_append {l r : List Char} (hr : Fresh r) : spelled (l ++ r) = spelled l ++ spelled r := by
  induction l using spelling_induction with
  | nil => rfl
  | aliased l ih => rw [List.append_assoc, spelled_alias, spelled_alias, ih, List.append_assoc]
  | kept c l h ih =>
    have h' : ¬ aliasOpening <+: c :: (l ++ r) := fun hpre =>
      h (prefix_of_crossing hpre (List.cons_ne_nil c l) hr)
    rw [List.cons_append, spelled_cons h', spelled_cons h, ih, List.cons_append]

theorem head?_spelled (cs : List Char) : (spelled cs).head? = cs.head? := by
  induction cs using spelling_induction with
  | nil => rfl
  | aliased r _ =>
    rw [spelled_alias]
    rfl
  | kept c r h _ =>
    rw [spelled_cons h]
    rfl

theorem getLast?_spelled (cs : List Char) : (spelled cs).getLast? = cs.getLast? := by
  induction cs using spelling_induction with
  | nil => rfl
  | aliased r ih =>
    rw [spelled_alias, List.getLast?_append, List.getLast?_append, ih]
    rfl
  | kept c r h ih => rw [spelled_cons h, List.getLast?_cons, List.getLast?_cons, ih]

/-- Where the usual spelling goes on with something else than a dollar, so did the text. -/
theorem eq_cons_of_spelled {c : Char} (hc : c ≠ '$') {cs w : List Char} (h : spelled cs = c :: w) :
    ∃ r, cs = c :: r ∧ spelled r = w := by
  have hhead := head?_spelled cs
  rw [h] at hhead
  cases cs with
  | nil => cases hhead
  | cons d r =>
    cases hhead
    rw [spelled_cons_of_ne hc] at h
    exact ⟨r, rfl, (List.cons.inj h).2⟩

/-- No other spelling is left. -/
theorem spelled_free (cs : List Char) : ¬ aliasOpening <:+: spelled cs := by
  induction cs using spelling_induction with
  | nil => simp [aliasOpening]
  | aliased r ih =>
    rw [spelled_alias]
    simp only [opening, List.cons_append, List.nil_append, List.infix_cons_iff]
    simp [aliasOpening] at ih ⊢
    exact ih
  | kept c r h ih =>
    rw [spelled_cons h, List.infix_cons_iff, not_or]
    refine ⟨fun hpre => h ?_, ih⟩
    obtain ⟨rfl, w, hw⟩ := List.cons_prefix_cons.1 hpre
    obtain ⟨r₁, rfl, h₁⟩ := eq_cons_of_spelled (by decide) hw.symm
    obtain ⟨r₂, rfl, h₂⟩ := eq_cons_of_spelled (by decide) h₁
    obtain ⟨r₃, rfl, -⟩ := eq_cons_of_spelled (by decide) h₂
    exact ⟨r₃, rfl⟩

theorem spelled_of_free {cs : List Char} (h : ¬ aliasOpening <:+: cs) : spelled cs = cs := by
  have hfree := normalizeFrom_free (r := []) h (by simp) []
  rw [List.append_nil, List.append_nil] at hfree
  rw [spelled, hfree, normalizeFrom, List.reverse_reverse]

theorem spelled_spelled (cs : List Char) : spelled (spelled cs) = spelled cs := spelled_of_free (spelled_free cs)

theorem toList_normalize (s : String) : (normalize s).toList = spelled s.toList := String.toList_ofList

/-! ### Cuts -/

/-- Where the usual spelling is cut, and not within an opening, the text can be cut. -/
theorem exists_cut {cs l r : List Char} (h : spelled cs = l ++ r)
    (hcut : l.getLast? = some '$' → r.head? ≠ some '\x7b') :
    ∃ before behind, cs = before ++ behind ∧ spelled before = l ∧ spelled behind = r := by
  have hlast : ∀ {c : Char} {l : List Char}, l.getLast? = some '$' → (c :: l).getLast? = some '$' := by
    intro c l hl
    rw [List.getLast?_cons, hl]
    rfl
  induction cs using spelling_induction generalizing l with
  | nil =>
    obtain ⟨rfl, rfl⟩ := List.append_eq_nil_iff.1 h.symm
    exact ⟨[], [], rfl, rfl, rfl⟩
  | aliased cs ih =>
    rw [spelled_alias] at h
    match l, h with
    | [], h => exact ⟨[], aliasOpening ++ cs, rfl, rfl, by rw [spelled_alias, h]; rfl⟩
    | [c], h =>
      obtain ⟨rfl, hr⟩ := List.cons.inj h
      have hbrace : r.head? = some '\x7b' := congrArg List.head? hr.symm
      exact absurd hbrace (hcut rfl)
    | c :: d :: l, h =>
      obtain ⟨rfl, h'⟩ := List.cons.inj h
      obtain ⟨rfl, hr⟩ := List.cons.inj h'
      obtain ⟨before, behind, rfl, rfl, rfl⟩ := ih hr fun hl => hcut (hlast (hlast hl))
      exact ⟨aliasOpening ++ before, behind, by rw [List.append_assoc], spelled_alias before, rfl⟩
  | kept c cs hkept ih =>
    cases l with
    | nil => exact ⟨[], c :: cs, rfl, rfl, h⟩
    | cons d l =>
      rw [spelled_cons hkept, List.cons_append] at h
      obtain ⟨rfl, hr⟩ := List.cons.inj h
      obtain ⟨before, behind, rfl, rfl, rfl⟩ := ih hr fun hl => hcut (hlast hl)
      refine ⟨c :: before, behind, rfl, spelled_cons fun hpre => hkept ?_, rfl⟩
      exact hpre.trans (List.prefix_append (c :: before) behind)

/-- How often an opening has the other spelling. -/
def aliases (cs : List Char) : Nat := cs.tails.countP aliasOpening.isPrefixOf

theorem aliases_eq_zero {cs : List Char} : aliases cs = 0 ↔ ¬ aliasOpening <:+: cs := by
  simp only [aliases, List.countP_eq_zero, List.mem_tails, List.isPrefixOf_iff_prefix,
    List.infix_iff_prefix_suffix, not_exists, not_and]
  exact forall_congr' fun t => imp_not_comm

/-- The usual spelling saves two bytes for each opening that had the other one. -/
theorem byteLength_spelled (cs : List Char) :
    Text.byteLength cs = Text.byteLength (spelled cs) + 2 * aliases cs := by
  induction cs using spelling_induction with
  | nil => rfl
  | aliased r ih =>
    have hcount : aliases (aliasOpening ++ r) = aliases r + 1 := by
      simp [aliases, aliasOpening]
    have hsaved : Text.byteLength aliasOpening = Text.byteLength opening + 2 := rfl
    rw [spelled_alias, hcount, Text.byteLength_append, Text.byteLength_append, ih, hsaved]
    omega
  | kept c r h ih =>
    have hcount : aliases (c :: r) = aliases r := by
      rw [aliases, List.tails_cons, List.countP_cons_of_neg (by rwa [List.isPrefixOf_iff_prefix])]
      rfl
    rw [spelled_cons h, hcount, Text.byteLength_cons, Text.byteLength_cons, ih, Nat.add_assoc]

/-! ### Blanks -/

theorem fresh_blank {c : Char} (hc : Text.isBlank c = true) (r : List Char) : Fresh (c :: r) := by
  intro d hd hmem
  obtain rfl : c = d := by simpa using hd
  simp only [aliasOpening, List.tail_cons, List.mem_cons, List.not_mem_nil, or_false] at hmem
  obtain rfl | rfl | rfl := hmem <;> cases hc

theorem exists_spelled_cons (c : Char) (r : List Char) : ∃ w, spelled (c :: r) = c :: w := by
  have hhead := head?_spelled (c :: r)
  rwa [List.head?_cons, List.head?_eq_some_iff] at hhead

/-- The blanks at the two ends stay there. -/
theorem trimChars_spelled (cs : List Char) : Text.trimChars (spelled cs) = spelled (Text.trimChars cs) := by
  have hfront : ∀ cs, (spelled cs).dropWhile Text.isBlank = spelled (cs.dropWhile Text.isBlank) := by
    intro cs
    induction cs with
    | nil => rfl
    | cons c r ih =>
      by_cases hc : Text.isBlank c = true
      · have hne : c ≠ '$' := by
          rintro rfl
          cases hc
        rw [spelled_cons_of_ne hne, List.dropWhile_cons_of_pos hc, List.dropWhile_cons_of_pos hc, ih]
      · obtain ⟨w, hw⟩ := exists_spelled_cons c r
        rw [List.dropWhile_cons_of_neg hc, hw, List.dropWhile_cons_of_neg hc]
  have hback : ∀ cs, (spelled cs).rdropWhile Text.isBlank = spelled (cs.rdropWhile Text.isBlank) := by
    intro cs
    induction cs using List.reverseRecOn with
    | nil => rfl
    | append_singleton r c ih =>
      by_cases hc : Text.isBlank c = true
      · have hne : c ≠ '$' := by
          rintro rfl
          cases hc
        rw [spelled_append (fresh_blank hc []), spelled_cons_of_ne hne, spelled_nil,
          List.rdropWhile_concat_pos _ _ _ hc, List.rdropWhile_concat_pos _ _ _ hc, ih]
      · have hlast := getLast?_spelled (r ++ [c])
        rw [List.getLast?_concat, List.getLast?_eq_some_iff] at hlast
        obtain ⟨w, hw⟩ := hlast
        rw [List.rdropWhile_concat_neg _ _ _ hc, hw, List.rdropWhile_concat_neg _ _ _ hc]
  change ((spelled cs).dropWhile Text.isBlank).rdropWhile Text.isBlank =
    spelled ((cs.dropWhile Text.isBlank).rdropWhile Text.isBlank)
  rw [hfront, hback]

theorem all_isBlank_spelled (cs : List Char) : (spelled cs).all Text.isBlank = cs.all Text.isBlank := by
  induction cs using spelling_induction with
  | nil => rfl
  | aliased r _ =>
    rw [spelled_alias]
    rfl
  | kept c r h ih => rw [spelled_cons h, List.all_cons, List.all_cons, ih]

theorem byteLength_spelled_le (cs : List Char) : Text.byteLength (spelled cs) ≤ Text.byteLength cs := by
  have hsaved := byteLength_spelled cs
  omega

/-- Spelled first or not, a text that is not too long is read as the same template or refused alike. -/
theorem parse_normalize {s : String} (h : s.utf8ByteSize ≤ maxBytes) : parse (normalize s) = parse s := by
  have hshort : (normalize s).utf8ByteSize ≤ maxBytes := by
    rw [Text.utf8ByteSize_eq] at h ⊢
    rw [toList_normalize]
    exact (byteLength_spelled_le s.toList).trans h
  have hblank : Text.blank (normalize s) = Text.blank s := by
    rw [Text.blank, Text.blank, toList_normalize, all_isBlank_spelled]
  have hagain : normalize (normalize s) = normalize s := by
    rw [normalize, toList_normalize]
    exact congrArg String.ofList (spelled_spelled s.toList)
  rw [parse, parse, if_neg hshort.not_gt, if_neg h.not_gt, hblank, hagain]

end ShardedSql.Template
