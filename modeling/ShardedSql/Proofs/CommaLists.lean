import ShardedSql.Proofs.Braces
import ShardedSql.Proofs.Declarations
import ShardedSql.Proofs.Expansions
import ShardedSql.Proofs.Openings
import ShardedSql.Template.Declaration

/-! A declaration list is cut at the commas between its parts and nowhere else, when every placeholder of a
part is closed in it and every comma of a part is in a placeholder. The list then expands part by part. -/

namespace ShardedSql

namespace Template

/-! ### Closed placeholders -/

/-- Every placeholder is closed, in either spelling of its opening, and every comma is in one. -/
inductive SelfContained : List Char → Prop
  | nil : SelfContained []
  | char {c : Char} {cs : List Char} (hcomma : c ≠ ',') (hopening : ¬ opening <+: c :: cs)
      (haliased : ¬ aliasOpening <+: c :: cs) (h : SelfContained cs) : SelfContained (c :: cs)
  | placeholder (aliased : Bool) {body cs : List Char} (hbody : Balanced body) (h : SelfContained cs) :
      SelfContained ((if aliased then aliasOpening else opening) ++ (body ++ '\x7d' :: cs))

/-! ### The usual spelling -/

theorem quoted_of_plain {quote c : Char} {text w : List Char} (h : Token.Quoted quote text (c :: w))
    (hc : c ≠ '\\') : ∃ text', Token.Quoted quote text' w := by
  cases h with
  | plain _ _ h => exact ⟨_, h⟩
  | escaped => exact absurd rfl hc

/-- One more character before a text stays, and it takes at most an arrow away from what is behind it. -/
theorem spelled_step (c : Char) (r : List Char) :
    ∃ w, spelled (c :: r) = c :: w ∧ (spelled r = w ∨ spelled r = '-' :: '>' :: w) := by
  by_cases h : aliasOpening <+: c :: r
  · obtain ⟨w, hw⟩ := h
    obtain ⟨rfl, rfl⟩ := List.cons.inj hw
    refine ⟨'\x7b' :: spelled w, spelled_alias w, .inr ?_⟩
    change spelled ('-' :: '>' :: '\x7b' :: w) = _
    rw [spelled_cons_of_ne (by decide), spelled_cons_of_ne (by decide), spelled_cons_of_ne (by decide)]
  · exact ⟨spelled r, spelled_cons h, .inl rfl⟩

theorem quoted_spelled {quote : Char} {text cs : List Char} (h : Token.Quoted quote text cs) :
    ∃ text', Token.Quoted quote text' (spelled cs) := by
  have hstep : ∀ c r, (∃ text', Token.Quoted quote text' (spelled r)) →
      ∃ w text', spelled (c :: r) = c :: w ∧ Token.Quoted quote text' w := by
    rintro c r ⟨text', htext⟩
    obtain ⟨w, hw, hrest | hrest⟩ := spelled_step c r
    · exact ⟨w, text', hw, hrest ▸ htext⟩
    · rw [hrest] at htext
      obtain ⟨_, htext⟩ := quoted_of_plain htext (by decide)
      obtain ⟨text', htext⟩ := quoted_of_plain htext (by decide)
      exact ⟨w, text', hw, htext⟩
  induction h with
  | nil => exact ⟨[], .nil⟩
  | @plain c text written hquote hescape _ ih =>
    obtain ⟨w, text', hw, htext⟩ := hstep c written ih
    exact ⟨c :: text', hw ▸ .plain hquote hescape htext⟩
  | @escaped text written c _ ih =>
    obtain ⟨w, text', hw, htext⟩ := hstep c written ih
    rw [spelled_cons_of_ne (by decide), hw]
    exact ⟨c :: text', .escaped c htext⟩

theorem Balanced.spelled {body : List Char} (h : Balanced body) : Balanced (spelled body) := by
  induction h with
  | nil => exact .nil
  | @plain c cs hc _ ih =>
    obtain ⟨w, hw, hrest | hrest⟩ := spelled_step c cs
    · rw [hw, ← hrest]
      exact .plain hc ih
    · rw [hrest] at ih
      rw [hw]
      exact .plain hc ((ih.of_plain rfl).of_plain rfl)
  | @string quote text written cs hquote htext _ ih =>
    have hne : quote ≠ '$' := by
      rintro rfl
      cases hquote
    have hfresh : Fresh (quote :: cs) := by
      intro c hc hmem
      obtain rfl : quote = c := by simpa using hc
      simp only [aliasOpening, List.tail_cons, List.mem_cons, List.not_mem_nil, or_false] at hmem
      obtain rfl | rfl | rfl := hmem <;> cases hquote
    obtain ⟨text', htext'⟩ := quoted_spelled htext
    rw [spelled_cons_of_ne hne, spelled_append hfresh, spelled_cons_of_ne hne]
    exact .string hquote htext' ih
  | @braces inner cs _ _ ihinner ih =>
    rw [spelled_cons_of_ne (by decide), spelled_append (by simp [Fresh, aliasOpening]),
      spelled_cons_of_ne (by decide)]
    exact .braces ihinner ih

theorem spelled_opening (aliased : Bool) (r : List Char) :
    Template.spelled ((if aliased then aliasOpening else opening) ++ r) = opening ++ Template.spelled r := by
  rw [Template.spelled, normalizeFrom_opening, normalizeFrom_eq]
  rfl

theorem SelfContained.spelled {cs : List Char} (h : SelfContained cs) : SelfContained (spelled cs) := by
  induction h with
  | nil => exact .nil
  | @char c cs hcomma hopening haliased _ ih =>
    have hfree := spelled_free (c :: cs)
    rw [spelled_cons haliased] at hfree ⊢
    refine .char hcomma (fun hpre => hopening ?_) (fun hpre => hfree hpre.isInfix) ih
    obtain ⟨rfl, w, hw⟩ := List.cons_prefix_cons.1 hpre
    obtain ⟨r, rfl, -⟩ := eq_cons_of_spelled (by decide) hw.symm
    exact ⟨r, rfl⟩
  | @placeholder aliased body cs hbody _ ih =>
    rw [spelled_opening, spelled_append (by simp [Fresh, aliasOpening]), spelled_cons_of_ne (by decide)]
    exact .placeholder false hbody.spelled ih

theorem SelfContained.append {cs r : List Char} (h : SelfContained cs) (hr : SelfContained r)
    (hfresh : Fresh r) : SelfContained (cs ++ r) := by
  have hfresh' : ∀ c ∈ r.head?, c ∉ opening.tail := by
    intro c hc hmem
    refine hfresh c hc ?_
    simp [opening, aliasOpening] at hmem ⊢
    exact .inr (.inr hmem)
  induction h with
  | nil => exact hr
  | char hcomma hopening haliased _ ih =>
    exact .char hcomma (fun hpre => hopening (prefix_of_crossing hpre (List.cons_ne_nil _ _) hfresh'))
      (fun hpre => haliased (prefix_of_crossing hpre (List.cons_ne_nil _ _) hfresh)) ih
  | @placeholder aliased body cs hbody _ ih =>
    rw [List.append_assoc, List.append_assoc, List.cons_append]
    exact .placeholder aliased hbody ih

theorem SelfContained.behind_blank {gap r : List Char} (hgap : gap.all Text.isBlank = true)
    (hr : SelfContained r) : SelfContained (gap ++ r) := by
  induction gap with
  | nil => exact hr
  | cons c gap ih =>
    rw [List.all_cons, Bool.and_eq_true] at hgap
    have hne : c ≠ '$' := by
      rintro rfl
      cases hgap.1
    refine .char ?_ (fun hpre => hne (List.cons_prefix_cons.1 hpre).1.symm)
      (fun hpre => hne (List.cons_prefix_cons.1 hpre).1.symm) (ih hgap.2)
    rintro rfl
    cases hgap.1

theorem SelfContained.before_blank {cs gap : List Char} (h : SelfContained cs)
    (hgap : gap.all Text.isBlank = true) : SelfContained (cs ++ gap) := by
  have hblank : SelfContained gap := by simpa using SelfContained.behind_blank hgap .nil
  cases gap with
  | nil => rwa [List.append_nil]
  | cons c gap =>
    rw [List.all_cons, Bool.and_eq_true] at hgap
    exact h.append hblank (fresh_blank hgap.1 gap)

end Template

namespace Declaration

open Template (SelfContained opening aliasOpening)

/-! ### The cuts -/

theorem partsFrom_opening (fuel position : Nat) (part : List Char) (parts : List (List Char)) (r : List Char) :
    partsFrom (fuel + 1) position part parts (opening ++ r) =
      match Template.splitBody 0 none [] r with
      | none => .error (.unterminatedPlaceholder position)
      | some (body, rest) => partsFrom fuel (position + 2 + Text.byteLength body + 1)
          ('\x7d' :: (body.reverse ++ '\x7b' :: '$' :: part)) parts rest := by
  change partsFrom (fuel + 1) position part parts ('$' :: '\x7b' :: r) = _
  cases hbody : Template.splitBody 0 none [] r <;> rw [partsFrom, hbody]

theorem partsFrom_plain {c : Char} {r : List Char} (hopening : ¬ opening <+: c :: r) (hcomma : c ≠ ',')
    (fuel position : Nat) (part : List Char) (parts : List (List Char)) :
    partsFrom (fuel + 1) position part parts (c :: r) =
      partsFrom fuel (position + c.utf8Size) (c :: part) parts r := by
  rw [partsFrom]
  · rintro r' rfl rfl
    exact hopening ⟨r', rfl⟩
  · exact hcomma

/-- Up to the comma behind it a part is taken as it is. -/
theorem partsFrom_part {cs : List Char} (h : SelfContained cs) (hfree : ¬ aliasOpening <:+: cs) {r : List Char}
    (hr : ∀ c ∈ r.head?, c = ',') {fuel : Nat} (hfuel : (cs ++ r).length ≤ fuel) (position : Nat)
    (part : List Char) (parts : List (List Char)) : ∃ fuel' position', r.length ≤ fuel' ∧
      partsFrom fuel position part parts (cs ++ r) =
        partsFrom fuel' position' (cs.reverse ++ part) parts r := by
  induction h generalizing fuel position part with
  | nil => exact ⟨fuel, position, hfuel, rfl⟩
  | @char c cs hcomma hopening haliased _ ih =>
    cases fuel with
    | zero => cases hfuel
    | succ fuel =>
      have hnot : ¬ opening <+: c :: (cs ++ r) := fun hpre =>
        hopening (Template.prefix_of_crossing hpre (List.cons_ne_nil c cs) fun d hd => by
          rw [hr d hd]
          decide)
      obtain ⟨fuel', position', hfuel', hrun⟩ := ih (fun hin => hfree (List.infix_cons hin))
        (by simpa using hfuel) (position + c.utf8Size) (c :: part)
      refine ⟨fuel', position', hfuel', ?_⟩
      rw [List.cons_append, partsFrom_plain hnot hcomma, hrun]
      simp
  | @placeholder aliased body cs hbody _ ih =>
    cases aliased with
    | true => exact absurd (List.prefix_append aliasOpening _).isInfix hfree
    | false =>
      cases fuel with
      | zero => cases hfuel
      | succ fuel =>
        have hfree' : ¬ aliasOpening <:+: cs := fun hin => hfree (hin.trans (List.IsSuffix.isInfix
          ⟨opening ++ (body ++ ['\x7d']), by simp⟩))
        have hlength : (cs ++ r).length ≤ fuel := by
          simp [opening] at hfuel ⊢
          omega
        obtain ⟨fuel', position', hfuel', hrun⟩ := ih hfree' hlength
          (position + 2 + Text.byteLength body + 1) ('\x7d' :: (body.reverse ++ '\x7b' :: '$' :: part))
        refine ⟨fuel', position', hfuel', ?_⟩
        have hcs : (if false = true then aliasOpening else opening) ++ (body ++ '\x7d' :: cs) ++ r =
            opening ++ (body ++ '\x7d' :: (cs ++ r)) := by
          simp
        rw [hcs, partsFrom_opening, hbody.splitBody]
        dsimp only
        rw [hrun]
        simp [opening]

theorem partsFrom_join {css : List (List Char)} (hne : css ≠ []) (h : ∀ cs ∈ css, SelfContained cs)
    (hfree : ∀ cs ∈ css, ¬ aliasOpening <:+: cs) {fuel : Nat}
    (hfuel : (List.intercalate [','] css).length ≤ fuel) (position : Nat) (parts : List (List Char)) :
    partsFrom fuel position [] parts (List.intercalate [','] css) = .ok (parts.reverse ++ css) := by
  induction css generalizing fuel position parts with
  | nil => exact absurd rfl hne
  | cons cs css ih =>
    cases css with
    | nil =>
      rw [List.intercalate_singleton] at hfuel ⊢
      obtain ⟨fuel', position', -, hrun⟩ := partsFrom_part (r := []) (h cs (by simp)) (hfree cs (by simp))
        (by simp) (by simpa using hfuel) position [] parts
      rw [List.append_nil, List.append_nil] at hrun
      rw [hrun]
      cases fuel' <;> simp [partsFrom]
    | cons cs' css =>
      rw [List.intercalate_cons_cons, List.append_assoc, List.singleton_append] at hfuel ⊢
      obtain ⟨fuel', position', hfuel', hrun⟩ := partsFrom_part (h cs (by simp)) (hfree cs (by simp))
        (r := ',' :: List.intercalate [','] (cs' :: css)) (by simp) hfuel position [] parts
      rw [hrun]
      cases fuel' with
      | zero => cases hfuel'
      | succ fuel' =>
        rw [partsFrom, ih (by simp) (fun d hd => h d (by simp [hd])) (fun d hd => hfree d (by simp [hd]))
          (by simpa using hfuel')]
        simp

theorem spelled_join (css : List (List Char)) :
    Template.spelled (List.intercalate [','] css) = List.intercalate [','] (css.map Template.spelled) := by
  induction css with
  | nil => rfl
  | cons cs css ih =>
    cases css with
    | nil => simp
    | cons cs' css =>
      rw [List.map_cons, List.map_cons, List.intercalate_cons_cons, List.intercalate_cons_cons, ← List.map_cons,
        ← ih, List.append_assoc, List.append_assoc,
        Template.spelled_append (by simp [Template.Fresh, aliasOpening]), List.singleton_append,
        Template.spelled_cons_of_ne (by decide), List.singleton_append]

theorem parts_join {pieces : List String} (hne : pieces ≠ []) (h : ∀ p ∈ pieces, SelfContained p.toList) :
    parts (Template.normalize (",".intercalate pieces)) = .ok (pieces.map Template.normalize) := by
  have hcss : (Template.normalize (",".intercalate pieces)).toList =
      List.intercalate [','] (pieces.map fun p => Template.spelled p.toList) := by
    rw [Template.toList_normalize, String.toList_intercalate]
    change Template.spelled (List.intercalate [','] (pieces.map String.toList)) = _
    rw [spelled_join, List.map_map]
    rfl
  have hrun : partsFrom (Template.normalize (",".intercalate pieces)).length 0 [] []
      (List.intercalate [','] (pieces.map fun p => Template.spelled p.toList)) =
        .ok (pieces.map fun p => Template.spelled p.toList) := by
    refine partsFrom_join (by simpa using hne) ?_ ?_ ?_ 0 []
    · exact List.forall_mem_map.2 fun p hp => (h p hp).spelled
    · exact List.forall_mem_map.2 fun p _ => Template.spelled_free p.toList
    · rw [← hcss, String.length_toList]
  rw [parts, hcss, hrun]
  change Except.ok (List.map String.ofList (pieces.map fun p => Template.spelled p.toList)) = _
  rw [List.map_map]
  rfl

/-! ### The parts one after another -/

/-- The texts of one part. -/
def partTexts (vars : Bindings) (part : String) : Except ExprError (List String) :=
  Template.parse part >>= fun t => t.expand vars

/-- The parts that are not blank, without the blanks around them. -/
def listed (parts : List String) : List String := (parts.filter fun p => !Text.blank p).map Text.trim

theorem expandParts_cons (vars : Bindings) (count : Nat) (part : String) (rest : List String) :
    expandParts vars count (part :: rest) = (partTexts vars part >>= fun texts =>
      Expr.withinLimit (count + texts.length) >>= fun _ =>
        expandParts vars (count + texts.length) rest >>= fun more => .ok (texts ++ more)) := by
  rw [expandParts, partTexts]
  cases Template.parse part <;> rfl

section Parts

variable {vars : Bindings}

/-- The parts have these texts, one list of texts for each part. -/
def AllTexts (vars : Bindings) : List String → List (List String) → Prop :=
  List.Forall₂ fun part texts => partTexts vars part = .ok texts

/-- The first part that fails has this error, or the parts up to it have too many texts; so many came before. -/
def FailsFirst (vars : Bindings) (count : Nat) (parts : List String) (e : ExprError) : Prop :=
  ∃ before part after tss, parts = before ++ part :: after ∧ AllTexts vars before tss ∧
    count + tss.flatten.length ≤ maxValues ∧ (partTexts vars part = .error e ∨
      ∃ texts, partTexts vars part = .ok texts ∧ maxValues < count + (tss ++ [texts]).flatten.length ∧
        e = .tooManyValues maxValues)

theorem expandParts_eq_ok {count : Nat} {parts texts : List String} (hcount : count ≤ maxValues) :
    expandParts vars count parts = .ok texts ↔
      ∃ tss, AllTexts vars parts tss ∧ texts = tss.flatten ∧ count + texts.length ≤ maxValues := by
  induction parts generalizing count texts with
  | nil =>
    rw [expandParts]
    constructor
    · intro h
      cases h
      exact ⟨[], .nil, rfl, hcount⟩
    · rintro ⟨tss, hall, rfl, -⟩
      cases hall
      rfl
  | cons part rest ih =>
    rw [expandParts_cons]
    constructor
    · intro h
      obtain ⟨ts, hts, h⟩ := bind_eq_ok.1 h
      obtain ⟨_, hlimit, h⟩ := bind_eq_ok.1 h
      obtain ⟨more, hmore, h⟩ := bind_eq_ok.1 h
      cases h
      obtain ⟨tss, hall, rfl, htotal⟩ := (ih (Expr.withinLimit_eq_ok.1 hlimit)).1 hmore
      refine ⟨ts :: tss, .cons hts hall, rfl, ?_⟩
      rwa [List.length_append, ← Nat.add_assoc]
    · rintro ⟨tss, hall, rfl, htotal⟩
      cases hall with
      | @cons _ ts _ tss hts hall =>
        rw [List.flatten_cons, List.length_append, ← Nat.add_assoc] at htotal
        have hlimit : count + ts.length ≤ maxValues := by omega
        refine bind_eq_ok.2 ⟨ts, hts, bind_eq_ok.2 ⟨(), Expr.withinLimit_eq_ok.2 hlimit, ?_⟩⟩
        exact bind_eq_ok.2 ⟨_, (ih hlimit).2 ⟨tss, hall, rfl, htotal⟩, rfl⟩

theorem failsFirst_cons {count : Nat} {part : String} {rest : List String} {e : ExprError} :
    FailsFirst vars count (part :: rest) e ↔ count ≤ maxValues ∧ (partTexts vars part = .error e ∨
      ∃ texts, partTexts vars part = .ok texts ∧
        (maxValues < count + texts.length ∧ e = .tooManyValues maxValues ∨
          FailsFirst vars (count + texts.length) rest e)) := by
  constructor
  · rintro ⟨before, part', after, tss, hsplit, hbefore, hcount, hlast⟩
    cases hbefore with
    | nil =>
      cases hsplit
      refine ⟨by simpa using hcount, hlast.imp_right fun ⟨texts, htexts, hlimit, he⟩ => ?_⟩
      exact ⟨texts, htexts, .inl ⟨by simpa using hlimit, he⟩⟩
    | @cons b ts before tss hts hbefore =>
      cases hsplit
      rw [List.flatten_cons, List.length_append, ← Nat.add_assoc] at hcount
      refine ⟨by omega, .inr ⟨ts, hts, .inr ⟨before, part', after, tss, rfl, hbefore, hcount, ?_⟩⟩⟩
      refine hlast.imp_right fun ⟨texts, htexts, hlimit, he⟩ => ⟨texts, htexts, ?_, he⟩
      rwa [List.cons_append, List.flatten_cons, List.length_append, ← Nat.add_assoc] at hlimit
  · rintro ⟨hcount, h | ⟨ts, hts, ⟨hlimit, he⟩ | ⟨before, part', after, tss, rfl, hbefore, htotal, hlast⟩⟩⟩
    · exact ⟨[], part, rest, [], rfl, .nil, hcount, .inl h⟩
    · exact ⟨[], part, rest, [], rfl, .nil, hcount, .inr ⟨ts, hts, by simpa using hlimit, he⟩⟩
    · refine ⟨part :: before, part', after, ts :: tss, rfl, .cons hts hbefore, ?_, ?_⟩
      · rwa [List.flatten_cons, List.length_append, ← Nat.add_assoc]
      · refine hlast.imp_right fun ⟨texts, htexts, hlimit, he⟩ => ⟨texts, htexts, ?_, he⟩
        rwa [List.cons_append, List.flatten_cons, List.length_append, ← Nat.add_assoc]

theorem expandParts_eq_error {count : Nat} {parts : List String} {e : ExprError} (hcount : count ≤ maxValues) :
    expandParts vars count parts = .error e ↔ FailsFirst vars count parts e := by
  induction parts generalizing count with
  | nil =>
    refine iff_of_false nofun ?_
    rintro ⟨before, part, after, tss, hsplit, -⟩
    simp at hsplit
  | cons part rest ih =>
    rw [expandParts_cons, failsFirst_cons, and_iff_right hcount, bind_eq_error]
    refine or_congr_right (exists_congr fun texts => and_congr_right fun _ => ?_)
    rw [bind_eq_error, Expr.withinLimit_eq_error]
    refine or_congr_right ⟨?_, fun h => ?_⟩
    · rintro ⟨_, hlimit, h⟩
      obtain h | ⟨_, _, h⟩ := bind_eq_error.1 h
      · exact (ih (Expr.withinLimit_eq_ok.1 hlimit)).1 h
      · cases h
    · have hlimit : count + texts.length ≤ maxValues := by
        obtain ⟨_, _, _, _, _, _, htotal, -⟩ := h
        omega
      exact ⟨(), Expr.withinLimit_eq_ok.2 hlimit, bind_eq_error.2 (.inl ((ih hlimit).2 h))⟩

theorem partTexts_normalize {part : String} (h : part.utf8ByteSize ≤ Template.maxBytes) :
    partTexts vars (Template.normalize part) = partTexts vars part := by
  rw [partTexts, partTexts, Template.parse_normalize h]

theorem expandParts_normalize {parts : List String} (h : ∀ p ∈ parts, p.utf8ByteSize ≤ Template.maxBytes)
    (count : Nat) : expandParts vars count (parts.map Template.normalize) = expandParts vars count parts := by
  induction parts generalizing count with
  | nil => rfl
  | cons part rest ih =>
    rw [List.map_cons, expandParts_cons, expandParts_cons, partTexts_normalize (h part (by simp))]
    simp only [ih fun p hp => h p (by simp [hp])]

end Parts

/-! ### Padding -/

/-- The part with blanks around it. -/
def Padded (part piece : String) : Prop :=
  ∃ before behind, Text.blank before = true ∧ Text.blank behind = true ∧ piece = before ++ part ++ behind

theorem trim_normalize (s : String) : Text.trim (Template.normalize s) = Template.normalize (Text.trim s) := by
  rw [Text.trim, Template.toList_normalize, Template.trimChars_spelled, Template.normalize, Text.trim,
    String.toList_ofList]
  rfl

theorem Padded.trim_eq {part piece : String} (h : Padded part piece) : Text.trim piece = Text.trim part := by
  obtain ⟨before, behind, hbefore, hbehind, rfl⟩ := h
  have hfront : ∀ {gap : List Char} (cs : List Char), gap.all Text.isBlank = true →
      (gap ++ cs).dropWhile Text.isBlank = cs.dropWhile Text.isBlank := fun cs hgap =>
    List.dropWhile_append_of_pos (List.all_eq_true.1 hgap)
  have hback : behind.toList.reverse.all Text.isBlank = true := by rwa [List.all_reverse]
  simp only [Text.trim, Text.trimChars, String.toList_append, List.append_assoc]
  rw [hfront _ hbefore, List.dropWhile_append]
  split
  · rename_i hnone
    rw [List.isEmpty_iff.1 hnone, List.dropWhile_eq_nil_iff.2 (List.all_eq_true.1 hbehind)]
  · rw [List.reverse_append, hfront _ hback]

theorem Padded.selfContained {part piece : String} (h : Padded part piece)
    (hpart : SelfContained part.toList) : SelfContained piece.toList := by
  obtain ⟨before, behind, hbefore, hbehind, rfl⟩ := h
  rw [String.toList_append, String.toList_append]
  exact (Template.SelfContained.behind_blank hbefore hpart).before_blank hbehind

theorem listed_pieces {parts pieces : List String} (h : List.Forall₂ Padded parts pieces) :
    ((pieces.map Template.normalize).map Text.trim).filter (fun p => !p.isEmpty) =
      (listed parts).map Template.normalize := by
  have hmap : (pieces.map Template.normalize).map Text.trim =
      parts.map fun p => Template.normalize (Text.trim p) := by
    rw [List.map_map]
    refine map_eq_of_forall₂ (h.imp fun part piece hpadded => ?_)
    rw [Function.comp_apply, trim_normalize, hpadded.trim_eq]
  have hempty : ∀ s : String, (Template.normalize (Text.trim s)).isEmpty = Text.blank s := by
    intro s
    rw [Bool.eq_iff_iff, String.isEmpty_iff, ← Text.trim_eq_empty, ← String.toList_eq_nil_iff,
      Template.toList_normalize, ← String.toList_eq_nil_iff, ← List.head?_eq_none_iff, Template.head?_spelled,
      List.head?_eq_none_iff]
  rw [hmap, List.filter_map, listed, List.map_map]
  simp only [Function.comp_def, hempty]

end Declaration

open Declaration in
/-- Parts with blanks around them, blank ones among them, are cut out of the list again, when in each part every
placeholder is closed and every comma is in a placeholder. The list expands to what the parts expand to,
without the blank ones and in order, or fails as the first part that fails or as soon as the texts are too
many. -/
theorem expand_comma_list (vars : Bindings) {parts pieces : List String}
    (hclosed : ∀ p ∈ parts, Template.SelfContained p.toList)
    (hsize : ∀ p ∈ parts, (Text.trim p).utf8ByteSize ≤ Template.maxBytes)
    (hpieces : List.Forall₂ Padded parts pieces) :
    (∀ texts, Declaration.expand vars (",".intercalate pieces) = .ok texts ↔
      ∃ tss, AllTexts vars (listed parts) tss ∧ texts = tss.flatten ∧ texts.length ≤ maxValues) ∧
    ∀ e, Declaration.expand vars (",".intercalate pieces) = .error e ↔
      FailsFirst vars 0 (listed parts) e := by
  have hexpand : Declaration.expand vars (",".intercalate pieces) = expandParts vars 0 (listed parts) := by
    cases parts with
    | nil =>
      cases hpieces
      rfl
    | cons part parts =>
      have hne : pieces ≠ [] := by
        rintro rfl
        cases hpieces
      have hsplit := parts_join hne fun piece hpiece => by
        obtain ⟨part, hpart, hpadded⟩ := exists_of_mem_right hpieces hpiece
        exact hpadded.selfContained (hclosed part hpart)
      rw [Declaration.expand, hsplit]
      change expandParts vars 0 (((pieces.map Template.normalize).map Text.trim).filter fun p => !p.isEmpty) = _
      rw [listed_pieces hpieces, expandParts_normalize]
      intro p hp
      obtain ⟨q, hq, rfl⟩ := List.mem_map.1 hp
      exact hsize q (List.mem_filter.1 hq).1
  refine ⟨fun texts => ?_, fun e => ?_⟩
  · rw [hexpand, expandParts_eq_ok (Nat.zero_le _)]
    simp only [Nat.zero_add]
  · rw [hexpand, expandParts_eq_error (Nat.zero_le _)]

/-- Two tables by a list, a blank part, and one whose name has a brace and a comma. -/
def tableParts : List String := ["t$\x7b[1, 2]\x7d", "", "$->\x7b'\x7d,'\x7d"]

open Template in
theorem selfContained_tableParts : ∀ p ∈ tableParts, SelfContained p.toList := by
  have hlist : Balanced ['[', '1', ',', ' ', '2', ']'] :=
    .plain rfl (.plain rfl (.plain rfl (.plain rfl (.plain rfl (.plain rfl .nil)))))
  have hquoted : Balanced ['\'', '\x7d', ',', '\''] :=
    .string rfl (.plain (by decide) (by decide) (.plain (by decide) (by decide) .nil)) .nil
  intro p hp
  simp only [tableParts, List.mem_cons, List.not_mem_nil, or_false] at hp
  obtain rfl | rfl | rfl := hp
  · exact .char (by decide) (by decide) (by decide) (.placeholder false hlist .nil)
  · exact .nil
  · exact .placeholder true hquoted .nil

/-- Two of the four commas separate. -/
theorem expand_comma_list_tables :
    Declaration.expand .none " t$\x7b[1, 2]\x7d\t, ,$->\x7b'\x7d,'\x7d" = .ok ["t1", "t2", "\x7d,"] := by
  have hpieces : List.Forall₂ Declaration.Padded tableParts
      [" t$\x7b[1, 2]\x7d\t", " ", "$->\x7b'\x7d,'\x7d"] :=
    .cons ⟨" ", "\t", rfl, rfl, rfl⟩ (.cons ⟨" ", "", rfl, rfl, rfl⟩ (.cons ⟨"", "", rfl, rfl, rfl⟩ .nil))
  have hall : Declaration.AllTexts .none (Declaration.listed tableParts) [["t1", "t2"], ["\x7d,"]] :=
    .cons (by decide +kernel) (.cons (by decide +kernel) .nil)
  exact ((expand_comma_list .none selfContained_tableParts (by decide +kernel) hpieces).1 _).2
    ⟨_, hall, rfl, by decide⟩

end ShardedSql
