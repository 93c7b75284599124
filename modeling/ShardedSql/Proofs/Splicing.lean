import ShardedSql.Proofs.Offsets
import ShardedSql.Proofs.Success
import ShardedSql.Sql.Token

/-! Rebuilding a statement around its tokens. Where the tokens are well placed, the text that no token
covers is kept piece by piece and each token stands for the text it covers; elsewhere the statement is
refused. The invariant of both cursors: they stand on character boundaries, at the end of the last
token. -/

namespace ShardedSql

open Text (IsBoundary byteLength slice)

/-- The statement is refused for where its tokens stand. -/
def RenderError.IsMisplaced : RenderError → Prop
  | .tokenOutOfBounds _ _ _ | .overlappingTokens _ => True
  | .unknownStorageUnit _ | .conversion _ => False

namespace SqlToken

/-- The token lies in the text, from one character boundary to another. -/
structure InText (cs : List Char) (t : SqlToken) : Prop where
  finish_le : t.finish ≤ byteLength cs
  forward : ∀ span ∈ t.span?, span.start ≤ span.stop
  starts : IsBoundary cs t.start
  finishes : IsBoundary cs t.finish

/-- The second token starts where the first one has ended, or later. -/
def Follows (t u : SqlToken) : Prop := t.finish ≤ u.start

/-- The token lies in the span; an insertion may stand at the end of it. -/
def Within (span : Span) (t : SqlToken) : Prop := span.start ≤ t.start ∧ t.finish ≤ span.stop + 1

mutual

/-- The token lies in the text, and nested tokens lie in it one behind the other. -/
def Placed (cs : List Char) : SqlToken → Prop
  | .composable span tokens =>
    InText cs (.composable span tokens) ∧ tokens.IsChain Follows ∧ (∀ t ∈ tokens, Within span t) ∧
      PlacedAll cs tokens
  | t => InText cs t

def PlacedAll (cs : List Char) : List SqlToken → Prop
  | [] => True
  | t :: ts => Placed cs t ∧ PlacedAll cs ts

end

/-- Tokens in order are placed one behind the other, at every level. -/
def WellPlaced (cs : List Char) (tokens : List SqlToken) : Prop :=
  tokens.IsChain Follows ∧ PlacedAll cs tokens

mutual

/-- What a token stands for on a unit, given the text that it covers. -/
inductive Renders (unit : Option RouteUnit) : SqlToken → List Char → List Char → Prop
  | insertion {start text covered} : Renders unit (.insertion start text) covered text.toList
  | tableName {span logic quote covered} :
    Renders unit (.tableName span logic quote) covered (quote.wrap (actualName unit logic)).toList
  | substitute {span text covered} : Renders unit (.substitute span text) covered text.toList
  | projections {span columns covered} : Renders unit (.projections span columns) covered
      (", ".intercalate (columns.map (·.render unit))).toList
  | insertRows {span rows covered} : Renders unit (.insertRows span rows) covered
      (", ".intercalate ((rows.filter (·.belongs unit)).map (·.text))).toList
  | composable {span tokens covered out} (h : Splices unit span.start tokens covered out) :
    Renders unit (.composable span tokens) covered out

/-- In a text that begins at an offset every token stands for what it covers, and the gaps before,
between and behind the tokens stay. -/
inductive Splices (unit : Option RouteUnit) : Nat → List SqlToken → List Char → List Char → Prop
  | nil {offset gap} : Splices unit offset [] gap gap
  | cons {offset t ts gap covered rest out outs} (starts : offset + byteLength gap = t.start)
    (finishes : t.start + byteLength covered = t.finish) (token : Renders unit t covered out)
    (others : Splices unit t.finish ts rest outs) :
    Splices unit offset (t :: ts) (gap ++ (covered ++ rest)) (gap ++ (out ++ outs))

end

theorem insertByStart_append {t : SqlToken} {before after : List SqlToken}
    (hbefore : ∀ u ∈ before, ¬ t.start ≤ u.start) (hafter : ∀ u ∈ after, t.start ≤ u.start) :
    insertByStart t (before ++ after) = before ++ t :: after := by
  induction before with
  | nil =>
    cases after with
    | nil => rfl
    | cons u us => exact if_pos (hafter u List.mem_cons_self)
  | cons u us ih =>
    obtain ⟨hu, hus⟩ := List.forall_mem_cons.1 hbefore
    rw [List.cons_append, insertByStart, if_neg hu, ih hus, List.cons_append]

/-- The order of the tokens is the stable sort by their starts. -/
theorem orderedAll_eq_mergeSort (tokens : List SqlToken) :
    orderedAll tokens = (tokens.map ordered).mergeSort fun t u => t.start ≤ u.start := by
  have htrans : ∀ t u v : SqlToken, decide (t.start ≤ u.start) = true →
      decide (u.start ≤ v.start) = true → decide (t.start ≤ v.start) = true := by
    intro t u v
    simp only [decide_eq_true_eq]
    exact Nat.le_trans
  have htotal : ∀ t u : SqlToken,
      (decide (t.start ≤ u.start) || decide (u.start ≤ t.start)) = true := by
    intro t u
    simp only [Bool.or_eq_true, decide_eq_true_eq]
    exact Nat.le_total _ _
  induction tokens with
  | nil => simp [orderedAll]
  | cons t ts ih =>
    obtain ⟨before, after, hcons, hsorted, hbefore⟩ :=
      List.mergeSort_cons htrans htotal (ordered t) (ts.map ordered)
    have hpair := List.pairwise_mergeSort htrans htotal (ordered t :: ts.map ordered)
    rw [hcons] at hpair
    obtain ⟨hafter, -⟩ := List.pairwise_cons.1 (List.pairwise_append.1 hpair).2.1
    rw [orderedAll, ih, List.map_cons, hcons, hsorted]
    refine insertByStart_append (fun u hu => ?_) fun u hu => by simpa using hafter u hu
    simpa using hbefore u hu

section Placement

variable {cs : List Char} {t : SqlToken}

theorem fits_iff : t.fits cs (byteLength cs) = true ↔ InText cs t := by
  simp only [fits, Bool.and_eq_true, decide_eq_true_eq, Option.all_eq_true, Text.isBoundary_iff]
  constructor
  · rintro ⟨⟨⟨h₁, h₂⟩, h₃⟩, h₄⟩
    exact ⟨h₁, h₂, h₃, h₄⟩
  · rintro ⟨h₁, h₂, h₃, h₄⟩
    exact ⟨⟨⟨h₁, h₂⟩, h₃⟩, h₄⟩

theorem InText.start_le_finish (h : InText cs t) : t.start ≤ t.finish := by
  cases t with
  | insertion start text => exact Nat.le_refl _
  | _ => exact Nat.le_succ_of_le (h.forward _ rfl)

theorem InText.resume_eq (h : InText cs t) : t.resume (byteLength cs) = t.finish :=
  Nat.min_eq_left h.finish_le

theorem Placed.inText (h : Placed cs t) : InText cs t := by
  cases t with
  | composable span tokens =>
    rw [Placed] at h
    exact h.1
  | _ => simpa [Placed] using h

theorem PlacedAll.inText {ts : List SqlToken} (h : PlacedAll cs ts) : ∀ t ∈ ts, InText cs t := by
  induction ts with
  | nil => simp
  | cons t ts ih =>
    rw [PlacedAll] at h
    exact List.forall_mem_cons.2 ⟨h.1.inText, ih h.2⟩

/-- Tokens pass when each lies in the text and follows the one before it. -/
theorem validate_eq_ok {previous : Nat} {ts : List SqlToken} :
    validate cs (byteLength cs) previous ts = .ok () ↔
      (∀ t ∈ ts, InText cs t) ∧ (∀ t ∈ ts.head?, previous ≤ t.start) ∧ ts.IsChain Follows := by
  induction ts generalizing previous with
  | nil => simp [validate]
  | cons t ts ih =>
    rw [validate, List.forall_mem_cons, List.isChain_cons]
    by_cases hfits : InText cs t
    · rw [fits_iff.2 hfits, Bool.not_true, if_neg Bool.false_ne_true]
      split
      · rename_i hlt
        refine iff_of_false (by simp) fun h => ?_
        have := h.2.1 t rfl
        omega
      · rename_i hlt
        rw [ih]
        simp only [List.head?_cons, Option.mem_some_iff, forall_eq', hfits, Follows]
        have hle : previous ≤ t.start := by omega
        tauto
    · rw [Bool.eq_false_iff.2 fun h => hfits (fits_iff.1 h), Bool.not_false, if_pos rfl]
      exact iff_of_false (by simp) fun h => hfits h.1.1

end Placement

section Rendering

variable {cs : List Char} {unit : Option RouteUnit}

/-- The checks of the cursor before a token. -/
theorem renderWithin_cons {cursor stop : Nat} {t : SqlToken} {ts : List SqlToken}
    (ht : InText cs t) :
    renderWithin cs (byteLength cs) unit cursor stop (t :: ts) =
      if cursor ≤ t.start ∧ t.finish ≤ stop then do
        let text ← render cs (byteLength cs) unit t
        let rest ← renderWithin cs (byteLength cs) unit t.finish stop ts
        .ok (slice cs cursor t.start ++ text ++ rest)
      else .error (.overlappingTokens t.start) := by
  have hle := ht.start_le_finish
  have hcheck : (t.start < cursor || t.start > stop || t.finish > stop) =
      !decide (cursor ≤ t.start ∧ t.finish ≤ stop) := by
    rw [Bool.eq_iff_iff]
    simp only [Bool.or_eq_true, decide_eq_true_eq, Bool.not_eq_true', decide_eq_false_iff_not]
    omega
  rw [renderWithin, ht.resume_eq, hcheck]
  by_cases h : cursor ≤ t.start ∧ t.finish ≤ stop
  · rw [if_pos h, decide_eq_true h, Bool.not_true, if_neg Bool.false_ne_true]
  · rw [if_neg h, decide_eq_false h, Bool.not_false, if_pos rfl]

mutual

/-- A rendered token is well placed. -/
theorem render_sound {t : SqlToken} {out : List Char} (ht : InText cs t)
    (h : render cs (byteLength cs) unit t = .ok out) :
    Placed cs t ∧ Renders unit t (slice cs t.start t.finish) out := by
  cases t with
  | composable span tokens =>
    rw [render] at h
    obtain ⟨_, hvalid, h⟩ := bind_eq_ok.1 h
    obtain ⟨hin, -, hchain⟩ := validate_eq_ok.1 hvalid
    have hstop : min (span.stop + 1) (byteLength cs) = span.stop + 1 := ht.resume_eq
    rw [hstop] at h
    obtain ⟨hall, hwithin, hsplices⟩ :=
      renderWithin_sound hin ht.starts ht.finishes h
    rw [Placed]
    exact ⟨⟨ht, hchain, hwithin, hall⟩, .composable hsplices⟩
  | _ =>
    rw [render] at h
    cases h
    rw [Placed]
    · exact ⟨ht, by constructor⟩
    · simp

/-- The text between two boundaries is rendered around tokens that are well placed there. -/
theorem renderWithin_sound {ts : List SqlToken} {cursor stop : Nat} {out : List Char}
    (hts : ∀ t ∈ ts, InText cs t) (hcursor : IsBoundary cs cursor) (hstop : IsBoundary cs stop)
    (h : renderWithin cs (byteLength cs) unit cursor stop ts = .ok out) :
    PlacedAll cs ts ∧ (∀ t ∈ ts, cursor ≤ t.start ∧ t.finish ≤ stop) ∧
      Splices unit cursor ts (slice cs cursor stop) out := by
  cases ts with
  | nil =>
    rw [renderWithin] at h
    cases h
    rw [PlacedAll]
    exact ⟨trivial, by simp, .nil⟩
  | cons t ts =>
    obtain ⟨ht, hts⟩ := List.forall_mem_cons.1 hts
    have hlt := ht.start_le_finish
    rw [renderWithin_cons ht] at h
    split at h
    · rename_i hpos
      obtain ⟨text, htext, h⟩ := bind_eq_ok.1 h
      obtain ⟨rest, hrest, h⟩ := bind_eq_ok.1 h
      cases h
      obtain ⟨hplaced, hrenders⟩ := render_sound ht htext
      obtain ⟨hall, hwithin, hsplices⟩ := renderWithin_sound hts ht.finishes hstop hrest
      rw [PlacedAll]
      refine ⟨⟨hplaced, hall⟩, List.forall_mem_cons.2 ⟨hpos, fun u hu => ?_⟩, ?_⟩
      · have := hwithin u hu
        omega
      · rw [← Text.slice_append_slice hcursor ht.starts hstop hpos.1 (by omega),
          ← Text.slice_append_slice ht.starts ht.finishes hstop hlt hpos.2, List.append_assoc]
        exact .cons (Text.byteLength_slice hcursor ht.starts hpos.1)
          (Text.byteLength_slice ht.starts ht.finishes hlt) hrenders hsplices
    · cases h

end

mutual

/-- A well placed token is rendered. -/
theorem render_complete {t : SqlToken} (h : Placed cs t) :
    ∃ out, render cs (byteLength cs) unit t = .ok out := by
  cases t with
  | composable span tokens =>
    have ht := h.inText
    rw [Placed] at h
    obtain ⟨-, hchain, hwithin, hall⟩ := h
    have hfirst : ∀ t ∈ tokens.head?, span.start ≤ t.start := fun t hm =>
      (hwithin t (List.mem_of_mem_head? hm)).1
    have hstop : min (span.stop + 1) (byteLength cs) = span.stop + 1 := ht.resume_eq
    obtain ⟨out, hout⟩ := renderWithin_complete hall hfirst hchain fun t hm => (hwithin t hm).2
    rw [render, validate_eq_ok.2 ⟨hall.inText, fun _ _ => Nat.zero_le _, hchain⟩, hstop]
    exact ⟨out, hout⟩
  | _ =>
    rw [render]
    exact ⟨_, rfl⟩

theorem renderWithin_complete {ts : List SqlToken} {cursor stop : Nat} (h : PlacedAll cs ts)
    (hfirst : ∀ t ∈ ts.head?, cursor ≤ t.start) (hchain : ts.IsChain Follows)
    (hstop : ∀ t ∈ ts, t.finish ≤ stop) :
    ∃ out, renderWithin cs (byteLength cs) unit cursor stop ts = .ok out := by
  cases ts with
  | nil =>
    rw [renderWithin]
    exact ⟨_, rfl⟩
  | cons t ts =>
    rw [PlacedAll] at h
    obtain ⟨hnext, hchain⟩ := List.isChain_cons.1 hchain
    obtain ⟨htstop, hstop⟩ := List.forall_mem_cons.1 hstop
    obtain ⟨text, htext⟩ := render_complete h.1
    obtain ⟨rest, hrest⟩ := renderWithin_complete h.2 hnext hchain hstop
    rw [renderWithin_cons h.1.inText, if_pos ⟨hfirst t rfl, htstop⟩]
    exact ⟨_, bind_eq_ok.2 ⟨text, htext, bind_eq_ok.2 ⟨rest, hrest, rfl⟩⟩⟩

end

theorem validate_error {previous : Nat} {ts : List SqlToken} {e : RenderError}
    (h : validate cs (byteLength cs) previous ts = .error e) : e.IsMisplaced := by
  induction ts generalizing previous with
  | nil => cases h
  | cons t ts ih =>
    rw [validate] at h
    split at h
    · cases h
      trivial
    · split at h
      · cases h
        trivial
      · exact ih h

mutual

theorem render_error {t : SqlToken} {e : RenderError}
    (h : render cs (byteLength cs) unit t = .error e) : e.IsMisplaced := by
  cases t with
  | composable span tokens =>
    rw [render] at h
    rcases bind_eq_error.1 h with h | ⟨_, -, h⟩
    · exact validate_error h
    · exact renderWithin_error h
  | _ =>
    rw [render] at h
    cases h

theorem renderWithin_error {ts : List SqlToken} {cursor stop : Nat} {e : RenderError}
    (h : renderWithin cs (byteLength cs) unit cursor stop ts = .error e) : e.IsMisplaced := by
  cases ts with
  | nil =>
    rw [renderWithin] at h
    cases h
  | cons t ts =>
    rw [renderWithin] at h
    split at h
    · cases h
      trivial
    · rcases bind_eq_error.1 h with h | ⟨_, -, h⟩
      · exact render_error h
      · rcases bind_eq_error.1 h with h | ⟨_, -, h⟩
        · exact renderWithin_error h
        · cases h

end

end Rendering

end SqlToken

end ShardedSql
