import ShardedSql.Proofs.Checked

/-! How the tokens of a list stand to each other. Tokens that are well placed follow one another in pairs,
not only each the one before it; a list that is already in the order of the starts is left as it is; and
what tokens stand for in a text is one text. -/

namespace ShardedSql

open Text (IsBoundary byteLength)

namespace Text

/-- Equally long heads of a text are the same. -/
theorem eq_of_byteLength_eq {l r l' r' : List Char} (h : l ++ r = l' ++ r')
    (hlength : byteLength l = byteLength l') : l = l' ∧ r = r' := by
  obtain ⟨m, rfl, rfl⟩ := prefix_of_cuts h hlength.le
  have hm : byteLength m = 0 := by
    rw [byteLength_append] at hlength
    omega
  cases m with
  | nil => exact ⟨(List.append_nil l).symm, rfl⟩
  | cons c m =>
    have hc := c.utf8Size_pos
    rw [byteLength_cons] at hm
    omega

end Text

namespace SqlToken

@[simp] theorem span?_ordered (t : SqlToken) : t.ordered.span? = t.span? := by
  cases t <;> simp [ordered, span?]

@[simp] theorem start_ordered (t : SqlToken) : t.ordered.start = t.start := by
  cases t <;> simp [ordered, start]

theorem orderedAll_perm (tokens : List SqlToken) : (orderedAll tokens).Perm (tokens.map ordered) := by
  rw [orderedAll_eq_mergeSort]
  exact List.mergeSort_perm _ _

/-- Of a list that is in order only the nested lists are put in order. -/
theorem orderedAll_of_pairwise {tokens : List SqlToken}
    (h : tokens.Pairwise fun t u => t.start ≤ u.start) : orderedAll tokens = tokens.map ordered := by
  rw [orderedAll_eq_mergeSort, List.mergeSort_of_pairwise]
  simpa [List.pairwise_map] using h

/-- Putting the nested lists in order and putting the list in order exchange. -/
theorem orderedAll_eq_map (tokens : List SqlToken) :
    orderedAll tokens = (tokens.mergeSort fun t u => t.start ≤ u.start).map ordered := by
  rw [orderedAll_eq_mergeSort, List.map_mergeSort]
  simp

section Placement

variable {cs : List Char} {tokens : List SqlToken}

theorem placedAll_iff : PlacedAll cs tokens ↔ ∀ t ∈ tokens, Placed cs t := by
  induction tokens with
  | nil => simp [PlacedAll]
  | cons t ts ih => rw [PlacedAll, List.forall_mem_cons, ih]

theorem placed_composable {span : Span} : Placed cs (.composable span tokens) ↔
    InText cs (.composable span tokens) ∧ (∀ t ∈ tokens, Within span t) ∧ WellPlaced cs tokens := by
  rw [Placed, WellPlaced]
  tauto

/-- A token that lies in the text does not end before it starts, so what follows it follows all before
it. -/
theorem isChain_follows_iff (h : ∀ t ∈ tokens, InText cs t) :
    tokens.IsChain Follows ↔ tokens.Pairwise Follows := by
  refine ⟨fun hchain => ?_, List.Pairwise.isChain⟩
  induction tokens with
  | nil => exact .nil
  | cons t ts ih =>
    obtain ⟨-, hts⟩ := List.forall_mem_cons.1 h
    obtain ⟨hnext, hchain⟩ := List.isChain_cons.1 hchain
    have hpair := ih hts hchain
    refine List.pairwise_cons.2 ⟨fun u hu => ?_, hpair⟩
    cases ts with
    | nil => exact absurd hu List.not_mem_nil
    | cons v vs =>
      have hv : t.finish ≤ v.start := hnext v rfl
      rcases List.mem_cons.1 hu with rfl | hu
      · exact hv
      · have hvu : v.finish ≤ u.start := (List.pairwise_cons.1 hpair).1 u hu
        have hle := (hts v List.mem_cons_self).start_le_finish
        exact hv.trans (hle.trans hvu)

theorem wellPlaced_iff :
    WellPlaced cs tokens ↔ tokens.Pairwise Follows ∧ ∀ t ∈ tokens, Placed cs t := by
  rw [WellPlaced, placedAll_iff]
  exact and_congr_left fun h => isChain_follows_iff fun t ht => (h t ht).inText

/-- Well placed tokens are in order. -/
theorem WellPlaced.pairwise_start (h : WellPlaced cs tokens) :
    tokens.Pairwise fun t u => t.start ≤ u.start := by
  obtain ⟨hpair, hplaced⟩ := wellPlaced_iff.1 h
  refine hpair.imp_of_mem fun {t u} ht _ hfollows => ?_
  exact (hplaced t ht).inText.start_le_finish.trans hfollows

end Placement

section Unique

variable {unit : Option RouteUnit}

mutual

theorem Renders.unique {t : SqlToken} {covered out out' : List Char}
    (h : Renders unit t covered out) (h' : Renders unit t covered out') : out = out' := by
  cases t with
  | composable span tokens =>
    cases h with
    | composable h =>
      cases h' with
      | composable h' => exact h.unique h' rfl
  | _ =>
    cases h
    cases h'
    rfl

/-- The offsets of the tokens cut the text in one way only. -/
theorem Splices.unique {offset : Nat} {ts : List SqlToken} {text text' out out' : List Char}
    (h : Splices unit offset ts text out) (h' : Splices unit offset ts text' out')
    (htext : text = text') : out = out' := by
  cases ts with
  | nil =>
    cases h
    cases h'
    exact htext
  | cons t ts =>
    cases h with
    | cons starts finishes token others =>
      cases h' with
      | cons starts' finishes' token' others' =>
        obtain ⟨rfl, hbehind⟩ := Text.eq_of_byteLength_eq htext (by omega)
        obtain ⟨rfl, rfl⟩ := Text.eq_of_byteLength_eq hbehind (by omega)
        rw [token.unique token', others.unique others' rfl]

end

end Unique

end SqlToken

section Building

variable {sql out : String} {tokens : List SqlToken} {unit : Option RouteUnit}

theorem buildSql_sound (h : buildSql sql tokens unit = .ok out) :
    SqlToken.WellPlaced sql.toList (SqlToken.orderedAll tokens) ∧
      SqlToken.Splices unit 0 (SqlToken.orderedAll tokens) sql.toList out.toList := by
  obtain ⟨hvalid, hout⟩ := buildSql_eq_ok.1 h
  obtain ⟨hin, -, hchain⟩ := SqlToken.validate_eq_ok.1 hvalid
  obtain ⟨hall, -, hsplices⟩ :=
    SqlToken.renderWithin_sound hin (Text.isBoundary_zero _) (Text.isBoundary_length _) hout
  rw [Text.slice_all] at hsplices
  exact ⟨⟨hchain, hall⟩, hsplices⟩

theorem buildSql_complete (unit : Option RouteUnit)
    (h : SqlToken.WellPlaced sql.toList (SqlToken.orderedAll tokens)) :
    ∃ out, buildSql sql tokens unit = .ok out := by
  obtain ⟨hchain, hall⟩ := h
  obtain ⟨out, hout⟩ := SqlToken.renderWithin_complete hall (fun _ _ => Nat.zero_le _) hchain
    fun t ht => (hall.inText t ht).finish_le
  refine ⟨String.ofList out, buildSql_eq_ok.2 ⟨?_, ?_⟩⟩
  · exact SqlToken.validate_eq_ok.2 ⟨hall.inText, fun _ _ => Nat.zero_le _, hchain⟩
  · rw [hout, String.toList_ofList]

/-- The statement is the one that the tokens in their order splice. -/
theorem buildSql_eq_ok_iff : buildSql sql tokens unit = .ok out ↔
    SqlToken.WellPlaced sql.toList (SqlToken.orderedAll tokens) ∧
      SqlToken.Splices unit 0 (SqlToken.orderedAll tokens) sql.toList out.toList := by
  refine ⟨buildSql_sound, fun ⟨hplaced, hsplices⟩ => ?_⟩
  obtain ⟨out', hout⟩ := buildSql_complete unit hplaced
  rw [hout, String.toList_inj.1 ((buildSql_sound hout).2.unique hsplices rfl)]

end Building

end ShardedSql
