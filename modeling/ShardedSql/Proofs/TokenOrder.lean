import ShardedSql.Proofs.TokenLists

/-! The order in which tokens are given. They are put in the order of their starts, and the given order
only decides between tokens that start together. Of those, an insertion and a token that covers text are
well placed one way round and overlap the other way round; so a statement may depend on the given order,
and does so just where two tokens of one list start together. -/

namespace ShardedSql

namespace SqlToken

mutual

/-- The token with its nested lists in any order. -/
inductive Shuffled : SqlToken → SqlToken → Prop
  | same {t} : Shuffled t t
  | composable {span ts us} (nested : ShuffledAll ts us) :
    Shuffled (.composable span ts) (.composable span us)

/-- The tokens in any order, at every level. -/
inductive ShuffledAll : List SqlToken → List SqlToken → Prop
  | nil : ShuffledAll [] []
  | cons {t u ts us us'} (token : Shuffled t u) (others : ShuffledAll ts us)
    (order : us'.Perm (u :: us)) : ShuffledAll (t :: ts) us'

end

/-- The second list is the first one or is nested in it. -/
inductive Level : List SqlToken → List SqlToken → Prop
  | self {ts} : Level ts ts
  | nested {ts span inner l} (mem : .composable span inner ∈ ts) (level : Level inner l) : Level ts l

def EveryLevel (P : List SqlToken → Prop) (tokens : List SqlToken) : Prop := ∀ l, Level tokens l → P l

/-- No two insertions stand at one offset. -/
def InsertionsApart (tokens : List SqlToken) : Prop :=
  tokens.Pairwise fun t u => t.span? = none → u.span? = none → t.start ≠ u.start

/-- No two tokens start together. -/
def StartsApart (tokens : List SqlToken) : Prop := tokens.Pairwise fun t u => t.start ≠ u.start

/-- Of two tokens that start together the first one is an insertion. -/
def InsertionsFirst (tokens : List SqlToken) : Prop :=
  tokens.Pairwise fun t u => t.start = u.start → t.span? = none

section Shuffling

variable {t u : SqlToken} {ts us l l' : List SqlToken}

theorem ShuffledAll.refl (ts : List SqlToken) : ShuffledAll ts ts := by
  induction ts with
  | nil => exact .nil
  | cons t ts ih => exact .cons .same ih (.refl _)

theorem ShuffledAll.of_perm (h : us.Perm ts) : ShuffledAll ts us := by
  cases ts with
  | nil =>
    rw [h.eq_nil]
    exact .nil
  | cons t ts => exact .cons .same (.refl ts) h

theorem ShuffledAll.perm_left (h : ts.Perm l) (hs : ShuffledAll ts us) : ShuffledAll l us := by
  induction h generalizing us with
  | nil => exact hs
  | cons t _ ih =>
    cases hs with
    | cons token others order => exact .cons token (ih others) order
  | swap t u l =>
    cases hs with
    | cons token others order =>
      cases others with
      | cons token' others order' =>
        exact .cons token' (.cons token others (.refl _))
          (order.trans ((order'.cons _).trans (.swap _ _ _)))
  | trans _ _ ih ih' => exact ih' (ih hs)

mutual

theorem Shuffled.symm {t u : SqlToken} (h : Shuffled t u) : Shuffled u t := by
  cases h with
  | same => exact .same
  | composable nested => exact .composable nested.symm

theorem ShuffledAll.symm {ts us : List SqlToken} (h : ShuffledAll ts us) : ShuffledAll us ts := by
  cases h with
  | nil => exact .nil
  | cons token others order =>
    exact .perm_left order.symm (.cons token.symm others.symm (.refl _))

end

theorem ShuffledAll.mem (h : ShuffledAll ts us) (hu : u ∈ us) : ∃ t ∈ ts, Shuffled t u := by
  induction ts generalizing us with
  | nil =>
    cases h
    exact absurd hu List.not_mem_nil
  | cons t ts ih =>
    cases h with
    | cons token others order =>
      rcases List.mem_cons.1 (order.mem_iff.1 hu) with rfl | hu
      · exact ⟨t, List.mem_cons_self, token⟩
      · obtain ⟨t', ht', htoken⟩ := ih others hu
        exact ⟨t', List.mem_cons_of_mem _ ht', htoken⟩

theorem ShuffledAll.replace (before after : List SqlToken) (h : Shuffled t u) :
    ShuffledAll (before ++ t :: after) (before ++ u :: after) := by
  induction before with
  | nil => exact .cons h (.refl after) (.refl _)
  | cons v before ih => exact .cons .same ih (.refl _)

/-- Every list of the shuffled tokens is a list of the tokens, shuffled. -/
theorem ShuffledAll.level (h : ShuffledAll ts us) (hl : Level us l') :
    ∃ l, Level ts l ∧ ShuffledAll l l' := by
  induction hl generalizing ts with
  | self => exact ⟨ts, .self, h⟩
  | nested mem _ ih =>
    obtain ⟨t, ht, htoken⟩ := h.mem mem
    cases htoken with
    | same =>
      obtain ⟨l, hl, hs⟩ := ih (.refl _)
      exact ⟨l, .nested ht hl, hs⟩
    | composable nested =>
      obtain ⟨l, hl, hs⟩ := ih nested
      exact ⟨l, .nested ht hl, hs⟩

/-- A list nested in the tokens can be shuffled without the rest. -/
theorem Level.exists_shuffled (hl : Level ts l) (h : ShuffledAll l l') :
    ∃ us, ShuffledAll ts us ∧ Level us l' := by
  induction hl with
  | self => exact ⟨l', h, .self⟩
  | nested mem _ ih =>
    obtain ⟨inner, hinner, hlevel⟩ := ih h
    obtain ⟨before, after, rfl⟩ := List.append_of_mem mem
    exact ⟨_, .replace before after (.composable hinner),
      .nested (List.mem_append_right _ List.mem_cons_self) hlevel⟩

theorem everyLevel_iff {P : List SqlToken → Prop} :
    EveryLevel P ts ↔ P ts ∧ ∀ span inner, .composable span inner ∈ ts → EveryLevel P inner := by
  refine ⟨fun h => ⟨h ts .self, fun _ _ hmem l hl => h l (.nested hmem hl)⟩, fun h l hl => ?_⟩
  cases hl with
  | self => exact h.1
  | nested mem level => exact h.2 _ _ mem l level

theorem EveryLevel.nested {P : List SqlToken → Prop} {span : Span} (h : EveryLevel P ts)
    (hmem : .composable span l ∈ ts) : EveryLevel P l := (everyLevel_iff.1 h).2 span l hmem

theorem Shuffled.start_eq (h : Shuffled t u) : u.start = t.start := by
  cases h <;> rfl

theorem ShuffledAll.starts_perm (h : ShuffledAll ts us) : (us.map start).Perm (ts.map start) := by
  induction ts generalizing us with
  | nil =>
    cases h
    exact .refl _
  | cons t ts ih =>
    cases h with
    | cons token others order =>
      rw [List.map_cons, ← token.start_eq]
      exact (order.map start).trans ((ih others).cons _)

theorem startsApart_iff : StartsApart ts ↔ (ts.map start).Nodup := List.pairwise_map.symm

theorem ShuffledAll.startsApart (h : ShuffledAll ts us) (hapart : EveryLevel StartsApart ts) :
    EveryLevel StartsApart us := by
  intro l' hl'
  obtain ⟨l, hl, hs⟩ := h.level hl'
  exact startsApart_iff.2 (hs.starts_perm.nodup_iff.2 (startsApart_iff.1 (hapart l hl)))

theorem StartsApart.insertionsFirst (h : StartsApart ts) : InsertionsFirst ts :=
  h.imp fun hne heq => absurd heq hne

theorem StartsApart.insertionsApart (h : StartsApart ts) : InsertionsApart ts :=
  h.imp fun hne _ _ => hne

/-- Where an insertion comes first in whatever order, there is nothing for it to come before. -/
theorem startsApart_of_shuffles (hapart : InsertionsApart l)
    (hfirst : ∀ l', ShuffledAll l l' → InsertionsFirst l') : StartsApart l := by
  refine List.pairwise_iff_forall_sublist.2 fun {t u} hsub heq => ?_
  obtain ⟨rest, hrest⟩ := hsub.exists_perm_append
  have ht : t.span? = none := List.rel_of_pairwise_cons (hfirst _ (.of_perm hrest.symm))
    List.mem_cons_self heq
  have hswap : (u :: t :: rest).Perm l := (List.Perm.swap _ _ _).trans hrest.symm
  have hu : u.span? = none := List.rel_of_pairwise_cons (hfirst _ (.of_perm hswap))
    List.mem_cons_self heq.symm
  exact List.pairwise_iff_forall_sublist.1 hapart hsub ht hu heq

end Shuffling

section Ordering

variable {cs : List Char} {t : SqlToken} {ts us l : List SqlToken}

/-- The first one starts earlier, or it is an insertion before a token that covers text. -/
def Before (t u : SqlToken) : Prop :=
  t.start < u.start ∨ t.start = u.start ∧ t.span? = none ∧ u.span? ≠ none

theorem mem_insertByStart {u : SqlToken} : u ∈ insertByStart t l ↔ u = t ∨ u ∈ l := by
  induction l with
  | nil => simp [insertByStart]
  | cons v l ih =>
    rw [insertByStart]
    split
    · exact List.mem_cons
    · rw [List.mem_cons, ih, List.mem_cons]
      tauto

theorem pairwise_insertByStart (h : l.Pairwise Before)
    (ht : ∀ u ∈ l, t.start = u.start → t.span? = none ∧ u.span? ≠ none) :
    (insertByStart t l).Pairwise Before := by
  induction l with
  | nil => exact List.pairwise_singleton _ _
  | cons u l ih =>
    obtain ⟨hu, hl⟩ := List.pairwise_cons.1 h
    rw [insertByStart]
    split
    · rename_i hle
      refine List.pairwise_cons.2 ⟨fun v hv => ?_, h⟩
      have hlev : t.start ≤ v.start := by
        rcases List.mem_cons.1 hv with rfl | hv
        · exact hle
        · rcases hu v hv with hlt | ⟨heq, -⟩ <;> omega
      rcases hlev.lt_or_eq with hlt | heq
      · exact .inl hlt
      · exact .inr ⟨heq, ht v hv heq⟩
    · rename_i hlt
      refine List.pairwise_cons.2 ⟨fun v hv => ?_, ih hl fun v hv => ht v (List.mem_cons_of_mem _ hv)⟩
      rcases mem_insertByStart.1 hv with rfl | hv
      · exact .inl (by omega)
      · exact hu v hv

/-- Sorting by the starts leaves tokens that start together as they are given. -/
theorem pairwise_orderedAll
    (h : ts.Pairwise fun t u => t.start = u.start → t.span? = none ∧ u.span? ≠ none) :
    (orderedAll ts).Pairwise Before := by
  induction ts with
  | nil =>
    rw [orderedAll]
    exact .nil
  | cons t ts ih =>
    obtain ⟨ht, hts⟩ := List.pairwise_cons.1 h
    rw [orderedAll]
    refine pairwise_insertByStart (ih hts) fun u hu => ?_
    obtain ⟨v, hv, rfl⟩ := List.mem_map.1 ((orderedAll_perm ts).mem_iff.1 hu)
    rw [start_ordered, start_ordered, span?_ordered, span?_ordered]
    exact ht v hv

theorem InText.start_lt_finish (h : InText cs t) (hspan : t.span? ≠ none) : t.start < t.finish := by
  cases t with
  | insertion start text => exact absurd rfl hspan
  | _ => exact Nat.lt_succ_of_le (h.forward _ rfl)

/-- Well placed tokens start one behind the other, but for an insertion where another token begins. -/
theorem WellPlaced.pairwise_before (h : WellPlaced cs ts) (hapart : InsertionsApart ts) :
    ts.Pairwise Before := by
  obtain ⟨hpair, hplaced⟩ := wellPlaced_iff.1 h
  refine (hpair.and hapart).imp_of_mem fun {t u} ht _ ⟨hfollows, hne⟩ => ?_
  have hin := (hplaced t ht).inText
  have hfollows : t.finish ≤ u.start := hfollows
  rcases (hin.start_le_finish.trans hfollows).lt_or_eq with hlt | heq
  · exact .inl hlt
  · have hinsertion : t.span? = none := by
      by_contra hspan
      have hlt := hin.start_lt_finish hspan
      omega
    exact .inr ⟨heq, hinsertion, fun hu => hne hinsertion hu heq⟩

theorem WellPlaced.of_mem (h : WellPlaced cs (orderedAll ts)) (ht : t ∈ ts) : Placed cs t.ordered :=
  (wellPlaced_iff.1 h).2 _ ((orderedAll_perm ts).mem_iff.2 (List.mem_map_of_mem ht))

theorem insertionsApart_orderedAll (h : InsertionsApart ts) : InsertionsApart (orderedAll ts) := by
  have hmap : InsertionsApart (ts.map ordered) := by
    simpa only [InsertionsApart, List.pairwise_map, span?_ordered, start_ordered] using h
  exact ((orderedAll_perm ts).pairwise_iff fun hne hu ht heq => hne ht hu heq.symm).2 hmap

/-- Tokens that are well placed and others with the same ones, each insertion first, come to the same
order. -/
theorem orderedAll_eq_of_perm (hplaced : WellPlaced cs (orderedAll ts)) (hapart : InsertionsApart ts)
    (hfirst : InsertionsFirst us) (hperm : (us.map ordered).Perm (ts.map ordered)) :
    orderedAll us = orderedAll ts := by
  have hts := hplaced.pairwise_before (insertionsApart_orderedAll hapart)
  -- in either order, just one of two tokens that start together is an insertion
  have htied : us.Pairwise fun t u => t.start = u.start → (t.span? = none ↔ u.span? ≠ none) := by
    have hmap := (hperm.trans (orderedAll_perm ts).symm).pairwise_iff
      (R := fun t u => t.start = u.start → (t.span? = none ↔ u.span? ≠ none))
      (fun h heq => by have := h heq.symm; tauto)
    have hordered := hmap.2 (hts.imp fun {t u} h heq => by
      rcases h with hlt | ⟨-, ht, hu⟩
      · omega
      · exact iff_of_true ht hu)
    simpa only [List.pairwise_map, start_ordered, span?_ordered] using hordered
  have hus : (orderedAll us).Pairwise Before :=
    pairwise_orderedAll ((hfirst.and htied).imp fun h heq => ⟨h.1 heq, (h.2 heq).1 (h.1 heq)⟩)
  refine List.Perm.eq_of_pairwise (fun t u _ _ h h' => ?_) hus hts
    ((orderedAll_perm us).trans (hperm.trans (orderedAll_perm ts).symm))
  rcases h with hlt | ⟨heq, ht, hu⟩
  · rcases h' with hlt' | ⟨heq', -⟩ <;> omega
  · rcases h' with hlt' | ⟨-, hu', -⟩
    · omega
    · exact absurd hu' hu

mutual

theorem Shuffled.ordered_eq {t u : SqlToken} (h : Shuffled t u) (hplaced : Placed cs t.ordered)
    (hapart : ∀ span l, t = .composable span l → EveryLevel InsertionsApart l)
    (hfirst : ∀ span l, u = .composable span l → EveryLevel InsertionsFirst l) :
    u.ordered = t.ordered := by
  cases h with
  | same => rfl
  | @composable span ts us nested =>
    rw [ordered] at hplaced
    obtain ⟨-, -, hwell⟩ := placed_composable.1 hplaced
    have hts := hapart span ts rfl
    have hus := hfirst span us rfl
    have hperm := nested.map_perm (fun _ ht => hwell.of_mem ht) (fun _ _ hmem => hts.nested hmem)
      fun _ _ hmem => hus.nested hmem
    rw [ordered, ordered, orderedAll_eq_of_perm hwell (hts _ .self) (hus _ .self) hperm]

theorem ShuffledAll.map_perm {ts us : List SqlToken} (h : ShuffledAll ts us)
    (hplaced : ∀ t ∈ ts, Placed cs t.ordered)
    (hapart : ∀ span l, .composable span l ∈ ts → EveryLevel InsertionsApart l)
    (hfirst : ∀ span l, .composable span l ∈ us → EveryLevel InsertionsFirst l) :
    (us.map ordered).Perm (ts.map ordered) := by
  cases h with
  | nil => exact .refl _
  | cons token others order =>
    obtain ⟨ht, hts⟩ := List.forall_mem_cons.1 hplaced
    have hu := token.ordered_eq ht (fun span l heq => hapart span l (heq ▸ List.mem_cons_self))
      fun span l heq => hfirst span l (heq ▸ order.mem_iff.2 List.mem_cons_self)
    have hus := others.map_perm hts (fun span l hmem => hapart span l (List.mem_cons_of_mem _ hmem))
      fun span l hmem => hfirst span l (order.mem_iff.2 (List.mem_cons_of_mem _ hmem))
    rw [List.map_cons, ← hu]
    exact (order.map ordered).trans (hus.cons _)

end

/-- Well placed tokens come to the same order from any other in which insertions come first. -/
theorem ShuffledAll.orderedAll_eq (h : ShuffledAll ts us) (hplaced : WellPlaced cs (orderedAll ts))
    (hapart : EveryLevel InsertionsApart ts) (hfirst : EveryLevel InsertionsFirst us) :
    orderedAll us = orderedAll ts := by
  have hperm := h.map_perm (fun _ ht => hplaced.of_mem ht) (fun _ _ hmem => hapart.nested hmem)
    fun _ _ hmem => hfirst.nested hmem
  exact orderedAll_eq_of_perm hplaced (hapart _ .self) (hfirst _ .self) hperm

theorem Level.wellPlaced (hl : Level ts l) (h : WellPlaced cs (orderedAll ts)) :
    WellPlaced cs (orderedAll l) := by
  induction hl with
  | self => exact h
  | nested mem _ ih =>
    have hplaced := h.of_mem mem
    rw [ordered] at hplaced
    exact ih (placed_composable.1 hplaced).2.2

/-- Where tokens are well placed in their order, the given one has insertions first. -/
theorem insertionsFirst_of_wellPlaced (h : WellPlaced cs (orderedAll ts)) : InsertionsFirst ts := by
  obtain ⟨hpair, hplaced⟩ := wellPlaced_iff.1 h
  refine List.pairwise_iff_forall_sublist.2 fun {t u} hsub heq => ?_
  have hordered : [t.ordered, u.ordered].Sublist (orderedAll ts) := by
    rw [orderedAll_eq_mergeSort]
    refine List.sublist_mergeSort ?_ ?_ ?_ (hsub.map ordered)
    · simp only [decide_eq_true_eq]
      exact fun _ _ _ => Nat.le_trans
    · simp only [Bool.or_eq_true, decide_eq_true_eq]
      exact fun _ _ => Nat.le_total _ _
    · simpa using heq.le
  have hfollows : t.ordered.finish ≤ u.ordered.start :=
    List.pairwise_iff_forall_sublist.1 hpair hordered
  have hin := (hplaced _ (hordered.subset List.mem_cons_self)).inText
  rw [← span?_ordered]
  by_contra hspan
  have hlt := hin.start_lt_finish hspan
  rw [start_ordered] at hlt hfollows
  omega

end Ordering

end SqlToken

open SqlToken

/-- The same statement, or none both times. -/
def SameOutcome (r r' : Except RenderError String) : Prop :=
  (∃ out, r = .ok out ∧ r' = .ok out) ∨ ∃ e e', r = .error e ∧ r' = .error e'

section Building

variable {sql out : String} {unit : Option RouteUnit} {tokens tokens' : List SqlToken}

theorem buildSql_congr (h : orderedAll tokens' = orderedAll tokens) :
    buildSql sql tokens' unit = buildSql sql tokens unit := by
  unfold buildSql
  rw [h]

/-- Tokens are only accepted with insertions first, at every level. -/
theorem insertionsFirst_of_buildSql (h : buildSql sql tokens unit = .ok out) :
    EveryLevel InsertionsFirst tokens :=
  fun _ hl => insertionsFirst_of_wellPlaced (hl.wellPlaced (buildSql_sound h).1)

theorem buildSql_shuffled (h : ShuffledAll tokens tokens') (hapart : EveryLevel InsertionsApart tokens)
    (hout : buildSql sql tokens unit = .ok out) (hfirst : EveryLevel InsertionsFirst tokens') :
    buildSql sql tokens' unit = .ok out := by
  rw [← hout]
  exact buildSql_congr (h.orderedAll_eq (buildSql_sound hout).1 hapart hfirst)

theorem buildSql_refused (hfirst : ¬ EveryLevel InsertionsFirst tokens) :
    ∃ e, buildSql sql tokens unit = .error e := by
  cases hresult : buildSql sql tokens unit with
  | error e => exact ⟨e, rfl⟩
  | ok out => exact absurd (insertionsFirst_of_buildSql hresult) hfirst

/-- Tokens that start apart give one outcome in every order. -/
theorem sameOutcome_of_startsApart (h : ShuffledAll tokens tokens')
    (hapart : EveryLevel StartsApart tokens) :
    SameOutcome (buildSql sql tokens unit) (buildSql sql tokens' unit) := by
  have hapart' := h.startsApart hapart
  have hsame : ∀ {ts us out}, ShuffledAll ts us → EveryLevel StartsApart ts →
      EveryLevel StartsApart us → buildSql sql ts unit = .ok out → buildSql sql us unit = .ok out :=
    fun h hts hus hout => buildSql_shuffled h (fun l hl => (hts l hl).insertionsApart) hout
      fun l hl => (hus l hl).insertionsFirst
  cases hresult : buildSql sql tokens unit with
  | ok out => exact .inl ⟨out, rfl, hsame h hapart hapart' hresult⟩
  | error e =>
    cases hresult' : buildSql sql tokens' unit with
    | error e' => exact .inr ⟨e, e', rfl, rfl⟩
    | ok out =>
      rw [hsame h.symm hapart' hapart hresult'] at hresult
      cases hresult

end Building

/-- Tokens among which no two insertions of one list stand at one offset give the same outcome in every
order just when no two tokens of one list start together, or when they give no statement in any order.
From tokens that give a statement, another order gives the same one if at every level an insertion comes
before the token that starts with it, and none otherwise. -/
theorem token_order_matters_iff (sql : String) (unit : Option RouteUnit) {tokens : List SqlToken}
    (hapart : EveryLevel InsertionsApart tokens) :
    ((∀ tokens', ShuffledAll tokens tokens' →
        SameOutcome (buildSql sql tokens unit) (buildSql sql tokens' unit)) ↔
      EveryLevel StartsApart tokens ∨
        ∀ tokens', ShuffledAll tokens tokens' → ∃ e, buildSql sql tokens' unit = .error e) ∧
    ∀ tokens' out, ShuffledAll tokens tokens' → buildSql sql tokens unit = .ok out →
      (EveryLevel InsertionsFirst tokens' → buildSql sql tokens' unit = .ok out) ∧
      (¬ EveryLevel InsertionsFirst tokens' → ∃ e, buildSql sql tokens' unit = .error e) := by
  refine ⟨⟨fun hall => ?_, ?_⟩, fun tokens' out h hout =>
    ⟨buildSql_shuffled h hapart hout, buildSql_refused⟩⟩
  · cases hresult : buildSql sql tokens unit with
    | error e =>
      refine .inr fun tokens' h => ?_
      rcases hall tokens' h with ⟨out, hout, -⟩ | ⟨_, e', -, he'⟩
      · rw [hresult] at hout
        cases hout
      · exact ⟨e', he'⟩
    | ok out =>
      refine .inl fun l hl => startsApart_of_shuffles (hapart l hl) fun l' hl' => ?_
      obtain ⟨tokens', hs, hlevel⟩ := hl.exists_shuffled hl'
      rcases hall tokens' hs with ⟨out', -, hout'⟩ | ⟨e, _, he, -⟩
      · exact insertionsFirst_of_buildSql hout' l' hlevel
      · rw [hresult] at he
        cases he
  · rintro (hstarts | hnone) tokens' h
    · exact sameOutcome_of_startsApart h hstarts
    · obtain ⟨e, he⟩ := hnone tokens (.refl tokens)
      obtain ⟨e', he'⟩ := hnone tokens' h
      exact .inr ⟨e, e', he, he'⟩

/-- An insertion where the name of the table begins. -/
def shopMark : SqlToken := .insertion 14 "shop."

def orderName : SqlToken := .table 14 20 "t_order"

/-- Nested tokens in a part of the statement, and an insertion at its front. -/
def markedTable (nested : List SqlToken) : List SqlToken :=
  [.composable ⟨9, 20⟩ nested, .insertion 0 "/* 1 */ "]

theorem everyLevel_markedTable {P : List SqlToken → Prop} {nested tokens : List SqlToken}
    (hperm : tokens.Perm (markedTable nested)) (h : P tokens) (hnested : P nested)
    (hflat : ∀ span inner, .composable span inner ∉ nested) : EveryLevel P tokens := by
  refine everyLevel_iff.2 ⟨h, fun span inner hmem => ?_⟩
  have hinner : inner = nested := by
    have hmem := hperm.mem_iff.1 hmem
    simp only [markedTable, List.mem_cons, composable.injEq, reduceCtorEq, List.not_mem_nil, or_false] at hmem
    exact hmem.2
  rw [hinner]
  exact everyLevel_iff.2 ⟨hnested, fun span inner hmem => absurd hmem (hflat span inner)⟩

theorem token_order_matters_iff_nested :
    let marked := markedTable [shopMark, orderName]
    let swapped := markedTable [orderName, shopMark]
    EveryLevel InsertionsApart marked ∧ ShuffledAll marked marked.reverse ∧ ShuffledAll marked swapped ∧
      buildSql "SELECT * FROM t_order" marked none = .ok "/* 1 */ SELECT * FROM shop.t_order" ∧
      buildSql "SELECT * FROM t_order" marked.reverse none = .ok "/* 1 */ SELECT * FROM shop.t_order" ∧
      ∃ e, buildSql "SELECT * FROM t_order" swapped none = .error e := by
  intro marked swapped
  have hapart : EveryLevel InsertionsApart marked := by
    refine everyLevel_markedTable (.refl _) ?_ ?_ ?_ <;>
      simp [marked, markedTable, InsertionsApart, shopMark, orderName, SqlToken.table, span?]
  have hfirst : EveryLevel InsertionsFirst marked.reverse := by
    refine everyLevel_markedTable marked.reverse_perm ?_ ?_ ?_ <;>
      simp [marked, markedTable, InsertionsFirst, shopMark, orderName, SqlToken.table, span?, start]
  have hnot : ¬ EveryLevel InsertionsFirst swapped := by
    intro h
    have hnested := h _ (.nested List.mem_cons_self .self)
    simp [InsertionsFirst, shopMark, orderName, SqlToken.table, span?, start] at hnested
  have hout : buildSql "SELECT * FROM t_order" marked none =
      .ok "/* 1 */ SELECT * FROM shop.t_order" := rfl
  have hreverse : ShuffledAll marked marked.reverse := .of_perm marked.reverse_perm
  have hswap : ShuffledAll marked swapped :=
    .replace [] [.insertion 0 "/* 1 */ "] (.composable (.of_perm (.swap _ _ _)))
  obtain ⟨-, horder⟩ := token_order_matters_iff "SELECT * FROM t_order" none hapart
  exact ⟨hapart, hreverse, hswap, hout, (horder _ _ hreverse hout).1 hfirst,
    (horder _ _ hswap hout).2 hnot⟩

/-- An insertion that is given behind the table whose name begins there is refused. -/
theorem insertion_behind_table_refused :
    EveryLevel InsertionsApart [shopMark, orderName] ∧
      ShuffledAll [shopMark, orderName] [orderName, shopMark] ∧
      buildSql "SELECT * FROM t_order" [shopMark, orderName] none = .ok "SELECT * FROM shop.t_order" ∧
      buildSql "SELECT * FROM t_order" [orderName, shopMark] none = .error (.overlappingTokens 14) ∧
      ¬ SameOutcome (buildSql "SELECT * FROM t_order" [shopMark, orderName] none)
        (buildSql "SELECT * FROM t_order" [orderName, shopMark] none) := by
  have hapart : EveryLevel InsertionsApart [shopMark, orderName] := by
    refine everyLevel_iff.2 ⟨?_, fun span inner hmem => ?_⟩
    · simp [shopMark, orderName, InsertionsApart, SqlToken.table, span?]
    · simp [shopMark, orderName, SqlToken.table] at hmem
  have hshuffled : ShuffledAll [shopMark, orderName] [orderName, shopMark] :=
    .of_perm (.swap shopMark orderName [])
  have hout : buildSql "SELECT * FROM t_order" [shopMark, orderName] none =
      .ok "SELECT * FROM shop.t_order" := rfl
  have herror : buildSql "SELECT * FROM t_order" [orderName, shopMark] none =
      .error (.overlappingTokens 14) := rfl
  refine ⟨hapart, hshuffled, hout, herror, ?_⟩
  rw [hout, herror]
  rintro (⟨_, -, h⟩ | ⟨_, _, h, -⟩) <;> cases h

end ShardedSql
