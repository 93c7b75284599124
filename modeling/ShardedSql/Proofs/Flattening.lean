import ShardedSql.Proofs.TokenLists
import Mathlib.Logic.Relation

/-! Composable tokens are transparent: the tokens nested in one can stand in its place. What they leave of
its span is then part of the gaps around them, and the statement is the same. -/

namespace ShardedSql.SqlToken

open Text (byteLength)

/-- A composable token of the list gives way to the tokens nested in it, in the order of their starts. -/
inductive Dissolves : List SqlToken → List SqlToken → Prop
  | at_place {before span nested after} : Dissolves (before ++ .composable span nested :: after)
      (before ++ (nested.mergeSort (fun t u => t.start ≤ u.start) ++ after))

def IsComposable : SqlToken → Prop
  | .composable _ _ => True
  | _ => False

section Splicing

variable {unit : Option RouteUnit} {offset mid : Nat} {text rest out outs : List Char}
  {ts us before after : List SqlToken} {span : Span}

/-- Text before the first token is one more gap. -/
theorem Splices.prepend {gap : List Char} (h : Splices unit mid ts text out)
    (hmid : offset + byteLength gap = mid) : Splices unit offset ts (gap ++ text) (gap ++ out) := by
  cases h with
  | nil => exact .nil
  | cons starts finishes token others =>
    rw [← List.append_assoc, ← List.append_assoc gap]
    refine .cons ?_ finishes token others
    rw [Text.byteLength_append]
    omega

/-- Where the text of the first tokens ends, that of the next ones begins. -/
theorem Splices.append (h : Splices unit offset ts text out) (h' : Splices unit mid us rest outs)
    (hmid : offset + byteLength text = mid) :
    Splices unit offset (ts ++ us) (text ++ rest) (out ++ outs) := by
  induction ts generalizing offset text out with
  | nil =>
    cases h
    exact h'.prepend hmid
  | cons t ts ih =>
    cases h with
    | cons starts finishes token others =>
      simp only [Text.byteLength_append] at hmid
      simp only [List.append_assoc]
      exact .cons starts finishes token (ih others (by omega))

/-- Tokens that splice all that others do can stand for them behind any tokens. -/
theorem Splices.replace (hreplace : ∀ offset text out, Splices unit offset ts text out →
    Splices unit offset us text out) (h : Splices unit offset (before ++ ts) text out) :
    Splices unit offset (before ++ us) text out := by
  induction before generalizing offset text out with
  | nil => exact hreplace _ _ _ h
  | cons t before ih =>
    cases h with
    | cons starts finishes token others => exact .cons starts finishes token (ih others)

theorem Splices.dissolve (h : Splices unit offset (.composable span ts :: after) text out) :
    Splices unit offset (ts ++ after) text out := by
  cases h with
  | cons starts finishes token others =>
    cases token with
    | composable inner => exact (inner.append others finishes).prepend starts

end Splicing

section Placing

variable {cs : List Char} {before nested after : List SqlToken} {span : Span}

/-- Nested tokens lie in the span, so they follow what comes before the token and precede what follows
it. -/
theorem WellPlaced.dissolve (h : WellPlaced cs (before ++ .composable span nested :: after)) :
    WellPlaced cs (before ++ (nested ++ after)) := by
  obtain ⟨hpair, hplaced⟩ := wellPlaced_iff.1 h
  obtain ⟨hbefore, hrest, hacross⟩ := List.pairwise_append.1 hpair
  obtain ⟨hnext, hafter⟩ := List.pairwise_cons.1 hrest
  simp only [List.mem_append, List.mem_cons] at hplaced
  obtain ⟨-, hwithin, hnested⟩ := placed_composable.1 (hplaced _ (.inr (.inl rfl)))
  obtain ⟨hinner, hdeeper⟩ := wellPlaced_iff.1 hnested
  refine wellPlaced_iff.2 ⟨List.pairwise_append.2 ⟨hbefore, List.pairwise_append.2 ⟨hinner, hafter, ?_⟩, ?_⟩, ?_⟩
  · intro n hn u hu
    have hu : span.stop + 1 ≤ u.start := hnext u hu
    exact (hwithin n hn).2.trans hu
  · intro t ht u hu
    rcases List.mem_append.1 hu with hu | hu
    · have ht : t.finish ≤ span.start := hacross t ht _ List.mem_cons_self
      exact ht.trans (hwithin u hu).1
    · exact hacross t ht u (List.mem_cons_of_mem _ hu)
  · intro t ht
    simp only [List.mem_append] at ht
    rcases ht with ht | ht | ht
    · exact hplaced t (.inl ht)
    · exact hdeeper t ht
    · exact hplaced t (.inr (.inr ht))

end Placing

/-- One composable token less: the list stays in order, and the statement is the same. -/
theorem Dissolves.keeps {sql out : String} {unit : Option RouteUnit} {tokens tokens' : List SqlToken}
    (h : Dissolves tokens tokens') (hsorted : tokens.Pairwise fun t u => t.start ≤ u.start)
    (hout : buildSql sql tokens unit = .ok out) :
    (tokens'.Pairwise fun t u => t.start ≤ u.start) ∧ buildSql sql tokens' unit = .ok out := by
  cases h with
  | @at_place before span nested after =>
    have hordered : orderedAll (before ++ .composable span nested :: after) =
        before.map ordered ++ .composable span (orderedAll nested) :: after.map ordered := by
      rw [orderedAll_of_pairwise hsorted, List.map_append, List.map_cons, ordered]
    obtain ⟨hplaced, hsplices⟩ := buildSql_eq_ok_iff.1 hout
    rw [hordered] at hplaced hsplices
    have hdissolved : before.map ordered ++ (orderedAll nested ++ after.map ordered) =
        (before ++ (nested.mergeSort (fun t u => t.start ≤ u.start) ++ after)).map ordered := by
      rw [orderedAll_eq_map, List.map_append, List.map_append]
    have hplaced' := hplaced.dissolve
    have hsplices' := hsplices.replace fun _ _ _ => Splices.dissolve
    rw [hdissolved] at hplaced' hsplices'
    have hsorted' : (before ++ (nested.mergeSort (fun t u => t.start ≤ u.start) ++ after)).Pairwise
        fun t u => t.start ≤ u.start := by
      simpa only [List.pairwise_map, start_ordered] using hplaced'.pairwise_start
    rw [← orderedAll_of_pairwise hsorted'] at hplaced' hsplices'
    exact ⟨hsorted', buildSql_eq_ok_iff.2 ⟨hplaced', hsplices'⟩⟩

section Counting

mutual

/-- How many composable tokens there are, at every level. -/
def composables : SqlToken → Nat
  | .composable _ tokens => composablesIn tokens + 1
  | _ => 0

def composablesIn : List SqlToken → Nat
  | [] => 0
  | t :: ts => composables t + composablesIn ts

end

theorem composablesIn_eq_sum (tokens : List SqlToken) :
    composablesIn tokens = (tokens.map composables).sum := by
  induction tokens with
  | nil => rfl
  | cons t ts ih => rw [composablesIn, ih, List.map_cons, List.sum_cons]

theorem Dissolves.composablesIn_lt {tokens tokens' : List SqlToken} (h : Dissolves tokens tokens') :
    composablesIn tokens' < composablesIn tokens := by
  cases h with
  | @at_place before span nested after =>
    have hsum : ((nested.mergeSort fun t u => t.start ≤ u.start).map composables).sum =
        composablesIn nested := by
      rw [composablesIn_eq_sum]
      exact ((List.mergeSort_perm _ _).map _).sum_eq
    simp only [composablesIn_eq_sum, List.map_append, List.map_cons, List.sum_append, List.sum_cons,
      composables] at hsum ⊢
    omega

/-- Taking a composable token for its nested tokens comes to an end, where none is left. -/
theorem exists_flat (tokens : List SqlToken) :
    ∃ flat, Relation.ReflTransGen Dissolves tokens flat ∧ ∀ t ∈ flat, ¬ t.IsComposable := by
  induction hcount : composablesIn tokens using Nat.strong_induction_on generalizing tokens with
  | _ count ih =>
    by_cases hflat : ∀ t ∈ tokens, ¬ t.IsComposable
    · exact ⟨tokens, .refl, hflat⟩
    · simp only [not_forall, not_not] at hflat
      obtain ⟨t, ht, hcomposable⟩ := hflat
      cases t with
      | composable span nested =>
        obtain ⟨before, after, rfl⟩ := List.append_of_mem ht
        have hstep : Dissolves (before ++ .composable span nested :: after) _ := .at_place
        obtain ⟨flat, hflat, hnone⟩ := ih _ (hcount ▸ hstep.composablesIn_lt) _ rfl
        exact ⟨flat, .head hstep hflat, hnone⟩
      | _ => exact hcomposable.elim

end Counting

/-- From tokens in order that give a statement, however often a composable token gives way to its nested
tokens, the tokens are in order and give the same statement; and it can be gone on with until no
composable token is left. -/
theorem composables_transparent {sql out : String} {unit : Option RouteUnit} {tokens tokens' : List SqlToken}
    (hsorted : tokens.Pairwise fun t u => t.start ≤ u.start)
    (hout : buildSql sql tokens unit = .ok out) (h : Relation.ReflTransGen Dissolves tokens tokens') :
    (tokens'.Pairwise fun t u => t.start ≤ u.start) ∧ buildSql sql tokens' unit = .ok out ∧
      ∃ flat, Relation.ReflTransGen Dissolves tokens' flat ∧ (∀ t ∈ flat, ¬ t.IsComposable) ∧
        buildSql sql flat unit = .ok out := by
  have hkeeps : ∀ tokens', Relation.ReflTransGen Dissolves tokens tokens' →
      (tokens'.Pairwise fun t u => t.start ≤ u.start) ∧ buildSql sql tokens' unit = .ok out := by
    intro tokens' h
    induction h with
    | refl => exact ⟨hsorted, hout⟩
    | tail _ hstep ih => exact hstep.keeps ih.1 ih.2
  obtain ⟨hsorted', hout'⟩ := hkeeps tokens' h
  obtain ⟨flat, hflat, hnone⟩ := exists_flat tokens'
  exact ⟨hsorted', hout', flat, hflat, hnone, (hkeeps flat (h.trans hflat)).2⟩

/-- Tokens for a table, a selected column and an alias, out of order. -/
def aliasTokens : List SqlToken :=
  [.table 14 20 "t_order", .composable ⟨7, 7⟩ [.insertion 8 " AS x"], .insertion 21 " o"]

/-- A token that ends where the statement does, where there is one more insertion. -/
def composedTokens : List SqlToken :=
  [.insertion 0 "/* 1 */ ", .composable ⟨7, 20⟩ aliasTokens, .insertion 21 ";"]

def dissolvedTokens : List SqlToken :=
  [.insertion 0 "/* 1 */ ", .composable ⟨7, 7⟩ [.insertion 8 " AS x"], .table 14 20 "t_order",
    .insertion 21 " o", .insertion 21 ";"]

theorem dissolves_composedTokens : Dissolves composedTokens dissolvedTokens := by
  have hsort : (aliasTokens.mergeSort fun t u => t.start ≤ u.start) =
      [.composable ⟨7, 7⟩ [.insertion 8 " AS x"], .table 14 20 "t_order", .insertion 21 " o"] := by
    simp [aliasTokens, List.mergeSort, SqlToken.start, SqlToken.table]
  have h : Dissolves ([.insertion 0 "/* 1 */ "] ++ .composable ⟨7, 20⟩ aliasTokens :: [.insertion 21 ";"]) _ :=
    .at_place
  rwa [hsort] at h

def firstOrders : RouteUnit := ⟨⟨"ds_0", "ds_0"⟩, [⟨"t_order", "t_order_1"⟩]⟩

theorem composables_transparent_nested :
    (composedTokens.Pairwise fun t u => t.start ≤ u.start) ∧
      buildSql "SELECT a FROM t_order" composedTokens (some firstOrders) =
        .ok "/* 1 */ SELECT a AS x FROM t_order_1 o;" ∧
      Relation.ReflTransGen Dissolves composedTokens dissolvedTokens ∧
      (dissolvedTokens.Pairwise fun t u => t.start ≤ u.start) ∧
      buildSql "SELECT a FROM t_order" dissolvedTokens (some firstOrders) =
        .ok "/* 1 */ SELECT a AS x FROM t_order_1 o;" ∧
      ∃ flat, Relation.ReflTransGen Dissolves dissolvedTokens flat ∧ (∀ t ∈ flat, ¬ t.IsComposable) ∧
        buildSql "SELECT a FROM t_order" flat (some firstOrders) =
          .ok "/* 1 */ SELECT a AS x FROM t_order_1 o;" := by
  have hsorted : composedTokens.Pairwise fun t u => t.start ≤ u.start := by
    simp [composedTokens, SqlToken.start]
  have hout : buildSql "SELECT a FROM t_order" composedTokens (some firstOrders) =
      .ok "/* 1 */ SELECT a AS x FROM t_order_1 o;" := rfl
  have hsteps : Relation.ReflTransGen Dissolves composedTokens dissolvedTokens :=
    .single dissolves_composedTokens
  exact ⟨hsorted, hout, hsteps, composables_transparent hsorted hout hsteps⟩

end ShardedSql.SqlToken
