import ShardedSql.Proofs.Places
import ShardedSql.Proofs.RowTargets

/-! The combinations of several columns, by positions: one within the values of each column. Every choice of
positions gives one combination, in the lexicographic order of the positions, and a complex algorithm goes
through them up to the first one that has no target. -/

namespace ShardedSql

namespace ComplexInlineAlgorithm

/-- Every choice of a position within the values of each column, the first column varying slowest. -/
def positions : List (String × List Value) → List (List Nat)
  | [] => [[]]
  | e :: es => (List.range e.2.length).flatMap fun i => (positions es).map (i :: ·)

/-- What the columns hold at these positions. -/
def valuesAt (es : List (String × List Value)) (p : List Nat) : List (String × Value) :=
  List.zipWith (fun e i => (e.1, e.2.getD i .null)) es p

theorem positions_eq (es : List (String × List Value)) : positions es = places (es.map (·.2)) := by
  induction es with
  | nil => rfl
  | cons e es ih => rw [positions, List.map_cons, places, ih]

theorem mem_positions {es : List (String × List Value)} {p : List Nat} :
    p ∈ positions es ↔ List.Forall₂ (fun i e => i < e.2.length) p es := by
  rw [positions_eq, mem_places, List.forall₂_map_right_iff]

/-- The choices come in lexicographic order, so each comes once. -/
theorem pairwise_positions (es : List (String × List Value)) : (positions es).Pairwise (· < ·) := by
  rw [positions_eq]
  exact pairwise_places _

theorem length_positions (es : List (String × List Value)) :
    (positions es).length = (es.map fun e => e.2.length).prod := by
  rw [positions_eq, length_places, List.map_map]
  rfl

theorem combinations_eq (es : List (String × List Value)) :
    combinations es = (positions es).map (valuesAt es) := by
  induction es with
  | nil => rfl
  | cons e es ih =>
    obtain ⟨column, values⟩ := e
    have hvalues : values = (List.range values.length).map (values.getD · .null) := by
      apply List.ext_getElem
      · simp
      · intro i hi _
        simp [hi]
    rw [combinations, positions, List.map_flatMap]
    conv_lhs => rw [hvalues]
    rw [List.flatMap_map, ih]
    simp [valuesAt, Function.comp_def]

/-- A template that is given a combination finds under the name of a column what the column holds at the
position, and nothing under another name. -/
theorem bindings_valuesAt {columns : NameMap (List Value)} {p : List Nat}
    (hp : p ∈ positions columns.entries) :
    List.Forall₂ (fun i e => bindings (valuesAt columns.entries p) e.1 = e.2[i]?) p
        columns.entries ∧
      ∀ name ∉ columns.names, bindings (valuesAt columns.entries p) name = none := by
  have hmem : valuesAt columns.entries p ∈ combinations columns.entries := by
    rw [combinations_eq]
    exact List.mem_map_of_mem hp
  have hdiffer := names_of_mem_combinations hmem
  have hwithin := mem_positions.1 hp
  have hlength := hwithin.length_eq
  constructor
  · refine List.forall₂_iff_get.2 ⟨hlength, fun j hj hj' => ?_⟩
    have hi := (List.forall₂_iff_get.1 hwithin).2 j hj hj'
    simp only [List.get_eq_getElem] at hi ⊢
    have hentry : (columns.entries[j].1, columns.entries[j].2[p[j]]) ∈
        valuesAt columns.entries p := by
      refine List.mem_iff_getElem.2 ⟨j, by simp [valuesAt]; omega, ?_⟩
      simp [valuesAt, hi]
    rw [List.getElem?_eq_getElem hi]
    exact lookup_of_mem hdiffer hentry
  · intro name hname
    refine List.lookup_eq_none_iff.2 fun e he => bne_iff_ne.2 ?_
    rintro rfl
    obtain ⟨d, hd, hsame⟩ := exists_of_mem_left (mem_combinations.1 hmem) he
    exact hname (hsame.1 ▸ List.mem_map_of_mem hd)

/-- What results come to: their names, each where it first stands, or the failure of the first one that
fails. -/
inductive Collects :
    List (Except RouteError String) → Except RouteError (List String) → Prop where
  | found (names : List String) : Collects (names.map .ok) (.ok names.eraseDups)
  | failed (names : List String) (e : RouteError) (later : List (Except RouteError String)) :
    Collects (names.map .ok ++ .error e :: later) (.error e)

theorem mapM_ok_or_error {α : Type} (f : α → Except RouteError String) (l : List α) :
    (∃ names : List String, l.map f = names.map .ok ∧ l.mapM f = .ok names) ∨
      ∃ (names : List String) (e : RouteError) (later : List (Except RouteError String)),
        l.map f = names.map .ok ++ .error e :: later ∧ l.mapM f = .error e := by
  induction l with
  | nil => exact .inl ⟨[], rfl, rfl⟩
  | cons a l ih =>
    rw [List.map_cons, List.mapM_cons]
    cases ha : f a with
    | error e => exact .inr ⟨[], e, l.map f, rfl, rfl⟩
    | ok name =>
      rcases ih with ⟨names, hmap, hrun⟩ | ⟨names, e, later, hmap, hrun⟩
      · exact .inl ⟨name :: names, by rw [hmap]; rfl, by rw [hrun]; rfl⟩
      · exact .inr ⟨name :: names, e, later, by rw [hmap]; rfl, by rw [hrun]; rfl⟩

theorem collects_mapM {α : Type} (f : α → Except RouteError String) (l : List α) :
    Collects (l.map f) (l.mapM f >>= fun names => .ok (distinct names)) := by
  rcases mapM_ok_or_error f l with ⟨names, hmap, hrun⟩ | ⟨names, e, later, hmap, hrun⟩
  · have hdone : (l.mapM f >>= fun names => Except.ok (distinct names)) = .ok names.eraseDups := by
      rw [hrun, ← distinct_eq_eraseDups]
      rfl
    rw [hmap, hdone]
    exact .found names
  · rw [hmap, hrun]
    exact .failed names e later

theorem nullColumn?_eq_none {columns : NameMap (List Value)}
    (h : ∀ vs ∈ columns.values, Value.null ∉ vs) : nullColumn? columns = none := by
  rw [nullColumn?, Option.map_eq_none_iff, List.find?_eq_none]
  intro e he hnull
  obtain ⟨v, hv, hisNull⟩ := List.any_eq_true.1 hnull
  rw [Value.isNull_iff.1 hisNull] at hv
  exact h e.2 (List.mem_map_of_mem he) hv

theorem targets_eq {a : ComplexInlineAlgorithm} {columns : NameMap (List Value)}
    (hcount : a.columns = [] ∨ a.columns.length = columns.size)
    (hnull : ∀ vs ∈ columns.values, Value.null ∉ vs) (available : List String) :
    a.targets available ⟨columns, ∅⟩ = (flatten columns).mapM (fun c =>
      Inline.target a.template (",".intercalate columns.names) (bindings c)) >>= fun names =>
        .ok (distinct names) := by
  have hchecked : (!a.columns.isEmpty && a.columns.length != columns.size) = false := by
    rcases hcount with h | h <;> simp [h]
  rw [targets]
  simp only [hchecked, nullColumn?_eq_none hnull]
  rfl

end ComplexInlineAlgorithm

open ComplexInlineAlgorithm in
/-- The combinations of columns are one for each choice of positions, in their order, so as many as the
product of how many values each column has, and none without any column. Where there are no ranges, as many
columns as there should be and no nulls, the targets are what the template gives for each combination in
turn, without repetitions, or the first failure. -/
theorem combinations_once (columns : NameMap (List Value)) :
    (∃ places : List (List Nat), places.Pairwise (· < ·) ∧
      (∀ p, p ∈ places ↔ List.Forall₂ (fun i e => i < e.2.length) p columns.entries) ∧
      (∀ p ∈ places, List.Forall₂
        (fun i e => bindings (valuesAt columns.entries p) e.1 = e.2[i]?) p columns.entries ∧
        ∀ name ∉ columns.names, bindings (valuesAt columns.entries p) name = none) ∧
      flatten columns =
        if columns.isEmpty then [] else places.map (valuesAt columns.entries)) ∧
    (flatten columns).length =
      (if columns.isEmpty then 0 else (columns.values.map List.length).prod) ∧
    ∀ (a : ComplexInlineAlgorithm) (available : List String),
      (a.columns = [] ∨ a.columns.length = columns.size) →
      (∀ vs ∈ columns.values, Value.null ∉ vs) →
      Collects ((flatten columns).map fun c =>
          Inline.target a.template (",".intercalate columns.names) (bindings c))
        (a.targets available ⟨columns, ∅⟩) := by
  refine ⟨⟨positions columns.entries, pairwise_positions _, fun p => mem_positions,
    fun p hp => bindings_valuesAt hp, by rw [flatten, combinations_eq]⟩, ?_, ?_⟩
  · rw [flatten]
    split
    · rfl
    · rw [combinations_eq, List.length_map, length_positions, NameMap.values, List.map_map]
      rfl
  · intro a available hcount hnull
    rw [targets_eq hcount hnull]
    exact collects_mapM _ _

/-- Two columns decide together which of two tables a row is in. -/
def pairedColumns : NameMap (List Value) :=
  .ofList [("shop_id", [.int 1, .int 2]), ("item_id", [.int 3, .int 4, .int 5])]

def pairedParity : ComplexInlineAlgorithm where
  template := ⟨"t_$\x7b(item_id + shop_id) % 2\x7d",
    [.text "t_", .placeholder (.binary .rem (.binary .add (.var "item_id") (.var "shop_id"))
      (.literal (.int 2)))]⟩
  columns := ["shop_id", "item_id"]
  allowRanges := false

open ComplexInlineAlgorithm in
/-- Six combinations, which name two tables. -/
theorem combinations_once_paired :
    (pairedParity.columns = [] ∨ pairedParity.columns.length = pairedColumns.size) ∧
      (∀ vs ∈ pairedColumns.values, Value.null ∉ vs) ∧ (flatten pairedColumns).length = 6 ∧
      Collects ((flatten pairedColumns).map fun c =>
          Inline.target pairedParity.template "item_id,shop_id" (bindings c))
        (.ok ["t_0", "t_1"]) := by
  have hcount : pairedParity.columns = [] ∨ pairedParity.columns.length = pairedColumns.size :=
    .inr (by decide +kernel)
  have hnull : ∀ vs ∈ pairedColumns.values, Value.null ∉ vs := by decide +kernel
  obtain ⟨-, hlength, hcollects⟩ := combinations_once pairedColumns
  have htargets : pairedParity.targets [] ⟨pairedColumns, ∅⟩ = .ok ["t_0", "t_1"] := by decide +kernel
  refine ⟨hcount, hnull, hlength, ?_⟩
  rw [← htargets]
  exact hcollects pairedParity [] hcount hnull

end ShardedSql
