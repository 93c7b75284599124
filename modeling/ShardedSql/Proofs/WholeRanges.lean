import ShardedSql.Proofs.RowTargets

/-! A range that an algorithm does not narrow asks for every available target. What is asked for is looked
up again without regard to letter case, and each name once, so that of the names that differ in letter case
only the first one stays. A statement without a condition is not looked up, and keeps all of them. -/

namespace ShardedSql

open Text (sameName)

variable {table : String} {c : Condition} {available : List String} {hints : Option (List Value)}

theorem distinctBy_eq_self_iff {α : Type} {same : α → α → Bool} {l : List α} :
    distinctBy same l = l ↔ l.Pairwise fun a b => same a b = false := by
  constructor
  · intro h
    rw [← h]
    exact distinctBy_pairwise same l
  · intro h
    exact distinctFrom_eq_self h (by simp)

/-- The condition wants a value within the range in the column. -/
def Condition.Ranges (c : Condition) (table column : String) (r : ValueRange) : Prop :=
  (c.find? table column).map (·.constraint) = some (.range r)

namespace Strategy

theorem find?_of_new {a : String} {front : List String} (back : List String)
    (h : ∀ name ∈ front, ¬ sameName name a = true) :
    (front ++ a :: back).find? (fun name => sameName name a) = some a := by
  rw [List.find?_append, List.find?_eq_none.2 h, Option.none_or]
  exact List.find?_cons_of_pos (p := fun name => sameName name a) (Text.sameName_refl a)

/-- A name is among those that are the first of their spellings just when one of them is the same. -/
theorem any_first_eq {l seen : List String} {a f : String}
    (hfirst : ∀ s ∈ seen, l.find? (fun name => sameName name s) = some s)
    (hf : l.find? (fun name => sameName name a) = some f) :
    seen.any (· == f) = seen.any (sameName · a) := by
  rw [Bool.eq_iff_iff, List.any_eq_true, List.any_eq_true]
  refine exists_congr fun s => and_congr_right fun hs => ?_
  have hfound_same := List.find?_some hf
  rw [beq_iff_eq]
  constructor
  · rintro rfl
    exact hfound_same
  · intro hsame
    have hfound := hfirst s hs
    simp only [Text.sameName_congr_right hsame, hf] at hfound
    exact (Option.some.inj hfound).symm

/-- Looking names up in the part of a list that is left, when each name before it has one among those that
were `seen`. -/
theorem distinctFrom_looked_up {seen front back : List String}
    (hfirst : ∀ s ∈ seen, (front ++ back).find? (fun name => sameName name s) = some s)
    (hseen : ∀ name ∈ front, ∃ s ∈ seen, sameName s name = true) :
    distinctFrom (· == ·) seen
        (back.filterMap fun t => (front ++ back).find? fun name => sameName name t) =
      distinctFrom sameName seen back := by
  induction back generalizing seen front with
  | nil => rfl
  | cons a back ih =>
    have hnext : front ++ a :: back = (front ++ [a]) ++ back := by simp
    obtain ⟨f, hf⟩ : ∃ f, (front ++ a :: back).find? (fun name => sameName name a) = some f :=
      Option.isSome_iff_exists.1 (List.find?_isSome.2 ⟨a, by simp, Text.sameName_refl a⟩)
    rw [List.filterMap_cons, hf]
    dsimp only
    rw [distinctFrom, distinctFrom, any_first_eq hfirst hf]
    split
    · rename_i hold
      rw [hnext] at hfirst ⊢
      apply ih hfirst
      simp only [List.forall_mem_append, List.forall_mem_singleton]
      exact ⟨hseen, List.any_eq_true.1 hold⟩
    · rename_i hnew
      -- nothing before the name is the same, so it is the one that is found
      have hfirst_a := find?_of_new back fun name hname hsame => by
        obtain ⟨s, hs, h⟩ := hseen name hname
        exact hnew (List.any_eq_true.2 ⟨s, hs, Text.sameName_trans h hsame⟩)
      rw [hfirst_a] at hf
      cases hf
      rw [hnext] at hfirst hfirst_a ⊢
      apply congrArg (a :: ·)
      apply ih
      · exact List.forall_mem_cons.2 ⟨hfirst_a, hfirst⟩
      · simp only [List.forall_mem_append, List.forall_mem_singleton]
        refine ⟨fun name hname => ?_, a, List.mem_cons_self, Text.sameName_refl a⟩
        obtain ⟨s, hs, h⟩ := hseen name hname
        exact ⟨s, List.mem_cons_of_mem _ hs, h⟩

/-- Of the available names that are the same the first one is retained. -/
theorem retain_self (available : List String) :
    retain available available = distinctBy sameName available := by
  have hstart := @distinctFrom_looked_up [] [] available (by simp) (by simp)
  exact hstart

/-- The condition asks the strategy for a range which its algorithm answers with every available
target. -/
inductive AsksWhole (c : Condition) (table : String) : Strategy → Prop where
  | inline {column : String} {a : InlineAlgorithm} {r : ValueRange} :
    c.Ranges table column r → a.allowRanges = true → AsksWhole c table (standard column (.inline a))
  | hashMod {column : String} {count : ShardCount} {r : ValueRange} :
    c.Ranges table column r → AsksWhole c table (standard column (.hashMod count))
  | mod {column : String} {count : ShardCount} {r : ValueRange} :
    c.Ranges table column r → r.lower = .unbounded ∨ r.upper = .unbounded →
    AsksWhole c table (standard column (.mod count))
  | complexInline {columns : List String} {a : ComplexInlineAlgorithm} {column : String}
      {r : ValueRange} :
    column ∈ columns → c.Ranges table column r → a.allowRanges = true →
    AsksWhole c table (complex columns a)

theorem targets_ranges {column : String} {a : StandardAlgorithm} {r : ValueRange}
    (h : c.Ranges table column r) (hwhole : a.range available r = .ok available) :
    (standard column a).targets available table (some c) hints = .ok (retain available available) := by
  obtain ⟨e, he, hr⟩ := Option.map_eq_some_iff.1 h
  simp only [targets, Option.bind_some, he, hr, constrained, hwhole]
  rfl

theorem not_narrow_of_open {count : ShardCount} {r : ValueRange}
    (h : r.lower = .unbounded ∨ r.upper = .unbounded) : ¬ Modulo.Narrow count r := by
  rintro ⟨a, b, ha, hb, -⟩
  rcases h with h | h
  · rw [h] at ha
    cases ha
  · rw [h] at hb
    cases hb

theorem AsksWhole.targets {s : Strategy} (h : s.AsksWhole c table) :
    s.targets available table (some c) hints = .ok (distinctBy sameName available) := by
  rw [← retain_self]
  cases h with
  | inline hr hallowed =>
    exact targets_ranges hr (if_pos hallowed)
  | hashMod hr => exact targets_ranges hr rfl
  | mod hr hopen =>
    refine targets_ranges hr ?_
    rw [StandardAlgorithm.range, Modulo.range_of_not_narrow (not_narrow_of_open hopen)]
  | complexInline hcolumn hr hallowed =>
    rename_i columns a column r
    have hsays : Says (complexValue columns table c) column (.range r) :=
      says_complexValue.2 ⟨hcolumn, hr⟩
    have hranges : (complexValue columns table c).ranges.isEmpty = false :=
      List.isEmpty_eq_false_iff.2 (List.ne_nil_of_mem hsays)
    have hwhole : a.targets available (complexValue columns table c) = .ok available := by
      simp [ComplexInlineAlgorithm.targets, hranges, hallowed]
    simp only [Strategy.targets, Option.map_some, Option.getD_some, hranges, Bool.and_false, hwhole]
    rfl

theorem AsksWhole.targets_unconstrained {s : Strategy} (h : s.AsksWhole c table) :
    s.targets available table none hints = .ok available := by
  cases h <;> rfl

end Strategy

/-- An unconstrained statement keeps every available target. A range that is not narrowed keeps some of them,
in their order and spelling: one of all that differ in letter case only. So it keeps every one if and only
if no two available names are the same but for letter case. -/
theorem whole_range_keeps_iff {s : Strategy} (h : s.AsksWhole c table) (available : List String)
    (hints : Option (List Value)) :
    s.targets available table none hints = .ok available ∧
    ∃ kept, s.targets available table (some c) hints = .ok kept ∧ kept.Sublist available ∧
      (∀ name ∈ available, ∃ k ∈ kept, sameName k name = true) ∧
      (kept.Pairwise fun a b => sameName a b = false) ∧
      (kept = available ↔ available.Pairwise fun a b => sameName a b = false) :=
  ⟨h.targets_unconstrained, distinctBy sameName available, h.targets, distinctBy_sublist _ _,
    fun _ hname => distinctBy_covers Text.sameName_refl hname, distinctBy_pairwise _ _,
    distinctBy_eq_self_iff⟩

/-- Orders from one number on. -/
def ordersSince (key : Int64) : Condition :=
  ⟨[⟨"t_order", "order_id", .range ⟨.included (.int key), .unbounded⟩⟩]⟩

/-- Orders are placed by a template, and a range of them may be anywhere. -/
def anywhereOrders : Strategy :=
  .standard "order_id" (.inline ⟨⟨"t_order_$\x7border_id % 2\x7d",
    [.text "t_order_", .placeholder (.binary .rem (.var "order_id") (.literal (.int 2)))]⟩, true⟩)

theorem asksWhole_ordersSince (key : Int64) :
    anywhereOrders.AsksWhole (ordersSince key) "t_order" := by
  have hr : (ordersSince key).Ranges "t_order" "order_id" ⟨.included (.int key), .unbounded⟩ := by
    simp [Condition.Ranges, Condition.find?, ordersSince]
  exact .inline hr rfl

theorem whole_range_keeps_iff_orders :
    anywhereOrders.AsksWhole (ordersSince 7) "t_order" ∧
      anywhereOrders.targets ["t_order_1", "t_order_0"] "t_order" (some (ordersSince 7)) none =
        .ok ["t_order_1", "t_order_0"] := by
  have hasks := asksWhole_ordersSince 7
  obtain ⟨-, kept, hkept, -, -, -, hall⟩ :=
    whole_range_keeps_iff hasks ["t_order_1", "t_order_0"] none
  refine ⟨hasks, ?_⟩
  rw [hkept, hall.2 (by decide +kernel)]

/-- Two tables whose names differ in letter case only: the range skips one that the statement without a
condition visits. -/
theorem table_in_capitals_skipped :
    ["t_order", "T_ORDER"].Nodup ∧ anywhereOrders.AsksWhole (ordersSince 7) "t_order" ∧
      anywhereOrders.targets ["t_order", "T_ORDER"] "t_order" none none =
        .ok ["t_order", "T_ORDER"] ∧
      anywhereOrders.targets ["t_order", "T_ORDER"] "t_order" (some (ordersSince 7)) none =
        .ok ["t_order"] :=
  ⟨by decide, asksWhole_ordersSince 7, rfl, by decide +kernel⟩

end ShardedSql
