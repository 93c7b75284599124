import ShardedSql.NameMap
import Mathlib.Tactic

/-! Looking a name up finds the one entry of that name. -/

namespace ShardedSql

variable {α : Type}

section Lookup

variable {κ : Type} [BEq κ] [LawfulBEq κ] {l : List (κ × α)} {key : κ} {v : α}

/-- In a list whose keys differ every entry is found. -/
theorem lookup_of_mem (hl : l.Pairwise fun a b => a.1 ≠ b.1) (h : (key, v) ∈ l) :
    l.lookup key = some v := by
  induction l with
  | nil => simp at h
  | cons e l ih =>
    obtain ⟨he, hl⟩ := List.pairwise_cons.1 hl
    rcases List.mem_cons.1 h with rfl | h
    · exact List.lookup_cons_self
    · have hne : (key == e.1) = false := beq_eq_false_iff_ne.2 (he _ h).symm
      rw [List.lookup_cons, hne]
      exact ih hl h

theorem mem_of_lookup (h : l.lookup key = some v) : (key, v) ∈ l := by
  obtain ⟨l₁, l₂, rfl, -⟩ := List.lookup_eq_some_iff.1 h
  simp

theorem not_mem_of_lookup (h : l.lookup key = none) : key ∉ l.map (·.1) := by
  intro hmem
  obtain ⟨e, he, rfl⟩ := List.mem_map.1 hmem
  simpa using List.lookup_eq_none_iff.1 h e he

end Lookup

namespace NameMap

theorem names_differ (m : NameMap α) : m.entries.Pairwise fun a b => a.1 ≠ b.1 :=
  m.sorted.imp fun h he => by
    rw [he] at h
    exact String.lt_irrefl _ h

theorem get?_eq_some {m : NameMap α} {name : String} {v : α} :
    m.get? name = some v ↔ (name, v) ∈ m.entries :=
  ⟨mem_of_lookup, lookup_of_mem m.names_differ⟩

theorem names_nodup (m : NameMap α) : m.names.Nodup :=
  List.pairwise_map.2 m.names_differ

theorem contains_iff {m : NameMap α} {name : String} : m.contains name = true ↔ name ∈ m.names := by
  rw [contains, Option.isSome_iff_exists, names, List.mem_map]
  constructor
  · rintro ⟨v, hv⟩
    exact ⟨_, get?_eq_some.1 hv, rfl⟩
  · rintro ⟨⟨_, v⟩, he, rfl⟩
    exact ⟨v, get?_eq_some.2 he⟩

theorem mem_place_iff {name : String} {value : α} {es : List (String × α)}
    (hes : es.Pairwise fun a b => a.1 < b.1) {e : String × α} :
    e ∈ place name value es ↔ e = (name, value) ∨ e ∈ es ∧ e.1 ≠ name := by
  induction es with
  | nil => simp [place]
  | cons d es ih =>
    obtain ⟨hd, hes'⟩ := List.pairwise_cons.1 hes
    rw [place]
    split
    · rename_i lt
      -- every name is behind the new one
      have hne : ∀ c ∈ d :: es, c.1 ≠ name := by
        intro c hc he
        rcases List.mem_cons.1 hc with rfl | hc
        · exact String.lt_irrefl _ (he ▸ lt)
        · exact String.lt_irrefl _ (String.lt_trans lt (he ▸ hd c hc))
      rw [List.mem_cons]
      exact or_congr_right ⟨fun h => ⟨h, hne e h⟩, And.left⟩
    · split
      · rename_i _ eq
        subst eq
        have hne : ∀ c ∈ es, c.1 ≠ d.1 := fun c hc he => String.lt_irrefl _ (he ▸ hd c hc)
        simp only [List.mem_cons]
        constructor
        · rintro (h | h)
          · exact .inl h
          · exact .inr ⟨.inr h, hne e h⟩
        · rintro (h | ⟨rfl | h, hn⟩)
          · exact .inl h
          · exact absurd rfl hn
          · exact .inr h
      · rename_i _ ne
        simp only [List.mem_cons, ih hes']
        constructor
        · rintro (rfl | h | ⟨h, hn⟩)
          · exact .inr ⟨.inl rfl, Ne.symm ne⟩
          · exact .inl h
          · exact .inr ⟨.inr h, hn⟩
        · rintro (h | ⟨rfl | h, hn⟩)
          · exact .inr (.inl h)
          · exact .inl rfl
          · exact .inr (.inr ⟨h, hn⟩)

theorem mem_insert {m : NameMap α} {name : String} {value : α} {e : String × α} :
    e ∈ (m.insert name value).entries ↔ e = (name, value) ∨ e ∈ m.entries ∧ e.1 ≠ name :=
  mem_place_iff m.sorted

/-- Putting in what is there already, or is not there, takes nothing away. -/
theorem mem_insert_of_agree {m : NameMap α} {name : String} {value : α} {e : String × α}
    (h : e ∈ m.entries → e.1 = name → e = (name, value)) :
    e ∈ (m.insert name value).entries ↔ e = (name, value) ∨ e ∈ m.entries := by
  rw [mem_insert]
  by_cases hn : e.1 = name
  · exact ⟨Or.imp_right And.left, fun he => .inl (he.elim id fun he => h he hn)⟩
  · simp [hn]

theorem mem_foldl_insert {es : List (String × α)} {m : NameMap α} {e : String × α}
    (h : e ∈ (es.foldl (fun m e => m.insert e.1 e.2) m).entries) : e ∈ es ∨ e ∈ m.entries := by
  induction es generalizing m with
  | nil => exact .inr h
  | cons d es ih =>
    rcases ih h with h | h
    · exact .inl (List.mem_cons_of_mem _ h)
    · rcases mem_insert.1 h with rfl | ⟨h, -⟩
      · exact .inl List.mem_cons_self
      · exact .inr h

theorem foldl_insert_names {es : List (String × α)} {m : NameMap α} {name : String}
    (h : (∃ e ∈ es, e.1 = name) ∨ ∃ e ∈ m.entries, e.1 = name) :
    ∃ e ∈ (es.foldl (fun m e => m.insert e.1 e.2) m).entries, e.1 = name := by
  induction es generalizing m with
  | nil => exact h.resolve_left fun ⟨e, he, _⟩ => List.not_mem_nil he
  | cons d es ih =>
    refine ih ?_
    by_cases hd : d.1 = name
    · exact .inr ⟨d, mem_insert.2 (.inl rfl), hd⟩
    · rcases h with ⟨e, he, hname⟩ | ⟨e, he, hname⟩
      · rcases List.mem_cons.1 he with rfl | he
        · exact absurd hname hd
        · exact .inl ⟨e, he, hname⟩
      · exact .inr ⟨e, mem_insert.2 (.inr ⟨he, fun h => hd (h.symm.trans hname)⟩), hname⟩

theorem mem_of_mem_ofList {es : List (String × α)} {e : String × α} (h : e ∈ (ofList es).entries) :
    e ∈ es :=
  (mem_foldl_insert h).resolve_right List.not_mem_nil

/-- A name is there just when an entry of the list has it. -/
theorem get?_ofList_eq_none {es : List (String × α)} {name : String} :
    (ofList es).get? name = none ↔ ∀ e ∈ es, e.1 ≠ name := by
  constructor
  · intro h e he hname
    obtain ⟨⟨_, v⟩, hv, rfl⟩ := foldl_insert_names (m := empty) (.inl ⟨e, he, hname⟩)
    rw [ofList, get?_eq_some.2 hv] at h
    cases h
  · intro h
    by_contra hne
    obtain ⟨v, hv⟩ := Option.ne_none_iff_exists'.1 hne
    exact h _ (mem_of_mem_ofList (get?_eq_some.1 hv)) rfl

theorem get?_insert_self (m : NameMap α) (name : String) (value : α) :
    (m.insert name value).get? name = some value :=
  get?_eq_some.2 (mem_insert.2 (.inl rfl))

theorem get?_erase_self (m : NameMap α) (name : String) : (m.erase name).get? name = none := by
  apply List.lookup_eq_none_iff.2
  intro e he
  have hne : e.1 ≠ name := of_decide_eq_true (List.mem_filter.1 he).2
  simpa using hne.symm

theorem eq_of_entries {m m' : NameMap α} (h : m.entries = m'.entries) : m = m' := by
  cases m
  cases m'
  cases h
  rfl

theorem filter_place {name : String} (value : α) {es : List (String × α)}
    (h : ∀ e ∈ es, e.1 ≠ name) : (place name value es).filter (·.1 ≠ name) = es := by
  have hall : es.filter (·.1 ≠ name) = es := by simpa [List.filter_eq_self] using h
  induction es with
  | nil => simp [place]
  | cons e es ih =>
    obtain ⟨he, hes⟩ := List.forall_mem_cons.1 h
    rw [place]
    split
    · simpa using hall
    · rw [if_neg (Ne.symm he), List.filter_cons_of_pos (by simpa using he),
        ih hes (by simpa [List.filter_eq_self] using hes)]

/-- What was put in under a new name can be taken out again. -/
theorem erase_insert {m : NameMap α} {name : String} (h : m.get? name = none) (value : α) :
    (m.insert name value).erase name = m := by
  apply eq_of_entries
  apply filter_place
  intro e he hname
  have hfound : m.get? name = some e.2 := get?_eq_some.2 (hname ▸ he)
  rw [h] at hfound
  cases hfound

theorem get?_erase_of_ne {m : NameMap α} {name other : String} (h : name ≠ other) :
    (m.erase other).get? name = m.get? name := by
  cases hfound : m.get? name with
  | some v =>
    rw [get?_eq_some] at hfound ⊢
    exact List.mem_filter.2 ⟨hfound, by simpa using h⟩
  | none =>
    by_contra hne
    obtain ⟨v, hv⟩ := Option.ne_none_iff_exists'.1 hne
    have hmem := get?_eq_some.2 (List.mem_filter.1 (get?_eq_some.1 hv)).1
    rw [hfound] at hmem
    cases hmem

theorem get?_insert_of_ne (m : NameMap α) {name other : String} (value : α) (h : other ≠ name) :
    (m.insert name value).get? other = m.get? other := by
  refine Option.ext fun v => ?_
  rw [get?_eq_some, get?_eq_some, mem_insert, Prod.mk.injEq]
  exact ⟨fun hv => (hv.resolve_left fun he => h he.1).1, fun hv => .inr ⟨hv, h⟩⟩

/-- Of the entries of one name the last one is found. -/
theorem get?_ofList (es : List (String × α)) (name : String) :
    (ofList es).get? name = es.reverse.lookup name := by
  induction es using List.reverseRecOn with
  | nil => rfl
  | append_singleton es e ih =>
    rw [ofList, List.foldl_append, List.foldl_cons, List.foldl_nil, ← ofList,
      List.reverse_append, List.reverse_singleton, List.singleton_append, List.lookup_cons]
    by_cases he : name = e.1
    · rw [he, beq_self_eq_true, get?_insert_self]
    · rw [get?_insert_of_ne _ _ he, ih, beq_eq_false_iff_ne.2 he]

theorem get?_ofList_of_nodup {es : List (String × α)} (hes : (es.map (·.1)).Nodup) {name : String}
    {v : α} : (ofList es).get? name = some v ↔ (name, v) ∈ es := by
  have hdiffer : es.reverse.Pairwise fun a b => a.1 ≠ b.1 :=
    List.pairwise_reverse.2 ((List.pairwise_map.1 hes).imp Ne.symm)
  rw [get?_ofList]
  exact ⟨fun h => List.mem_reverse.1 (mem_of_lookup h), fun h => lookup_of_mem hdiffer (List.mem_reverse.2 h)⟩

theorem get?_ofList_eq_some {es : List (String × α)} {name : String} {v : α} :
    (ofList es).get? name = some v ↔
      ∃ front back, es = front ++ (name, v) :: back ∧ ∀ e ∈ back, e.1 ≠ name := by
  rw [get?_ofList, List.lookup_eq_some_iff]
  constructor
  · rintro ⟨l₁, l₂, hes, hnone⟩
    refine ⟨l₂.reverse, l₁.reverse, ?_, fun e he => ?_⟩
    · rw [← List.reverse_reverse es, hes]
      simp
    · exact (bne_iff_ne.1 (hnone e (List.mem_reverse.1 he))).symm
  · rintro ⟨front, back, rfl, hnone⟩
    refine ⟨back.reverse, front.reverse, by simp, fun e he => ?_⟩
    exact bne_iff_ne.2 (hnone e (List.mem_reverse.1 he)).symm

@[simp] theorem entries_empty : (∅ : NameMap α).entries = [] := rfl

end NameMap

theorem mem_sortNames {names : List String} {name : String} :
    name ∈ sortNames names ↔ name ∈ names := by
  rw [sortNames, ← NameMap.contains_iff, NameMap.contains, Option.isSome_iff_ne_none, ne_eq,
    NameMap.get?_ofList_eq_none]
  simp

end ShardedSql
