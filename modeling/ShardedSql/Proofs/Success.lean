import Mathlib.Tactic

/-! What a computation that succeeded has done: its steps succeeded in turn. -/

namespace ShardedSql

variable {ε α β : Type}

theorem bind_eq_ok {x : Except ε α} {f : α → Except ε β} {b : β} :
    (x >>= f) = .ok b ↔ ∃ a, x = .ok a ∧ f a = .ok b := by
  cases x <;> simp [bind, Except.bind]

theorem exists_bind_eq_ok {x : Except ε α} {f : α → Except ε β} :
    (∃ b, (x >>= f) = .ok b) ↔ ∃ a, x = .ok a ∧ ∃ b, f a = .ok b := by
  cases x <;> simp [bind, Except.bind]

theorem bind_eq_error {x : Except ε α} {f : α → Except ε β} {e : ε} :
    (x >>= f) = .error e ↔ x = .error e ∨ ∃ a, x = .ok a ∧ f a = .error e := by
  cases x <;> simp [bind, Except.bind]

theorem map_eq_ok {x : Except ε α} {f : α → β} {b : β} :
    x.map f = .ok b ↔ ∃ a, x = .ok a ∧ f a = b := by
  cases x <;> simp [Except.map]

theorem map_eq_error {x : Except ε α} {f : α → β} {e : ε} : x.map f = .error e ↔ x = .error e := by
  cases x <;> simp [Except.map]

theorem forM_eq_ok {f : α → Except ε Unit} {l : List α} {u : Unit} :
    l.forM f = .ok u ↔ ∀ a ∈ l, f a = .ok u := by
  induction l with
  | nil => simp [pure, Except.pure]
  | cons a l ih =>
    change (f a >>= fun _ => l.forM f) = _ ↔ _
    rw [bind_eq_ok, List.forall_mem_cons, ← ih]
    exact ⟨fun ⟨_, ha, h⟩ => ⟨ha, h⟩, fun ⟨ha, h⟩ => ⟨u, ha, h⟩⟩

theorem mapM_eq_ok {f : α → Except ε β} {l : List α} {r : List β} :
    l.mapM f = .ok r ↔ List.Forall₂ (fun a b => f a = .ok b) l r := by
  induction l generalizing r with
  | nil => cases r <;> simp [pure, Except.pure]
  | cons a l ih =>
    rw [List.mapM_cons, bind_eq_ok]
    constructor
    · rintro ⟨b, hb, h⟩
      obtain ⟨bs, hbs, h⟩ := bind_eq_ok.1 h
      cases h
      exact .cons hb (ih.1 hbs)
    · rintro (_ | ⟨hb, h⟩)
      exact ⟨_, hb, bind_eq_ok.2 ⟨_, ih.2 h, rfl⟩⟩

theorem mapM_eq_error {f : α → Except ε β} {l : List α} {e : ε} (h : l.mapM f = .error e) :
    ∃ a ∈ l, f a = .error e := by
  induction l with
  | nil => cases h
  | cons a l ih =>
    rw [List.mapM_cons] at h
    obtain h | ⟨_, _, h⟩ := bind_eq_error.1 h
    · exact ⟨a, List.mem_cons_self, h⟩
    obtain h | ⟨_, _, h⟩ := bind_eq_error.1 h
    · obtain ⟨b, hb, hf⟩ := ih h
      exact ⟨b, List.mem_cons_of_mem _ hb, hf⟩
    · cases h

theorem exists_of_mem_left {R : α → β → Prop} {l : List α} {r : List β} (h : List.Forall₂ R l r)
    {a : α} (ha : a ∈ l) : ∃ b ∈ r, R a b := by
  induction h with
  | nil => simp at ha
  | cons hab _ ih =>
    rcases List.mem_cons.1 ha with rfl | ha
    · exact ⟨_, List.mem_cons_self, hab⟩
    · obtain ⟨b, hb, hr⟩ := ih ha
      exact ⟨b, List.mem_cons_of_mem _ hb, hr⟩

theorem exists_of_mem_right {R : α → β → Prop} {l : List α} {r : List β} (h : List.Forall₂ R l r)
    {b : β} (hb : b ∈ r) : ∃ a ∈ l, R a b :=
  exists_of_mem_left (List.Forall₂.flip (R := fun b a => R a b) h) hb

theorem forall₂_singleton_left {R : α → β → Prop} {a : α} {r : List β} :
    List.Forall₂ R [a] r ↔ ∃ b, R a b ∧ r = [b] := by
  rw [List.forall₂_cons_left_iff]
  simp [List.forall₂_nil_left_iff]

theorem forall₂_comp {γ : Type} {R : α → β → Prop} {S : β → γ → Prop} {l : List α} {m : List β}
    {r : List γ} (h : List.Forall₂ R l m) (h' : List.Forall₂ S m r) :
    List.Forall₂ (fun a c => ∃ b, R a b ∧ S b c) l r := by
  induction h generalizing r with
  | nil =>
    cases h'
    exact .nil
  | cons hab _ ih =>
    cases h' with
    | cons hbc h' => exact .cons ⟨_, hab, hbc⟩ (ih h')

/-- A relation that every member has some partner by has partners for the list. -/
theorem exists_forall₂ {R : α → β → Prop} {l : List α} (h : ∀ a ∈ l, ∃ b, R a b) :
    ∃ r, List.Forall₂ R l r := by
  induction l with
  | nil => exact ⟨[], .nil⟩
  | cons a l ih =>
    obtain ⟨b, hb⟩ := h a List.mem_cons_self
    obtain ⟨r, hr⟩ := ih fun a ha => h a (List.mem_cons_of_mem _ ha)
    exact ⟨b :: r, .cons hb hr⟩

theorem map_eq_of_forall₂ {γ : Type} {f : α → γ} {g : β → γ} {l : List α} {r : List β}
    (h : List.Forall₂ (fun a b => g b = f a) l r) : r.map g = l.map f := by
  induction h with
  | nil => rfl
  | cons hab _ ih => rw [List.map_cons, List.map_cons, hab, ih]

theorem mem_of_mapM_ok {f : α → Except ε β} {l : List α} {r : List β} (h : l.mapM f = .ok r)
    (b : β) : b ∈ r ↔ ∃ a ∈ l, f a = .ok b := by
  have hall := mapM_eq_ok.1 h
  refine ⟨exists_of_mem_right hall, fun ⟨a, ha, hb⟩ => ?_⟩
  obtain ⟨b', hb', hab⟩ := exists_of_mem_left hall ha
  rw [hb] at hab
  cases hab
  exact hb'

section State

variable {σ : Type}

/-- What comes after a step starts from the state that the step leaves. -/
theorem bind_apply (x : StateM σ α) (f : α → StateM σ β) (s : σ) :
    (x >>= f) s = f (x s).1 (x s).2 := rfl

theorem run_bind (x : ExceptT ε (StateM σ) α) (f : α → ExceptT ε (StateM σ) β) (s : σ) :
    (x >>= f) s = match x s with
      | (.ok a, s') => f a s'
      | (.error e, s') => (.error e, s') := by
  change ExceptT.bind x f s = _
  simp only [ExceptT.bind, ExceptT.mk, Bind.bind, StateT.bind, ExceptT.bindCont, pure]
  rcases x s with ⟨_ | a, s'⟩ <;> rfl

theorem run_bind_eq_ok {x : ExceptT ε (StateM σ) α} {f : α → ExceptT ε (StateM σ) β} {b : β}
    {s s'' : σ} : (x >>= f) s = (.ok b, s'') ↔ ∃ a s', x s = (.ok a, s') ∧ f a s' = (.ok b, s'') := by
  rw [run_bind]
  rcases x s with ⟨_ | a, s'⟩
  · constructor
    · intro h
      cases h
    · rintro ⟨_, _, h, -⟩
      cases h
  · constructor
    · intro h
      exact ⟨a, s', rfl, h⟩
    · rintro ⟨_, _, h, hf⟩
      cases h
      exact hf

theorem run_mapM_ok {f : α → ExceptT ε (StateM σ) β} {l : List α} {r : List β} {s s' : σ}
    (h : l.mapM f s = (.ok r, s')) : List.Forall₂ (fun a b => ∃ s s', f a s = (.ok b, s')) l r := by
  induction l generalizing r s with
  | nil =>
    cases h
    exact .nil
  | cons a l ih =>
    rw [List.mapM_cons] at h
    obtain ⟨b, s₁, hb, h⟩ := run_bind_eq_ok.1 h
    obtain ⟨bs, s₂, hbs, h⟩ := run_bind_eq_ok.1 h
    cases h
    exact .cons ⟨s, s₁, hb⟩ (ih hbs)

/-- What a map over a list does to a part of its results that does not depend on the state. -/
theorem run_mapM_map {γ : Type} {f : α → StateM σ β} {g : β → γ} {h : α → γ}
    (hf : ∀ a s, g (f a s).1 = h a) (l : List α) (s : σ) : (l.mapM f s).1.map g = l.map h := by
  induction l generalizing s with
  | nil => rfl
  | cons a l ih =>
    rw [List.mapM_cons]
    change g (f a s).1 :: (l.mapM f (f a s).2).1.map g = _
    rw [hf, ih, List.map_cons]

/-- Each result comes from its element, in whatever state that was reached. -/
theorem run_mapM_forall₂ (f : α → StateM σ β) (l : List α) (s : σ) :
    List.Forall₂ (fun a b => ∃ s, (f a s).1 = b) l (l.mapM f s).1 := by
  induction l generalizing s with
  | nil => exact .nil
  | cons a l ih =>
    rw [List.mapM_cons]
    exact .cons ⟨s, rfl⟩ (ih (f a s).2)

/-- Whatever the computation comes to, the state keeps `P`. -/
def Keeps (P : σ → Prop) (m : StateM σ α) : Prop := ∀ s, P s → P (m s).2

theorem Keeps.pure {P : σ → Prop} (a : α) : Keeps P (Pure.pure a : StateM σ α) := fun _ hs => hs

theorem Keeps.bind {P : σ → Prop} {m : StateM σ α} {f : α → StateM σ β} (hm : Keeps P m)
    (hf : ∀ a, Keeps P (f a)) : Keeps P (m >>= f) := fun s hs => hf _ _ (hm s hs)

theorem Keeps.bindExcept {P : σ → Prop} {m : ExceptT ε (StateM σ) α}
    {f : α → ExceptT ε (StateM σ) β} (hm : Keeps P m.run) (hf : ∀ a, Keeps P (f a).run) :
    Keeps P (m >>= f).run := by
  intro s hs
  have hs' : P (m s).2 := hm s hs
  change P ((m >>= f) s).2
  rw [run_bind]
  rcases hms : m s with ⟨_ | a, s'⟩
  · rw [hms] at hs'
    exact hs'
  · rw [hms] at hs'
    exact hf a s' hs'

theorem Keeps.mapM {P : σ → Prop} {f : α → ExceptT ε (StateM σ) β} (hf : ∀ a, Keeps P (f a).run)
    (l : List α) : Keeps P (l.mapM f).run := by
  induction l with
  | nil => exact Keeps.pure _
  | cons a l ih =>
    rw [List.mapM_cons]
    exact (hf a).bindExcept fun b => ih.bindExcept fun bs => Keeps.pure _

/-- Two maps over a list that take the same steps: what the second one gives for an element is known from
what the first one gives. -/
theorem run_mapM_pairs {γ : Type} {f : α → ExceptT ε (StateM σ) β} {g : α → ExceptT ε (StateM σ) γ}
    {h : α → β → γ} {R : α → β → Prop}
    (hall : ∀ a s, ∃ b s', f a s = (.ok b, s') ∧ g a s = (.ok (h a b), s') ∧ R a b) (l : List α)
    (s : σ) :
    ∃ (pairs : List (α × β)) (s' : σ), pairs.map (·.1) = l ∧ (∀ p ∈ pairs, R p.1 p.2) ∧
      l.mapM f s = (.ok (pairs.map (·.2)), s') ∧
      l.mapM g s = (.ok (pairs.map fun p => h p.1 p.2), s') := by
  induction l generalizing s with
  | nil => exact ⟨[], s, rfl, by simp, rfl, rfl⟩
  | cons a l ih =>
    obtain ⟨b, s₁, hf, hg, hR⟩ := hall a s
    obtain ⟨pairs, s₂, hpairs, hall', hfs, hgs⟩ := ih s₁
    refine ⟨(a, b) :: pairs, s₂, by simp [hpairs], ?_, ?_, ?_⟩
    · intro p hp
      rcases List.mem_cons.1 hp with rfl | hp
      · exact hR
      · exact hall' p hp
    · rw [List.mapM_cons, run_bind_eq_ok]
      exact ⟨b, s₁, hf, run_bind_eq_ok.2 ⟨_, s₂, hfs, rfl⟩⟩
    · rw [List.mapM_cons, run_bind_eq_ok]
      exact ⟨h a b, s₁, hg, run_bind_eq_ok.2 ⟨_, s₂, hgs, rfl⟩⟩

/-- Whatever the computation comes to, the state keeps `P`, and a result has `Q`. -/
def Ensures (P : σ → Prop) (m : ExceptT ε (StateM σ) α) (Q : α → Prop) : Prop :=
  ∀ s, P s → P (m s).2 ∧ ∀ a, (m s).1 = .ok a → Q a

theorem Ensures.bind {P : σ → Prop} {Q : α → Prop} {R : β → Prop} {m : ExceptT ε (StateM σ) α}
    {f : α → ExceptT ε (StateM σ) β} (hm : Ensures P m Q) (hf : ∀ a, Q a → Ensures P (f a) R) :
    Ensures P (m >>= f) R := by
  intro s hs
  obtain ⟨hP, hQ⟩ := hm s hs
  rw [run_bind]
  rcases hms : m s with ⟨_ | a, s'⟩
  · rw [hms] at hP
    exact ⟨hP, fun _ h => nomatch h⟩
  · rw [hms] at hP hQ
    exact hf a (hQ a rfl) s' hP

theorem Ensures.result {P : σ → Prop} {Q : α → Prop} {x : Except ε α}
    (h : ∀ a, x = .ok a → Q a) : Ensures P (ExceptT.mk (pure x)) Q := fun _ hs => ⟨hs, h⟩

theorem Ensures.pure {P : σ → Prop} {Q : α → Prop} {a : α} (h : Q a) :
    Ensures P (pure a : ExceptT ε (StateM σ) α) Q := by
  refine fun s hs => ⟨hs, fun b hb => ?_⟩
  cases hb
  exact h

end State

end ShardedSql
