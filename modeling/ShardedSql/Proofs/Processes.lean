import ShardedSql.Execution.Driver
import ShardedSql.Proofs.NameMaps
import ShardedSql.Proofs.Success
import Std.Data.String.ToNat

/-! What the operations of a session do to the processes, and what a callback that looks for a
cancellation first does. -/

namespace ShardedSql

namespace Processes

variable {ps ps' : Processes} {id : String}

theorem isCancelled_iff :
    ps.isCancelled id = true ↔ ∃ p, ps.running.get? id = some p ∧ p.cancelled = true := by
  rw [isCancelled]
  cases ps.running.get? id <;> simp

theorem isCancelled_of_cancel? (h : ps.cancel? id = some ps') : ps'.isCancelled id = true := by
  obtain ⟨p, -, rfl⟩ := Option.map_eq_some_iff.1 h
  simp [isCancelled, NameMap.get?_insert_self]

theorem get?_complete (ps : Processes) (id : String) : (ps.complete id).running.get? id = none :=
  NameMap.get?_erase_self _ _

theorem cancel?_eq_none (h : ps.running.get? id = none) : ps.cancel? id = none := by
  simp [cancel?, h]

theorem cancel?_of_get? {p : Process} (h : ps.running.get? id = some p) : ps.cancel? id =
    some { ps with running := ps.running.insert id { p with cancelled := true } } := by
  simp [cancel?, h]

theorem isCancelled_of_get?_eq_none (h : ps.running.get? id = none) : ps.isCancelled id = false := by
  simp [isCancelled, h]

theorem isCancelled_add (ps : Processes) (database sql : String) :
    (ps.add database sql).2.isCancelled (idOf ps.next) = false := by
  simp [add, isCancelled, NameMap.get?_insert_self]

theorem isCancelled_complete (h : ps.isCancelled id = false) (other : String) :
    (ps.complete other).isCancelled id = false := by
  by_cases hid : id = other
  · rw [hid]
    exact isCancelled_of_get?_eq_none (get?_complete ps other)
  · rw [isCancelled, complete, NameMap.get?_erase_of_ne hid]
    exact h

/-- The next process gets an id that no running one has. -/
def Fresh (ps : Processes) : Prop := ps.running.get? (idOf ps.next) = none

/-- A process that is registered and completes leaves the others as they were. -/
theorem Fresh.erase_add (h : ps.Fresh) (database sql : String) :
    (ps.add database sql).2.running.erase (idOf ps.next) = ps.running :=
  NameMap.erase_insert h _

/-- The registries that come about by so many registrations, besides cancellations and completions. -/
inductive Reached : Nat → Processes → Prop
  | empty : Reached 0 .empty
  | add {count : Nat} {ps : Processes} (h : Reached count ps) (database sql : String) :
    Reached (count + 1) (ps.add database sql).2
  | cancel {count : Nat} {ps ps' : Processes} {id : String} (h : Reached count ps)
    (hcancel : ps.cancel? id = some ps') : Reached count ps'
  | complete {count : Nat} {ps : Processes} (h : Reached count ps) (id : String) :
    Reached count (ps.complete id)

/-- The running processes have numbers that were given before. -/
theorem Reached.numbered {count : Nat} (h : Reached count ps) :
    ps.next = UInt64.ofNat (count + 1) ∧
      ∀ e ∈ ps.running.entries, ∃ k, 1 ≤ k ∧ k ≤ count ∧ e.1 = idOf (UInt64.ofNat k) := by
  induction h with
  | empty => exact ⟨rfl, by simp [Processes.empty]⟩
  | @add count ps h database sql ih =>
    obtain ⟨hnext, hnames⟩ := ih
    refine ⟨?_, ?_⟩
    · change ps.next + 1 = _
      rw [hnext, UInt64.ofNat_add (count + 1) 1]
      rfl
    · intro e he
      rcases NameMap.mem_insert.1 he with rfl | ⟨he, -⟩
      · exact ⟨count + 1, by omega, by omega, congrArg idOf hnext⟩
      · obtain ⟨k, hk, hle, hname⟩ := hnames e he
        exact ⟨k, hk, by omega, hname⟩
  | @cancel count ps ps' id h hcancel ih =>
    obtain ⟨p, hp, rfl⟩ := Option.map_eq_some_iff.1 hcancel
    refine ⟨ih.1, ?_⟩
    intro e he
    rcases NameMap.mem_insert.1 he with rfl | ⟨he, -⟩
    · exact ih.2 (id, p) (NameMap.get?_eq_some.1 hp)
    · exact ih.2 e he
  | complete h id ih => exact ⟨ih.1, fun e he => ih.2 e (List.mem_filter.1 he).1⟩

theorem idOf_injective {a b : UInt64} (h : idOf a = idOf b) : a = b := by
  have hrepr : a.toNat.repr = b.toNat.repr := by
    have hlist := congrArg String.toList h
    simp only [idOf, String.toList_append] at hlist
    exact String.toList_injective (List.append_cancel_left hlist)
  exact UInt64.toNat_inj.1 (Nat.repr_inj.1 hrepr)

/-- Ids are unique as long as the numbers of the processes last. -/
theorem Reached.fresh {count : Nat} (h : Reached count ps) (hcount : count < UInt64.size) :
    ps.Fresh := by
  obtain ⟨hnext, hnames⟩ := h.numbered
  by_contra hne
  obtain ⟨p, hp⟩ := Option.ne_none_iff_exists'.1 hne
  obtain ⟨k, hk, hle, hid⟩ := hnames _ (NameMap.get?_eq_some.1 hp)
  have hnumber := congrArg UInt64.toNat (idOf_injective hid)
  rw [hnext] at hnumber
  simp only [UInt64.toNat_ofNat', UInt64.size] at hnumber hcount
  omega

end Processes

namespace Session

variable {ω : Type}

theorem cancel_of_none {id : String} {s : Session ω} (h : s.processes.cancel? id = none) :
    cancel id s = (false, s) := by
  have hget : (get : StateM (Session ω) (Session ω)) s = (s, s) := rfl
  rw [cancel, bind_apply, hget]
  dsimp only
  rw [h]
  rfl

theorem cancel_of_some {id : String} {s : Session ω} {processes : Processes}
    (h : s.processes.cancel? id = some processes) :
    cancel id s =
      (true, ⟨processes, s.events ++ [.processCancelled id], s.world⟩) := by
  have hget : (get : StateM (Session ω) (Session ω)) s = (s, s) := rfl
  rw [cancel, bind_apply, hget]
  dsimp only
  rw [h]
  rfl

theorem check_apply (id : String) (s : Session ω) :
    check id s = (if s.processes.isCancelled id then .error (.cancelled id) else .ok (), s) := by
  rw [check, bind_apply]
  change (if s.processes.isCancelled id then _ else _ : StateM _ _) s = _
  cases s.processes.isCancelled id <;> rfl

end Session

namespace Driver

variable {ω α β : Type} {id : String} {s : Session ω}

theorem cancellable_of_cancelled (h : s.processes.isCancelled id = true) (callback : Callback ω α β)
    (group : List α) (own : Bool) :
    cancellable id callback group own s = (.failed (.cancelled id), s) := by
  rw [cancellable, bind_apply, Session.check_apply, h]
  rfl

theorem cancellable_of_running (h : s.processes.isCancelled id = false) (callback : Callback ω α β)
    (group : List α) (own : Bool) :
    cancellable id callback group own s = callback group own s := by
  rw [cancellable, bind_apply, Session.check_apply, h]
  rfl

/-- Looking for a cancellation changes nothing itself. -/
theorem cancellable_cases (id : String) (callback : Callback ω α β) (group : List α) (own : Bool)
    (s : Session ω) :
    cancellable id callback group own s = (.failed (.cancelled id), s) ∨
      cancellable id callback group own s = callback group own s := by
  cases h : s.processes.isCancelled id with
  | true => exact .inl (cancellable_of_cancelled h callback group own)
  | false => exact .inr (cancellable_of_running h callback group own)

theorem cancellable_processes {callback : Callback ω α β}
    (h : ∀ group own s, (callback group own s).2.processes = s.processes) (group : List α)
    (own : Bool) (s : Session ω) :
    (cancellable id callback group own s).2.processes = s.processes := by
  rcases cancellable_cases id callback group own s with hc | hc
  · rw [hc]
  · rw [hc, h]

end Driver

end ShardedSql
