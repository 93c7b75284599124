import ShardedSql.Proofs.Processes

/-! The registry of processes after any calls. A process runs from the call that registered it to the one
that completes it, its flag is set by the first cancellation in between, and no id is given twice. -/

namespace ShardedSql

/-- A call of the registry. -/
inductive ProcessCall where
  | add (database sql : String)
  | cancel (id : String)
  | check (id : String)
  | complete (id : String)
  | list
  deriving DecidableEq

inductive ProcessAnswer where
  | registered (id : String)
  | cancelled (found : Bool)
  | checked (result : Except ExecutionError Unit)
  | completed
  | listed (processes : List (String × Process))

/-- The calls that were made, each with its answer. -/
abbrev ProcessHistory := List (ProcessCall × ProcessAnswer)

namespace ProcessCall

variable {ω : Type}

def run : ProcessCall → StateM (Session ω) ProcessAnswer
  | .add database sql => return .registered (← Session.add database sql)
  | .cancel id => return .cancelled (← Session.cancel id)
  | .check id => return .checked (← Session.check id)
  | .complete id => do
    Session.complete id
    return .completed
  | .list => return .listed (← get).processes.list

/-- The history of the calls and the session behind them. -/
def history (s₀ : Session ω) (calls : List ProcessCall) : ProcessHistory × Session ω :=
  calls.foldl (fun (h, s) call => (h ++ [(call, (call.run s).1)], (call.run s).2)) ([], s₀)

theorem history_concat (s₀ : Session ω) (calls : List ProcessCall) (call : ProcessCall) :
    history s₀ (calls ++ [call]) =
      ((history s₀ calls).1 ++ [(call, (call.run (history s₀ calls).2).1)],
        (call.run (history s₀ calls).2).2) := by
  rw [history, List.foldl_concat, ← history]

theorem run_add (database sql : String) (s : Session ω) : (ProcessCall.add database sql).run s =
    (.registered (Processes.idOf s.processes.next),
      { s with processes := (s.processes.add database sql).2 }) := rfl

theorem run_complete (id : String) (s : Session ω) : (ProcessCall.complete id).run s =
    (.completed, { s with processes := s.processes.complete id }) := rfl

theorem run_list (s : Session ω) : ProcessCall.list.run s = (.listed s.processes.list, s) := rfl

theorem run_check (id : String) (s : Session ω) : (ProcessCall.check id).run s =
    (.checked (Session.check id s).1, (Session.check id s).2) := rfl

theorem run_cancel (id : String) (s : Session ω) : (ProcessCall.cancel id).run s =
    (.cancelled (Session.cancel id s).1, (Session.cancel id s).2) := rfl

end ProcessCall

namespace ProcessHistory

variable {h : ProcessHistory} {ps : Processes} {call : ProcessCall}
  {answer : ProcessAnswer} {id : String} {p : Process}

/-- The ids that were given, in their order. -/
def ids (h : ProcessHistory) : List String :=
  h.filterMap fun
    | (_, .registered id) => some id
    | _ => none

/-- What the cancellations reported that found a process. -/
def cancellations (h : ProcessHistory) : List Event :=
  h.filterMap fun
    | (.cancel id, .cancelled true) => some (.processCancelled id)
    | _ => none

/-- The process was registered under the id and has not completed since; its flag says whether it was
cancelled since. -/
def Running (h : ProcessHistory) (id : String) (p : Process) : Prop :=
  ∃ before since, h = before ++ (.add p.database p.sql, .registered id) :: since ∧
    .complete id ∉ since.map (·.1) ∧ (p.cancelled = true ↔ .cancel id ∈ since.map (·.1))

theorem Running.mem_ids (hp : h.Running id p) : id ∈ h.ids := by
  obtain ⟨before, since, rfl, -⟩ := hp
  exact List.mem_filterMap.2 ⟨_, List.mem_append_right _ List.mem_cons_self, rfl⟩

theorem not_running_nil : ¬ Running [] id p := fun hp => List.not_mem_nil hp.mem_ids

/-- A process runs after a call if the call registered it, or if it ran before and the call did not
complete it. -/
theorem running_concat : Running (h ++ [(call, answer)]) id p ↔
    call = .add p.database p.sql ∧ answer = .registered id ∧ p.cancelled = false ∨
    call ≠ .complete id ∧ ∃ flag, h.Running id { p with cancelled := flag } ∧
      (p.cancelled = true ↔ flag = true ∨ call = .cancel id) := by
  constructor
  · rintro ⟨before, since, hh, hcomplete, hflag⟩
    rcases List.eq_nil_or_concat since with rfl | ⟨since, last, rfl⟩
    · obtain ⟨rfl, hlast⟩ := List.append_inj' hh rfl
      obtain ⟨hcall, hanswer⟩ := Prod.mk.inj (List.cons.inj hlast).1
      exact .inl ⟨hcall, hanswer, by simpa using hflag⟩
    · rw [List.concat_eq_append] at hh hcomplete hflag
      rw [← List.cons_append, ← List.append_assoc] at hh
      obtain ⟨rfl, hlast⟩ := List.append_inj' hh rfl
      obtain rfl := (List.cons.inj hlast).1
      rw [List.map_append, List.mem_append, not_or] at hcomplete
      rw [List.map_append, List.mem_append] at hflag
      refine .inr ⟨fun hc => hcomplete.2 (by simp [hc]), decide (.cancel id ∈ since.map (·.1)),
        ⟨before, since, rfl, hcomplete.1, decide_eq_true_iff⟩, ?_⟩
      rw [hflag, decide_eq_true_iff]
      simp [eq_comm]
  · rintro (⟨rfl, rfl, hflag⟩ | ⟨hcall, flag, ⟨before, since, rfl, hcomplete, hsince⟩, hflag⟩)
    · exact ⟨h, [], rfl, List.not_mem_nil, by simp [hflag]⟩
    · refine ⟨before, since ++ [(call, answer)], by simp, ?_, ?_⟩
      · rw [List.map_append, List.mem_append, not_or]
        exact ⟨hcomplete, by simpa using Ne.symm hcall⟩
      · rw [hflag, hsince, List.map_append, List.mem_append]
        simp [eq_comm]

theorem ids_concat (h : ProcessHistory) (call : ProcessCall) (answer : ProcessAnswer) :
    (h ++ [(call, answer)]).ids =
      h.ids ++ (match answer with | .registered id => [id] | _ => []) := by
  rw [ids, List.filterMap_append, ← ids]
  cases answer <;> rfl

/-- The registry has the processes that run by its history, and the ids have the numbers up to the next
one. -/
structure Tracks (h : ProcessHistory) (ps : Processes) : Prop where
  next : ps.next = UInt64.ofNat (h.ids.length + 1)
  numbered : h.ids = (List.range h.ids.length).map fun k => Processes.idOf (UInt64.ofNat (k + 1))
  running : ∀ id p, ps.running.get? id = some p ↔ h.Running id p

theorem idOf_ofNat_inj {m n : Nat} (hm : m < 2 ^ 64) (hn : n < 2 ^ 64)
    (h : Processes.idOf (UInt64.ofNat m) = Processes.idOf (UInt64.ofNat n)) : m = n := by
  have hnumber := congrArg UInt64.toNat (Processes.idOf_injective h)
  rwa [UInt64.toNat_ofNat', UInt64.toNat_ofNat', Nat.mod_eq_of_lt hm, Nat.mod_eq_of_lt hn] at hnumber

namespace Tracks

theorem ids_nodup (ht : h.Tracks ps) (hlen : h.ids.length < 2 ^ 64) : h.ids.Nodup := by
  rw [ht.numbered]
  refine List.Nodup.map_on (fun j hj k hk he => ?_) List.nodup_range
  rw [List.mem_range] at hj hk
  have hnumber := idOf_ofNat_inj (by omega) (by omega) he
  omega

theorem next_not_mem (ht : h.Tracks ps) (hlen : h.ids.length + 1 < 2 ^ 64) :
    Processes.idOf ps.next ∉ h.ids := by
  intro hmem
  rw [ht.numbered, List.mem_map, ht.next] at hmem
  obtain ⟨k, hk, he⟩ := hmem
  rw [List.mem_range] at hk
  have hnumber := idOf_ofNat_inj (by omega) hlen he
  omega

theorem add (ht : h.Tracks ps) (hlen : h.ids.length + 1 < 2 ^ 64) (database sql : String) :
    Tracks (h ++ [(.add database sql, .registered (Processes.idOf ps.next))])
      (ps.add database sql).2 where
  next := by
    change ps.next + 1 = _
    rw [ht.next, ids_concat, List.length_append]
    exact (UInt64.ofNat_add (h.ids.length + 1) 1).symm
  numbered := by
    rw [ids_concat, List.length_append, List.length_singleton, List.range_succ, List.map_append,
      ← ht.numbered, ht.next, List.map_singleton]
  running := by
    intro id p
    change (ps.running.insert _ _).get? id = some p ↔ _
    rw [running_concat]
    by_cases hid : id = Processes.idOf ps.next
    · rw [hid, NameMap.get?_insert_self, Option.some.injEq]
      constructor
      · rintro rfl
        exact .inl ⟨rfl, rfl, rfl⟩
      · rintro (⟨hcall, -, hflag⟩ | ⟨-, flag, hold, -⟩)
        · obtain ⟨rfl, rfl⟩ := ProcessCall.add.inj hcall
          rw [← hflag]
        · exact absurd hold.mem_ids (ht.next_not_mem hlen)
    · rw [NameMap.get?_insert_of_ne _ _ hid, ht.running]
      simp [Ne.symm hid]

/-- A call that registers nothing keeps the numbers. -/
theorem unregistered {ps' : Processes} (ht : h.Tracks ps)
    (hanswer : ∀ id, answer ≠ .registered id) (hnext : ps'.next = ps.next)
    (hrunning : ∀ id p, ps'.running.get? id = some p ↔
      call ≠ .complete id ∧ ∃ flag, ps.running.get? id = some { p with cancelled := flag } ∧
        (p.cancelled = true ↔ flag = true ∨ call = .cancel id)) :
    Tracks (h ++ [(call, answer)]) ps' := by
  have hids : (h ++ [(call, answer)]).ids = h.ids := by
    rw [ids_concat]
    cases answer with
    | registered id => exact absurd rfl (hanswer id)
    | _ => exact List.append_nil _
  refine ⟨?_, ?_, fun id p => ?_⟩
  · rw [hnext, ht.next, hids]
  · rw [hids]
    exact ht.numbered
  · simp only [hrunning, ht.running, running_concat, hanswer, false_and, and_false, false_or]

theorem complete (ht : h.Tracks ps) (id : String) :
    Tracks (h ++ [(.complete id, .completed)]) (ps.complete id) := by
  refine ht.unregistered (fun _ => by simp) rfl fun other p => ?_
  change (ps.running.erase id).get? other = some p ↔ _
  by_cases hid : other = id
  · simp [hid, NameMap.get?_erase_self]
  · rw [NameMap.get?_erase_of_ne hid]
    simp [Ne.symm hid]

theorem check (ht : h.Tracks ps) (id : String) (result : Except ExecutionError Unit) :
    Tracks (h ++ [(.check id, .checked result)]) ps :=
  ht.unregistered (fun _ => by simp) rfl fun other p => by simp

theorem list (ht : h.Tracks ps) (processes : List (String × Process)) :
    Tracks (h ++ [(.list, .listed processes)]) ps :=
  ht.unregistered (fun _ => by simp) rfl fun id p => by simp

theorem cancel_none (ht : h.Tracks ps) (hnone : ps.running.get? id = none) (found : Bool) :
    Tracks (h ++ [(.cancel id, .cancelled found)]) ps := by
  refine ht.unregistered (fun _ => by simp) rfl fun other p => ?_
  by_cases hid : other = id
  · simp [hid, hnone]
  · simp [Ne.symm hid]

theorem cancel_some (ht : h.Tracks ps) (hp : ps.running.get? id = some p) (found : Bool) :
    Tracks (h ++ [(.cancel id, .cancelled found)])
      { ps with running := ps.running.insert id { p with cancelled := true } } := by
  refine ht.unregistered (fun _ => by simp) rfl fun other q => ?_
  change (ps.running.insert id _).get? other = some q ↔ _
  by_cases hid : other = id
  · rw [hid, NameMap.get?_insert_self, hp]
    obtain ⟨database, sql, flag⟩ := p
    obtain ⟨database', sql', flag'⟩ := q
    simp [eq_comm, and_assoc]
  · rw [NameMap.get?_insert_of_ne _ _ hid]
    simp [Ne.symm hid]

/-- Every call of the registry keeps it in step with the history. -/
theorem run {ω : Type} {s : Session ω} (ht : h.Tracks s.processes)
    (hlen : h.ids.length + 1 < 2 ^ 64) (call : ProcessCall) :
    Tracks (h ++ [(call, (call.run s).1)]) (call.run s).2.processes := by
  cases call with
  | add database sql =>
    rw [ProcessCall.run_add]
    exact ht.add hlen database sql
  | cancel id =>
    rw [ProcessCall.run_cancel]
    cases hget : s.processes.running.get? id with
    | none =>
      rw [Session.cancel_of_none (Processes.cancel?_eq_none hget)]
      exact ht.cancel_none hget false
    | some p =>
      rw [Session.cancel_of_some (Processes.cancel?_of_get? hget)]
      exact ht.cancel_some hget true
  | check id =>
    rw [ProcessCall.run_check, Session.check_apply]
    exact ht.check id _
  | complete id =>
    rw [ProcessCall.run_complete]
    exact ht.complete id
  | list =>
    rw [ProcessCall.run_list]
    exact ht.list s.processes.list

end Tracks

end ProcessHistory

namespace ProcessCall

variable {ω : Type}

theorem map_history (s₀ : Session ω) (calls : List ProcessCall) :
    (history s₀ calls).1.map (·.1) = calls := by
  induction calls using List.reverseRecOn with
  | nil => rfl
  | append_singleton calls call ih =>
    rw [history_concat, List.map_append, ih]
    rfl

theorem length_ids_le (s₀ : Session ω) (calls : List ProcessCall) :
    (history s₀ calls).1.ids.length ≤ calls.length := by
  have hlength := congrArg List.length (map_history s₀ calls)
  rw [List.length_map] at hlength
  exact hlength ▸ List.length_filterMap_le _ _

theorem tracks_history {s₀ : Session ω} (hempty : s₀.processes = .empty) {calls : List ProcessCall}
    (hcalls : calls.length < 2 ^ 64) :
    (history s₀ calls).1.Tracks (history s₀ calls).2.processes := by
  induction calls using List.reverseRecOn with
  | nil =>
    change ProcessHistory.Tracks [] s₀.processes
    rw [hempty]
    exact ⟨rfl, rfl, fun id p => iff_of_false (by simp [Processes.empty, NameMap.get?])
      ProcessHistory.not_running_nil⟩
  | append_singleton calls call ih =>
    rw [List.length_append, List.length_singleton] at hcalls
    have hlen := length_ids_le s₀ calls
    rw [history_concat]
    exact (ih (by omega)).run (by omega) call

/-- A call reports nothing but a cancellation that found its process. -/
theorem events_run (call : ProcessCall) (s : Session ω) : (call.run s).2.events =
    s.events ++ ProcessHistory.cancellations [(call, (call.run s).1)] := by
  cases call with
  | add database sql => exact (List.append_nil _).symm
  | cancel id =>
    rw [run_cancel]
    cases hcancel : s.processes.cancel? id with
    | none =>
      rw [Session.cancel_of_none hcancel]
      exact (List.append_nil _).symm
    | some processes =>
      rw [Session.cancel_of_some hcancel]
      rfl
  | check id =>
    rw [run_check, Session.check_apply]
    exact (List.append_nil _).symm
  | complete id => exact (List.append_nil _).symm
  | list => exact (List.append_nil _).symm

theorem events_history (s₀ : Session ω) (calls : List ProcessCall) :
    (history s₀ calls).2.events = s₀.events ++ (history s₀ calls).1.cancellations := by
  induction calls using List.reverseRecOn with
  | nil => exact (List.append_nil _).symm
  | append_singleton calls call ih =>
    rw [history_concat, events_run, ih, List.append_assoc, ProcessHistory.cancellations,
      ProcessHistory.cancellations, ProcessHistory.cancellations, List.filterMap_append]

end ProcessCall

/-- What a registry has after these calls, and what the calls that can come next answer and do. -/
structure TracksLive {ω : Type} (s₀ : Session ω) (calls : List ProcessCall) (h : ProcessHistory)
    (s : Session ω) : Prop where
  made : h.map (·.1) = calls
  /-- No id is given twice, whatever has completed. -/
  distinct : h.ids.Nodup
  listed : ∀ id p, (id, p) ∈ s.processes.list ↔ h.Running id p
  sorted : s.processes.list.Pairwise fun a b => a.1 < b.1
  events : s.events = s₀.events ++ h.cancellations
  /-- Cancelling a process that runs sets its flag and reports it. -/
  cancel : ∀ id p, h.Running id p → ∃ marked : Processes,
    Session.cancel id s = (true, ⟨marked, s.events ++ [.processCancelled id], s.world⟩) ∧
    marked.next = s.processes.next ∧
    ∀ e, e ∈ marked.list ↔ e = (id, { p with cancelled := true }) ∨ e ∈ s.processes.list ∧ e.1 ≠ id
  miss : ∀ id, (∀ p, ¬ h.Running id p) → Session.cancel id s = (false, s)
  stop : ∀ id p, h.Running id p → p.cancelled = true →
    Session.check id s = (.error (.cancelled id), s)
  goOn : ∀ id, (∀ p, h.Running id p → p.cancelled = false) → Session.check id s = (.ok (), s)

/-- After fewer than 2^64 calls a registry that was empty has the processes that were added and have
not completed, each under an id of its own; a cancellation finds these and no others, and a check stops
those of them that were cancelled. -/
theorem registry_tracks_live {ω : Type} (s₀ : Session ω) (hempty : s₀.processes = .empty)
    (calls : List ProcessCall) (hcalls : calls.length < 2 ^ 64) :
    TracksLive s₀ calls (ProcessCall.history s₀ calls).1 (ProcessCall.history s₀ calls).2 := by
  have htracks := ProcessCall.tracks_history hempty hcalls
  have hlen := ProcessCall.length_ids_le s₀ calls
  set h := (ProcessCall.history s₀ calls).1
  set s := (ProcessCall.history s₀ calls).2
  refine
    { made := ProcessCall.map_history s₀ calls
      distinct := htracks.ids_nodup (hlen.trans_lt hcalls)
      listed := fun id p => NameMap.get?_eq_some.symm.trans (htracks.running id p)
      sorted := s.processes.running.sorted
      events := ProcessCall.events_history s₀ calls
      cancel := ?_
      miss := ?_
      stop := ?_
      goOn := ?_ }
  · intro id p hp
    have hget := (htracks.running id p).2 hp
    have hmarked := Processes.cancel?_of_get? hget
    exact ⟨_, Session.cancel_of_some hmarked, rfl, fun e => NameMap.mem_insert⟩
  · intro id hnone
    have hget : s.processes.running.get? id = none :=
      Option.eq_none_iff_forall_ne_some.2 fun p hp => hnone p ((htracks.running id p).1 hp)
    exact Session.cancel_of_none (Processes.cancel?_eq_none hget)
  · intro id p hp hflag
    have hcancelled := Processes.isCancelled_iff.2 ⟨p, (htracks.running id p).2 hp, hflag⟩
    rw [Session.check_apply, if_pos hcancelled]
  · intro id hflags
    have hcancelled : ¬ s.processes.isCancelled id = true := by
      rw [Processes.isCancelled_iff]
      rintro ⟨p, hp, hflag⟩
      rw [hflags p ((htracks.running id p).1 hp)] at hflag
      cases hflag
    rw [Session.check_apply, if_neg hcancelled]

/-- Two statements that differ in how far they came, and a cancellation that comes too late. -/
def twoStatements : List ProcessCall :=
  [.add "shop" "SELECT 1", .add "shop" "SELECT 2", .cancel "process-1", .complete "process-2",
    .cancel "process-2", .add "shop" "SELECT 3"]

theorem registry_tracks_live_twoStatements :
    let s₀ : Session Unit := ⟨.empty, [], ()⟩
    s₀.processes = .empty ∧ twoStatements.length < 2 ^ 64 ∧
      TracksLive s₀ twoStatements (ProcessCall.history s₀ twoStatements).1
        (ProcessCall.history s₀ twoStatements).2 ∧
      (ProcessCall.history s₀ twoStatements).2.processes.list =
        [("process-1", ⟨"shop", "SELECT 1", true⟩), ("process-3", ⟨"shop", "SELECT 3", false⟩)] ∧
      (ProcessCall.history s₀ twoStatements).2.events = [.processCancelled "process-1"] :=
  ⟨rfl, by decide, registry_tracks_live ⟨.empty, [], ()⟩ rfl twoStatements (by decide),
    by decide +kernel, by decide +kernel⟩

end ShardedSql
