import ShardedSql.Proofs.Parallel
import ShardedSql.Proofs.Processes

/-! Once a process was cancelled its groups are refused. That holds as long as the process has not
completed: a call that fails early completes it while groups are still in the queue, and those reach
their data sources after all. -/

namespace ShardedSql

open Executor

variable {ω α β : Type}

namespace ParallelCall

variable {workers : Nat} {groups : List (List α)} {callback : Callback ω α β} {id : String}
  {s t u : State ω β} {a : Action}

/-- The statement is not registered yet. -/
def Stage.IsIdle (stage : Stage β) : Prop := ∃ database sql, stage = .idle database sql

/-- The call is over and its process has completed. -/
def Stage.IsCompleted (stage : Stage β) : Prop := ∃ answer, stage = .completed answer

/-- What a step does to the registry of processes: besides the caller, who registers and completes its
process, only the operator changes it. -/
inductive Touches (s t : State ω β) : Action → Prop
  | register (hidle : s.stage.IsIdle) (hstage : t.stage = .submitting 0) : Touches s t .register
  | complete (hid : t.processId = s.processId) (hstage : t.stage.IsCompleted)
    (hprocesses : t.session.processes = s.session.processes.complete s.processId) :
    Touches s t .complete
  | cancel (hid : t.processId = s.processId) (hstage : t.stage = s.stage) (hidle : ¬ s.stage.IsIdle)
    (hsession : t.session = (Session.cancel s.processId s.session).2) : Touches s t .cancel
  | none {a : Action} (hid : t.processId = s.processId) (hidle : t.stage.IsIdle → s.stage.IsIdle)
    (hstage : t.stage.IsCompleted ↔ s.stage.IsCompleted)
    (hprocesses : t.session.processes = s.session.processes) : Touches s t a

theorem touches_of_step
    (hcallback : ∀ group own s, (callback group own s).2.processes = s.processes)
    (hstep : Step (Driver.parallelCall workers groups callback) s a t) : Touches s t a := by
  cases hstep with
  | register hs => exact .register ⟨_, _, hs⟩ rfl
  | submit hs _ | firstDone hs | received hs _ _ =>
    exact .none rfl (by simp [Stage.IsIdle]) (by simp [Stage.IsCompleted, hs]) rfl
  | noGroups hs _ | firstFailed hs | receivedAll hs | receivedError hs _ _ =>
    exact .none rfl (by simp [Stage.IsIdle, State.giveBack])
      (by simp [Stage.IsCompleted, State.giveBack, hs]) rfl
  | startFirst _ hs =>
    refine .none rfl (by simp [Stage.IsIdle]) (by simp [Stage.IsCompleted, hs]) ?_
    exact Driver.cancellable_processes hcallback _ true s.session
  | complete hs => exact .complete rfl ⟨_, rfl⟩ rfl
  | start hqueued hfree =>
    exact .none rfl id .rfl (Driver.cancellable_processes hcallback _ false s.session)
  | finish hrunning => exact .none rfl id .rfl rfl
  | cancel hs => exact .cancel rfl rfl (by simpa [Stage.IsIdle] using hs) rfl

/-- A process that has completed is not in the registry. -/
def Gone (s : State ω β) : Prop :=
  s.stage.IsCompleted → s.session.processes.running.get? s.processId = none

theorem Gone.step (h : Gone s) (htouches : Touches s t a) : Gone t := by
  intro hcompleted
  cases htouches with
  | register _ hstage =>
    rw [hstage] at hcompleted
    obtain ⟨answer, hcompleted⟩ := hcompleted
    cases hcompleted
  | complete hid _ hprocesses =>
    rw [hid, hprocesses]
    exact Processes.get?_complete _ _
  | cancel hid hstage _ hsession =>
    rw [hstage] at hcompleted
    rw [hid, hsession, Session.cancel_of_none (Processes.cancel?_eq_none (h hcompleted))]
    exact h hcompleted
  | none hid _ hstage hprocesses =>
    rw [hid, hprocesses]
    exact h (hstage.1 hcompleted)

/-- Until it completes, a process that was cancelled is marked in the registry. -/
structure Marked (id : String) (s : State ω β) : Prop where
  processId : s.processId = id
  registered : ¬ s.stage.IsIdle
  cancelled : ¬ s.stage.IsCompleted → s.session.processes.isCancelled id = true

theorem Marked.step (h : Marked id s) (htouches : Touches s t a) : Marked id t := by
  cases htouches with
  | register hidle _ => exact absurd hidle h.registered
  | complete hid hstage _ =>
    refine ⟨hid.trans h.processId, ?_, fun hnot => absurd hstage hnot⟩
    obtain ⟨answer, hstage⟩ := hstage
    simp [Stage.IsIdle, hstage]
  | cancel hid hstage hidle hsession =>
    refine ⟨hid.trans h.processId, hstage ▸ hidle, ?_⟩
    intro hnot
    rw [hstage] at hnot
    rw [hsession, h.processId]
    cases hcancel : s.session.processes.cancel? id with
    | none =>
      rw [Session.cancel_of_none hcancel]
      exact h.cancelled hnot
    | some processes =>
      rw [Session.cancel_of_some hcancel]
      exact Processes.isCancelled_of_cancel? hcancel
  | none hid hidle hstage hprocesses =>
    refine ⟨hid.trans h.processId, fun ht => h.registered (hidle ht), ?_⟩
    rw [hstage, hprocesses]
    exact h.cancelled

/-- Some time before a state was reached the operator was told that the process is cancelled. -/
def WasCancelled (c : ParallelCall ω α β) (start : State ω β) (id : String) (t : State ω β) : Prop :=
  ∃ before s after, c.run? start before = some s ∧ s.processId = id ∧
    (Session.cancel id s.session).1 = true ∧ c.run? s (.cancel :: after) = some t

section Refusal

variable {session : Session ω} {database sql : String}

theorem accounted_of_wasCancelled {c : ParallelCall ω α β}
    (h : c.WasCancelled (.idle session database sql) id t) : c.Accounted t := by
  obtain ⟨before, s, after, hbefore, -, -, hafter⟩ := h
  exact ((accounted_idle c session database sql).run hbefore).run hafter

variable (hcallback : ∀ group own s, (callback group own s).2.processes = s.processes)
include hcallback

theorem keeps_of_touches {I : State ω β → Prop} {actions : List Action}
    (hI : ∀ {s t a}, I s → Touches s t a → I t) (hs : I s)
    (hrun : (Driver.parallelCall workers groups callback).run? s actions = some t) : I t := by
  apply run?_keeps (Q := fun _ => True) _ (by simp) hs hrun
  intro s a t _ hs hstep
  exact hI hs (touches_of_step hcallback hstep)

theorem marked_of_wasCancelled
    (h : (Driver.parallelCall workers groups callback).WasCancelled (.idle session database sql) id t) :
    Gone t ∧ Marked id t := by
  obtain ⟨before, s, after, hbefore, rfl, hcancelled, hafter⟩ := h
  obtain ⟨u, hcancel, hafter⟩ := run?_cons.1 hafter
  have hs : Gone s := by
    apply keeps_of_touches hcallback Gone.step _ hbefore
    rintro ⟨answer, hanswer⟩
    cases hanswer
  have hmarked : Marked s.processId u := by
    have htouches := touches_of_step hcallback hcancel
    cases hcancel with
    | cancel hidle =>
      refine ⟨rfl, by simpa [Stage.IsIdle] using hidle, fun _ => ?_⟩
      cases hfound : s.session.processes.cancel? s.processId with
      | none =>
        rw [Session.cancel_of_none hfound] at hcancelled
        cases hcancelled
      | some processes =>
        rw [Session.cancel_of_some hfound]
        exact Processes.isCancelled_of_cancel? hfound
  have hu : Gone u := hs.step (touches_of_step hcallback hcancel)
  exact ⟨keeps_of_touches hcallback Gone.step hu hafter,
    keeps_of_touches hcallback Marked.step hmarked hafter⟩

/-- Until the call has completed, a worker that takes a group refuses it. -/
theorem start_refused
    (h : (Driver.parallelCall workers groups callback).WasCancelled (.idle session database sql) id t)
    (hcompleted : ¬ t.stage.IsCompleted) {place : Nat}
    (hstep : Step (Driver.parallelCall workers groups callback) t (.start place) u) :
    u.session = t.session ∧ u.running = t.running ++ [(place, .error (.cancelled id))] := by
  obtain ⟨-, hmarked⟩ := marked_of_wasCancelled hcallback h
  have hrefused := Driver.cancellable_of_cancelled (hmarked.cancelled hcompleted) callback
  cases hstep with
  | start hqueued hfree =>
    simp [Driver.parallelCall, hmarked.processId, call_apply, hrefused, Outcome.result]

/-- The caller refuses the first group. -/
theorem startFirst_refused
    (h : (Driver.parallelCall workers groups callback).WasCancelled (.idle session database sql) id t)
    (hgroups : groups ≠ [])
    (hstep : Step (Driver.parallelCall workers groups callback) t .startFirst u) :
    u.session = t.session ∧ u.stage = .running (.error (.cancelled id)) := by
  obtain ⟨-, hmarked⟩ := marked_of_wasCancelled hcallback h
  cases hstep with
  | noGroups hs hnone => exact absurd hnone hgroups
  | startFirst hsome hs =>
    have hcompleted : ¬ t.stage.IsCompleted := by simp [Stage.IsCompleted, hs]
    have hrefused := Driver.cancellable_of_cancelled (hmarked.cancelled hcompleted) callback
    simp [Driver.parallelCall, hmarked.processId, call_apply, hrefused, Outcome.result]

/-- Once the call has completed, after a failure, it runs it. -/
theorem start_unrefused
    (h : (Driver.parallelCall workers groups callback).WasCancelled (.idle session database sql) id t)
    (hcompleted : t.stage.IsCompleted) {place : Nat}
    (hstep : Step (Driver.parallelCall workers groups callback) t (.start place) u) :
    (∃ e, t.stage = .completed (.error e)) ∧
      u.session = (callback (groups.tail[place]?.getD []) false t.session).2 ∧
      u.running = t.running ++
        [(place, (callback (groups.tail[place]?.getD []) false t.session).1.result)] := by
  obtain ⟨hgone, hmarked⟩ := marked_of_wasCancelled hcallback h
  have hruns := Driver.cancellable_of_running
    (Processes.isCancelled_of_get?_eq_none (hgone hcompleted)) callback
  cases hstep with
  | start hqueued hfree =>
    refine ⟨?_, ?_⟩
    · obtain ⟨answer, hanswer⟩ := hcompleted
      cases answer with
      | error e => exact ⟨e, hanswer⟩
      | ok outputs =>
        have hresult : t.result? = some (.ok outputs) := by rw [State.result?, hanswer]
        exact absurd hqueued ((accounted_of_wasCancelled h).not_queued hresult place)
    · simp [Driver.parallelCall, call_apply, groupAt, hruns]

end Refusal

/-- With a worker and a second group, the call can complete before the worker takes that group: the
caller hands it to the pool, refuses the first one and is done. -/
theorem exists_late_start (hworkers : 0 < workers) (hgroups : 1 < groups.length)
    (callback : Callback ω α β) (session : Session ω) (database sql : String) :
    ∃ id t u, (Driver.parallelCall workers groups callback).WasCancelled
        (.idle session database sql) id t ∧ t.stage.IsCompleted ∧
      Step (Driver.parallelCall workers groups callback) t (.start 0) u := by
  set c := Driver.parallelCall workers groups callback with hc
  obtain ⟨group, groups, rfl⟩ : ∃ group groups', groups = group :: groups' :=
    List.exists_cons_of_ne_nil (by rintro rfl; simp at hgroups)
  simp only [List.length_cons] at hgroups
  set id := (Session.add database sql session).1 with hid
  set registered := (Session.add database sql session).2 with hregistered
  obtain ⟨processes, hprocesses⟩ : ∃ processes, registered.processes.cancel? id = some processes := by
    have hfound : registered.processes.running.get? id = some ⟨database, sql, false⟩ :=
      NameMap.get?_insert_self _ _ _
    exact ⟨_, by rw [Processes.cancel?, hfound]; rfl⟩
  have hcancelled := Session.cancel_of_some hprocesses
  set cancelled : Session ω := (Session.cancel id registered).2 with hsession
  have hregister : Step c (.idle session database sql) .register (.ready registered id) :=
    .register rfl
  have hcancel : Step c (.ready registered id) .cancel (.ready cancelled id) :=
    .cancel (by simp [State.ready])
  have hmarked : cancelled.processes.isCancelled id = true := by
    rw [hsession, hcancelled]
    exact Processes.isCancelled_of_cancel? hprocesses
  -- the first group is refused, and the caller does not wait for the others
  have hfirst : Step c ⟨cancelled, id, .submitting groups.length, List.range groups.length, [], []⟩
      .startFirst ⟨cancelled, id, .running (.error (.cancelled id)), List.range groups.length, [], []⟩ := by
    have hstep : Step c ⟨cancelled, id, .submitting groups.length, List.range groups.length, [], []⟩
        .startFirst _ := .startFirst rfl rfl
    have hrefused := Driver.cancellable_of_cancelled hmarked callback group true
    simpa [hc, Driver.parallelCall, call_apply, hrefused, Outcome.result] using hstep
  have hfailed : Step c
      ⟨cancelled, id, .running (.error (.cancelled id)), List.range groups.length, [], []⟩ .finishFirst
      (State.giveBack _ (.error (.cancelled id))) := .firstFailed rfl
  have hcomplete := Step.complete (c := c) (s := State.giveBack
    ⟨cancelled, id, .running (.error (.cancelled id)), List.range groups.length, [], []⟩
    (.error (.cancelled id))) rfl
  obtain ⟨after, -, hafter⟩ := (reaches_submitted cancelled id le_rfl).trans
    ((hfirst.reaches (by simp)).trans
      ((hfailed.reaches (by simp)).trans (hcomplete.reaches (by simp))))
  refine ⟨id, _, _, ⟨[.register], _, after, run?_cons.2 ⟨_, hregister, rfl⟩, rfl, ?_,
    run?_cons.2 ⟨_, hcancel, hafter⟩⟩, ⟨_, rfl⟩, .start ?_ ?_⟩
  · exact congrArg Prod.fst hcancelled
  · simpa [State.giveBack] using hgroups
  · exact hworkers

end ParallelCall

/-- A group of a process that was cancelled is refused, without a call of the callback, as long as the
process has not completed. A group that starts later reaches the callback, and with a worker and a
second group that happens in some order of the steps. -/
theorem cancelled_group_refused_iff (workers : Nat) (groups : List (List α))
    {callback : Callback ω α β}
    (hcallback : ∀ group own s, (callback group own s).2.processes = s.processes)
    (session : Session ω) (database sql : String) :
    let call := Driver.parallelCall workers groups callback
    let start : ParallelCall.State ω β := .idle session database sql
    (∀ id t u place, call.WasCancelled start id t → call.step? t (.start place) = some u →
      (¬ t.stage.IsCompleted → u.session = t.session ∧
        u.running = t.running ++ [(place, .error (.cancelled id))]) ∧
      (t.stage.IsCompleted → (∃ e, t.stage = .completed (.error e)) ∧
        u.session = (callback (call.groupAt place) false t.session).2 ∧
        u.running = t.running ++
          [(place, (callback (call.groupAt place) false t.session).1.result)])) ∧
    (∀ id t u, call.WasCancelled start id t → call.step? t .startFirst = some u → groups ≠ [] →
      u.session = t.session ∧ u.stage = .running (.error (.cancelled id))) ∧
    ((∃ id t u place, call.WasCancelled start id t ∧ t.stage.IsCompleted ∧
      call.step? t (.start place) = some u) ↔ 0 < workers ∧ 1 < groups.length) := by
  intro call start
  refine ⟨?_, ?_, ?_, ?_⟩
  · intro id t u place h hstep
    have hstep := ParallelCall.step_of_step? hstep
    exact ⟨fun hnot => ParallelCall.start_refused hcallback h hnot hstep,
      fun hcompleted => ParallelCall.start_unrefused hcallback h hcompleted hstep⟩
  · intro id t u h hstep hgroups
    exact ParallelCall.startFirst_refused hcallback h hgroups (ParallelCall.step_of_step? hstep)
  · rintro ⟨id, t, u, place, h, -, hstep⟩
    cases ParallelCall.step_of_step? hstep with
    | start hqueued hfree =>
      have hlt := (ParallelCall.accounted_of_wasCancelled h).lt_of_queued hqueued
      have hlength := List.length_tail (l := groups)
      refine ⟨Nat.zero_lt_of_lt hfree, ?_⟩
      simp only [call, Driver.parallelCall] at hlt
      omega
  · rintro ⟨hworkers, hgroups⟩
    obtain ⟨id, t, u, h, hcompleted, hstep⟩ :=
      ParallelCall.exists_late_start hworkers hgroups callback session database sql
    exact ⟨id, t, u, 0, h, hcompleted, ParallelCall.step?_of_step hstep⟩

/-- A callback that keeps the groups it was called with. -/
def noted : Callback (List (List Nat)) Nat Nat := fun group _ session =>
  (.done group, { session with world := session.world ++ [group] })

theorem cancelled_group_refused_iff_pair :
    (∀ group own session, (noted group own session).2.processes = session.processes) ∧
    ∃ id t u place,
      (Driver.parallelCall 1 [[1], [2]] noted).WasCancelled
        (.idle ⟨.empty, [], []⟩ "shop" "SELECT 1") id t ∧
      (Driver.parallelCall 1 [[1], [2]] noted).step? t (.start place) = some u ∧
      ∃ e, t.stage = .completed (.error e) := by
  have hnoted : ∀ group own session, (noted group own session).2.processes = session.processes :=
    fun _ _ _ => rfl
  obtain ⟨hstart, -, hlate⟩ :=
    cancelled_group_refused_iff 1 [[1], [2]] hnoted ⟨.empty, [], []⟩ "shop" "SELECT 1"
  obtain ⟨id, t, u, place, h, hcompleted, hstep⟩ := hlate.2 (by decide)
  exact ⟨hnoted, id, t, u, place, h, hstep, ((hstart id t u place h hstep).2 hcompleted).1⟩

/-- The second of two groups reaches its callback after the process was cancelled. -/
theorem late_group_runs_cancelled :
    let call := Driver.parallelCall 1 [[1], [2]] noted
    let start : ParallelCall.State (List (List Nat)) Nat := .idle ⟨.empty, [], []⟩ "shop" "SELECT 1"
    ∃ s t, call.run? start [.register, .submit] = some s ∧
      (Session.cancel s.processId s.session).1 = true ∧
      call.run? s [.cancel, .startFirst, .finishFirst, .complete, .start 0] = some t ∧
      t.session.world = [[2]] ∧ t.running = [(0, .ok [2])] :=
  ⟨_, _, rfl, rfl, rfl, rfl, rfl⟩

end ShardedSql
