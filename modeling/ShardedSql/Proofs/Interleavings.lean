import ShardedSql.Execution.Interleaving
import ShardedSql.Proofs.NameMaps

/-! However the steps of a parallel call are interleaved, every group behind the first one is in one
place: in the queue, with a worker, or finished. So the call can always go on until the caller has its
result, and it takes a bounded number of steps. -/

namespace ShardedSql.ParallelCall

variable {ω α β : Type} {c : ParallelCall ω α β} {s t : State ω β} {a : Action}

/-- The steps of a call, with what allows each of them. -/
inductive Step (c : ParallelCall ω α β) (s : State ω β) : Action → State ω β → Prop
  | register {database sql : String} (hstage : s.stage = .idle database sql) :
    Step c s .register
      { s with
        session := (Session.add database sql s.session).2
        processId := (Session.add database sql s.session).1
        stage := .submitting 0 }
  | submit {count : Nat} (hstage : s.stage = .submitting count)
    (hlt : count < c.groups.tail.length) :
    Step c s .submit { s with stage := .submitting (count + 1), queued := s.queued ++ [count] }
  | noGroups {count : Nat} (hstage : s.stage = .submitting count) (hgroups : c.groups = []) :
    Step c s .startFirst (s.giveBack (.ok []))
  | startFirst {group : List α} {groups : List (List α)} (hgroups : c.groups = group :: groups)
    (hstage : s.stage = .submitting groups.length) :
    Step c s .startFirst
      { s with
        session := (Executor.call (c.first s.processId) group true s.session).2
        stage := .running (Executor.call (c.first s.processId) group true s.session).1 }
  | firstDone {outputs : List β} (hstage : s.stage = .running (.ok outputs)) :
    Step c s .finishFirst { s with stage := .collecting 0 outputs }
  | firstFailed {e : ExecutionError} (hstage : s.stage = .running (.error e)) :
    Step c s .finishFirst (s.giveBack (.error e))
  | receivedAll {outputs : List β} (hstage : s.stage = .collecting c.groups.tail.length outputs) :
    Step c s .receive (s.giveBack (.ok outputs))
  | received {place : Nat} {outputs more : List β} (hstage : s.stage = .collecting place outputs)
    (hne : place ≠ c.groups.tail.length) (hfinished : s.finished.lookup place = some (.ok more)) :
    Step c s .receive { s with stage := .collecting (place + 1) (outputs ++ more) }
  | receivedError {place : Nat} {outputs : List β} {e : ExecutionError}
    (hstage : s.stage = .collecting place outputs) (hne : place ≠ c.groups.tail.length)
    (hfinished : s.finished.lookup place = some (.error e)) :
    Step c s .receive (s.giveBack (.error (Executor.surfaced e)))
  | complete {result : Except ExecutionError (List β)} (hstage : s.stage = .returned result) :
    Step c s .complete
      { s with
        stage := .completed result
        session := (Session.complete s.processId s.session).2 }
  | start {place : Nat} (hqueued : place ∈ s.queued) (hfree : s.running.length < c.workers) :
    Step c s (.start place)
      { s with
        session := (Executor.call (c.callback s.processId) (c.groupAt place) false s.session).2
        queued := s.queued.erase place
        running := s.running ++
          [(place, (Executor.call (c.callback s.processId) (c.groupAt place) false s.session).1)] }
  | finish {place : Nat} {result : Except ExecutionError (List β)}
    (hrunning : s.running.lookup place = some result) :
    Step c s (.finish place)
      { s with
        running := s.running.filter (·.1 ≠ place)
        finished := s.finished ++ [(place, result)] }
  | cancel (hstage : ∀ database sql, s.stage ≠ .idle database sql) :
    Step c s .cancel { s with session := (Session.cancel s.processId s.session).2 }

theorem step_of_step? (h : c.step? s a = some t) : Step c s a t := by
  cases a with
  | register =>
    simp only [step?] at h
    split at h <;> cases h
    exact .register ‹_›
  | submit =>
    simp only [step?] at h
    split at h
    · split at h <;> cases h
      exact .submit ‹_› ‹_›
    · cases h
  | startFirst =>
    simp only [step?] at h
    split at h
    · cases h
      exact .noGroups ‹_› ‹_›
    · split at h <;> cases h
      rename_i hgroups hcount
      exact .startFirst hgroups (hcount ▸ ‹_›)
    · cases h
  | finishFirst =>
    simp only [step?] at h
    split at h <;> cases h
    · exact .firstDone ‹_›
    · exact .firstFailed ‹_›
  | receive =>
    simp only [step?] at h
    split at h
    · split at h
      · cases h
        rename_i hplace
        exact .receivedAll (hplace ▸ ‹_›)
      · split at h <;> cases h
        · exact .received ‹_› ‹_› ‹_›
        · exact .receivedError ‹_› ‹_› ‹_›
    · cases h
  | complete =>
    simp only [step?] at h
    split at h <;> cases h
    exact .complete ‹_›
  | start place =>
    simp only [step?] at h
    split at h <;> cases h
    rename_i hplace
    exact .start hplace.1 hplace.2
  | finish place =>
    simp only [step?] at h
    split at h <;> cases h
    exact .finish ‹_›
  | cancel =>
    simp only [step?] at h
    split at h <;> cases h
    rename_i hstage
    exact .cancel hstage

theorem step?_of_step (h : Step c s a t) : c.step? s a = some t := by
  cases h with
  | register hstage =>
    simp only [step?, hstage]
    rfl
  | submit hstage hlt => simp only [step?, hstage, if_pos hlt]
  | noGroups hstage hgroups => simp only [step?, hstage, hgroups]
  | startFirst hgroups hstage =>
    simp only [step?, hstage, hgroups, if_true]
    rfl
  | firstDone hstage => simp only [step?, hstage]
  | firstFailed hstage => simp only [step?, hstage]
  | receivedAll hstage => simp only [step?, hstage, if_true]
  | received hstage hne hfinished => simp only [step?, hstage, if_neg hne, hfinished]
  | receivedError hstage hne hfinished => simp only [step?, hstage, if_neg hne, hfinished]
  | complete hstage => simp only [step?, hstage]
  | start hqueued hfree =>
    simp only [step?, if_pos (And.intro hqueued hfree)]
    rfl
  | finish hrunning => simp only [step?, hrunning]
  | cancel hstage =>
    cases hs : s.stage with
    | idle database sql => exact absurd hs (hstage database sql)
    | _ => simp only [step?, hs]

theorem step?_eq_some : c.step? s a = some t ↔ Step c s a t := ⟨step_of_step?, step?_of_step⟩

section Run

variable {actions : List Action}

theorem run?_cons {u : State ω β} :
    c.run? s (a :: actions) = some u ↔ ∃ t, Step c s a t ∧ c.run? t actions = some u := by
  change (c.step? s a).bind (c.run? · actions) = some u ↔ _
  simp only [Option.bind_eq_some_iff, step?_eq_some]

theorem run?_append {later : List Action} :
    c.run? s (actions ++ later) = (c.run? s actions).bind (c.run? · later) :=
  List.foldlM_append

/-- What each of the actions keeps a run keeps. -/
theorem run?_keeps {Q : Action → Prop} {I : State ω β → Prop}
    (hkeep : ∀ {s a t}, Q a → I s → Step c s a t → I t) (hQ : ∀ a ∈ actions, Q a) (hs : I s)
    (hrun : c.run? s actions = some t) : I t := by
  induction actions generalizing s with
  | nil =>
    cases hrun
    exact hs
  | cons a actions ih =>
    obtain ⟨u, hstep, hrun⟩ := run?_cons.1 hrun
    have hu : I u := hkeep (hQ a List.mem_cons_self) hs hstep
    exact ih (fun b hb => hQ b (List.mem_cons_of_mem _ hb)) hu hrun

end Run

/-- How many groups behind the first one were handed to the pool. -/
def submitted (c : ParallelCall ω α β) : Stage β → Nat
  | .idle _ _ => 0
  | .submitting count => count
  | _ => c.groups.tail.length

/-- How many of their results the caller has received without an error. -/
def received (c : ParallelCall ω α β) : Stage β → Nat
  | .collecting place _ => place
  | .returned (.ok _) | .completed (.ok _) => c.groups.tail.length
  | _ => 0

/-- Every group that was handed to the pool is in the queue, with a worker or finished, and in one of
them only; those whose results the caller has received are finished. -/
structure Accounted (c : ParallelCall ω α β) (s : State ω β) : Prop where
  places : (s.queued ++ s.running.map (·.1) ++ s.finished.map (·.1)).Perm
    (List.range (c.submitted s.stage))
  submitted_le : c.submitted s.stage ≤ c.groups.tail.length
  received_le : c.received s.stage ≤ c.groups.tail.length
  finished : ∀ place < c.received s.stage, place ∈ s.finished.map (·.1)

theorem accounted_idle (c : ParallelCall ω α β) (session : Session ω) (database sql : String) :
    c.Accounted (.idle session database sql) where
  places := .refl _
  submitted_le := Nat.zero_le _
  received_le := Nat.zero_le _
  finished := fun _ h => absurd h (Nat.not_lt_zero _)

theorem accounted_ready (c : ParallelCall ω α β) (session : Session ω) (processId : String) :
    c.Accounted (.ready session processId) where
  places := .refl _
  submitted_le := Nat.zero_le _
  received_le := Nat.zero_le _
  finished := fun _ h => absurd h (Nat.not_lt_zero _)

/-- Where the caller goes on without touching the pool, the groups stay accounted for. -/
theorem Accounted.stage (h : c.Accounted s) (hqueued : t.queued = s.queued)
    (hrunning : t.running = s.running) (hfinished : t.finished = s.finished)
    (hsubmitted : c.submitted t.stage = c.submitted s.stage)
    (hreceived : c.received t.stage ≤ c.groups.tail.length)
    (hmem : ∀ place < c.received t.stage, place ∈ s.finished.map (·.1)) : c.Accounted t where
  places := by rw [hqueued, hrunning, hfinished, hsubmitted]; exact h.places
  submitted_le := hsubmitted ▸ h.submitted_le
  received_le := hreceived
  finished := hfinished ▸ hmem

theorem Accounted.unreceived (h : c.Accounted s) (hqueued : t.queued = s.queued)
    (hrunning : t.running = s.running) (hfinished : t.finished = s.finished)
    (hsubmitted : c.submitted t.stage = c.submitted s.stage) (hreceived : c.received t.stage = 0) :
    c.Accounted t := by
  apply h.stage hqueued hrunning hfinished hsubmitted
  · simp [hreceived]
  · simp [hreceived]

theorem Accounted.step (h : c.Accounted s) (hstep : Step c s a t) : c.Accounted t := by
  have hnodup := h.places.nodup_iff.2 List.nodup_range
  cases hstep with
  | register hstage | firstDone hstage | firstFailed hstage | receivedError hstage _ _ =>
    refine h.unreceived rfl rfl rfl ?_ rfl
    rw [hstage]
    rfl
  | @submit count hstage hlt =>
    have hplaces := h.places
    rw [hstage] at hplaces
    refine ⟨?_, hlt, Nat.zero_le _, fun _ h => absurd h (Nat.not_lt_zero _)⟩
    calc (s.queued ++ [count] ++ s.running.map (·.1) ++ s.finished.map (·.1)).Perm
          (s.queued ++ s.running.map (·.1) ++ s.finished.map (·.1) ++ [count]) := by
            simp only [List.append_assoc]
            exact List.perm_append_comm.append_left _ |>.trans (by simp)
      _ |>.Perm (List.range count ++ [count]) := hplaces.append_right _
      _ |>.Perm (List.range (count + 1)) := by rw [List.range_succ]
  | noGroups hstage hgroups =>
    have hnone : c.groups.tail.length = 0 := by rw [hgroups]; rfl
    have hle := h.submitted_le
    refine h.stage rfl rfl rfl ?_ le_rfl fun _ hlt => ?_
    · rw [hnone] at hle
      exact hnone.trans (Nat.le_zero.1 hle).symm
    · exact absurd (Nat.lt_of_lt_of_eq hlt hnone) (Nat.not_lt_zero _)
  | startFirst hgroups hstage =>
    refine h.unreceived rfl rfl rfl ?_ rfl
    simp only [submitted, hstage, hgroups, List.tail_cons]
  | receivedAll hstage =>
    have hfinished := h.finished
    rw [hstage] at hfinished
    refine h.stage rfl rfl rfl ?_ le_rfl hfinished
    rw [hstage]
    rfl
  | @received place outputs more hstage hne hfinished =>
    have hle := h.received_le
    have hmem := h.finished
    rw [hstage] at hle hmem
    refine h.stage rfl rfl rfl ?_ (Nat.lt_of_le_of_ne hle hne) fun i hi => ?_
    · rw [hstage]
      rfl
    · rcases Nat.lt_succ_iff_lt_or_eq.1 hi with hi | rfl
      · exact hmem i hi
      · exact List.mem_map_of_mem (mem_of_lookup hfinished)
  | @complete result hstage =>
    have hle := h.received_le
    have hmem := h.finished
    rw [hstage] at hle hmem
    cases result with
    | ok outputs =>
      refine h.stage rfl rfl rfl ?_ hle hmem
      rw [hstage]
      rfl
    | error e =>
      refine h.unreceived rfl rfl rfl ?_ rfl
      rw [hstage]
      rfl
  | @start place hqueued hfree =>
    refine ⟨?_, h.submitted_le, h.received_le, h.finished⟩
    refine List.Perm.trans ?_ h.places
    have hmove : (s.queued.erase place ++ (s.running.map (·.1) ++ [place])).Perm
        (s.queued ++ s.running.map (·.1)) := by
      refine List.Perm.trans ?_ ((List.perm_cons_erase hqueued).symm.append_right _)
      rw [← List.append_assoc]
      exact List.perm_append_singleton place _
    simpa using hmove.append_right (s.finished.map (·.1))
  | @finish place result hrunning =>
    have hplace : place ∈ s.running.map (·.1) := List.mem_map_of_mem (mem_of_lookup hrunning)
    have hmove : ((s.running.map (·.1)).erase place ++ (s.finished.map (·.1) ++ [place])).Perm
        (s.running.map (·.1) ++ s.finished.map (·.1)) := by
      refine List.Perm.trans ?_ ((List.perm_cons_erase hplace).symm.append_right _)
      rw [← List.append_assoc]
      exact List.perm_append_singleton place _
    have herase : (s.running.filter (·.1 ≠ place)).map (·.1) = (s.running.map (·.1)).erase place := by
      rw [(hnodup.of_append_left.of_append_right).erase_eq_filter, List.filter_map]
      simp [Function.comp_def, bne, Bool.beq_eq_decide_eq]
    refine ⟨?_, h.submitted_le, h.received_le, fun i hi => ?_⟩
    · refine List.Perm.trans ?_ h.places
      rw [herase, List.append_assoc, List.append_assoc]
      simpa using hmove.append_left s.queued
    · rw [List.map_append]
      exact List.mem_append_left _ (h.finished i hi)
  | cancel hstage => exact h.stage rfl rfl rfl rfl h.received_le h.finished

theorem Accounted.run {actions : List Action} (h : c.Accounted s)
    (hrun : c.run? s actions = some t) : c.Accounted t :=
  run?_keeps (Q := fun _ => True) (fun _ hs hstep => hs.step hstep) (by simp) h hrun

theorem Accounted.lt_of_queued {place : Nat} (h : c.Accounted s) (hplace : place ∈ s.queued) :
    place < c.groups.tail.length := by
  have hmem : place ∈ s.queued ++ s.running.map (·.1) ++ s.finished.map (·.1) := by simp [hplace]
  exact (List.mem_range.1 (h.places.mem_iff.1 hmem)).trans_le h.submitted_le

/-- A call that succeeded has left nothing in the queue. -/
theorem Accounted.not_queued {outputs : List β} (h : c.Accounted s)
    (hresult : s.result? = some (.ok outputs)) (place : Nat) : place ∉ s.queued := by
  intro hplace
  have hreceived : c.received s.stage = c.groups.tail.length := by
    cases hs : s.stage with
    | returned answer | completed answer =>
      simp only [State.result?, hs, Option.some.injEq] at hresult
      rw [hresult]
      rfl
    | _ => simp [State.result?, hs] at hresult
  have hfinished := h.finished place (hreceived ▸ h.lt_of_queued hplace)
  have hnodup := h.places.nodup_iff.2 List.nodup_range
  rw [List.append_assoc] at hnodup
  exact List.disjoint_of_nodup_append hnodup hplace (List.mem_append_right _ hfinished)

/-- Until the caller has its result some step can be taken besides a cancellation: a worker that is free
or done can go on where the caller has to wait. -/
theorem Accounted.goes_on (h : c.Accounted s) (hworkers : 0 < c.workers)
    (hresult : s.result? = none) : ∃ a ≠ .cancel, ∃ t, Step c s a t := by
  cases hstage : s.stage with
  | idle database sql => exact ⟨.register, by simp, _, .register hstage⟩
  | submitting count =>
    rcases Nat.lt_or_ge count c.groups.tail.length with hlt | hge
    · exact ⟨.submit, by simp, _, .submit hstage hlt⟩
    · cases hgroups : c.groups with
      | nil => exact ⟨.startFirst, by simp, _, .noGroups hstage hgroups⟩
      | cons group groups =>
        have hle := h.submitted_le
        simp only [hstage, submitted, hgroups, List.tail_cons] at hle hge
        exact ⟨.startFirst, by simp, _, .startFirst hgroups (hstage.trans (by congr; omega))⟩
  | running result =>
    cases result with
    | ok outputs => exact ⟨.finishFirst, by simp, _, .firstDone hstage⟩
    | error e => exact ⟨.finishFirst, by simp, _, .firstFailed hstage⟩
  | collecting place outputs =>
    by_cases hlast : place = c.groups.tail.length
    · exact ⟨.receive, by simp, _, .receivedAll (hlast ▸ hstage)⟩
    cases hfinished : s.finished.lookup place with
    | some result =>
      cases result with
      | ok more => exact ⟨.receive, by simp, _, .received hstage hlast hfinished⟩
      | error e => exact ⟨.receive, by simp, _, .receivedError hstage hlast hfinished⟩
    | none =>
      have hle := h.received_le
      have hplaces := h.places
      simp only [hstage, received, submitted] at hle hplaces
      have hmem := hplaces.mem_iff.2 (List.mem_range.2 (Nat.lt_of_le_of_ne hle hlast))
      cases hrunning : s.running with
      | cons e running =>
        have hlookup : s.running.lookup e.1 = some e.2 := by rw [hrunning]; exact List.lookup_cons_self
        exact ⟨.finish e.1, by simp, _, .finish hlookup⟩
      | nil =>
        have hqueued : place ∈ s.queued := by
          simp only [hrunning, List.map_nil, List.append_nil, List.mem_append] at hmem
          exact hmem.resolve_right (not_mem_of_lookup hfinished)
        exact ⟨.start place, by simp, _, .start hqueued (by simpa [hrunning] using hworkers)⟩
  | returned result => simp [State.result?, hstage] at hresult
  | completed result => simp [State.result?, hstage] at hresult

/-- A bound on the steps before the caller, and each group in the pool, is done. -/
def ahead (c : ParallelCall ω α β) (s : State ω β) : Nat :=
  2 * s.queued.length + s.running.length +
    match s.stage with
    | .idle _ _ => 4 * c.groups.tail.length + 5
    | .submitting count => 3 * (c.groups.tail.length - count) + c.groups.tail.length + 4
    | .running _ => c.groups.tail.length + 3
    | .collecting place _ => c.groups.tail.length - place + 2
    | .returned _ => 1
    | .completed _ => 0

theorem ahead_ready (c : ParallelCall ω α β) (session : Session ω) (processId : String) :
    c.ahead (.ready session processId) = 4 * c.groups.tail.length + 4 := by
  simp only [ahead, State.ready, List.length_nil]
  omega

theorem Accounted.ahead_lt (h : c.Accounted s) (hstep : Step c s a t) (ha : a ≠ .cancel) :
    c.ahead t < c.ahead s := by
  have hreceived := h.received_le
  have hsubmitted := h.submitted_le
  cases hstep with
  | register hstage => simp only [ahead, hstage]; omega
  | submit hstage hlt =>
    simp only [ahead, hstage, List.length_append, List.length_singleton]
    omega
  | noGroups hstage hgroups => simp only [ahead, hstage, State.giveBack]; omega
  | startFirst hgroups hstage =>
    simp only [ahead, hstage, hgroups, List.tail_cons]
    omega
  | firstDone hstage => simp only [ahead, hstage]; omega
  | firstFailed hstage => simp only [ahead, hstage, State.giveBack]; omega
  | receivedAll hstage => simp only [ahead, hstage, State.giveBack]; omega
  | received hstage hne hfinished =>
    simp only [hstage, received] at hreceived
    simp only [ahead, hstage]
    omega
  | receivedError hstage hne hfinished => simp only [ahead, hstage, State.giveBack]; omega
  | complete hstage => simp only [ahead, hstage]; omega
  | start hqueued hfree =>
    have hpos := List.length_pos_of_mem hqueued
    simp only [ahead, List.length_erase_of_mem hqueued, List.length_append, List.length_singleton]
    omega
  | @finish place result hrunning =>
    have hlt : (s.running.filter (·.1 ≠ place)).length < s.running.length :=
      List.length_filter_lt_length_iff_exists.2 ⟨_, mem_of_lookup hrunning, by simp⟩
    simp only [ahead]
    omega
  | cancel hstage => exact absurd rfl ha

/-- A run without cancellations is no longer than that. -/
theorem Accounted.length_le {actions : List Action} (h : c.Accounted s)
    (hactions : .cancel ∉ actions) (hrun : c.run? s actions = some t) :
    actions.length + c.ahead t ≤ c.ahead s := by
  induction actions generalizing s with
  | nil =>
    cases hrun
    simp
  | cons a actions ih =>
    obtain ⟨u, hstep, hrun⟩ := run?_cons.1 hrun
    obtain ⟨ha, hactions⟩ := not_or.1 (List.mem_cons.not.1 hactions)
    have hlt := h.ahead_lt hstep (Ne.symm ha)
    have hle := ih (h.step hstep) hactions hrun
    simp only [List.length_cons]
    omega

end ShardedSql.ParallelCall
