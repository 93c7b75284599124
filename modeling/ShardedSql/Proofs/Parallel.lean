import ShardedSql.Proofs.GroupResults
import ShardedSql.Proofs.Interleavings

/-! Parallel execution does not depend on the order in which the workers start and finish their groups.
Each step keeps that the results so far are those of the groups, and that the outputs collected so far
are those of the first ones. -/

namespace ShardedSql

open Executor

variable {ω α β : Type}

/-- Neither a report nor the end of a process takes the property from a session. -/
structure Lasting (P : Session ω → Prop) : Prop where
  record : ∀ e, Keeps P (Session.record e)
  complete : ∀ id, Keeps P (Session.complete id)

theorem lasting_true : Lasting (fun _ : Session ω => True) where
  record := fun _ _ _ => trivial
  complete := fun _ _ _ => trivial

namespace Executor

theorem results_succ (f₀ f : List α → Outcome β) (groups : List (List α)) (place : Nat) :
    (results f₀ f groups)[place + 1]? =
      (groups.tail[place]?).map fun group => (f group).result := by
  cases groups <;> simp [results]

theorem length_results_le (f₀ f : List α → Outcome β) (groups : List (List α)) :
    (results f₀ f groups).length ≤ groups.tail.length + 1 := by
  cases groups <;> simp [results]

section Collect

variable {outcomes : List (Nat × Except ExecutionError (List β))} {id : String} {place : Nat}
  {places : List Nat} {s : Session ω}

theorem collect_ok {outputs : List β} (h : outcomes.lookup place = some (.ok outputs)) :
    collect id outcomes (place :: places) s =
      ((collect id outcomes places s).1.map (outputs ++ ·), (collect id outcomes places s).2) := by
  rw [collect, h]
  simp only [bind_apply]
  cases (collect id outcomes places s).1 <;> rfl

theorem collect_error {e : ExecutionError} (h : outcomes.lookup place = some (.error e)) :
    collect id outcomes (place :: places) s = (.error (surfaced e), s) := by
  rw [collect, h]
  rfl

theorem parallel_error {schedule : Schedule} {first callback : Callback ω α β} {group : List α}
    {groups : List (List α)} {e : ExecutionError}
    (h : (call first group true (runAt callback groups schedule.before s).2).1 = .error e) :
    parallel schedule id first callback group groups s =
      (.error e, (runAt callback groups schedule.after
        (call first group true (runAt callback groups schedule.before s).2).2).2) := by
  rw [parallel]
  simp only [bind_apply]
  rw [h]
  rfl

theorem parallel_ok {schedule : Schedule} {first callback : Callback ω α β} {group : List α}
    {groups : List (List α)} {outputs : List β}
    (h : (call first group true (runAt callback groups schedule.before s).2).1 = .ok outputs) :
    parallel schedule id first callback group groups s =
      let early := runAt callback groups schedule.before s
      let late := runAt callback groups schedule.after (call first group true early.2).2
      let collected := collect id (early.1 ++ late.1) (List.range groups.length) late.2
      (collected.1.map (outputs ++ ·), collected.2) := by
  rw [parallel]
  simp only [bind_apply]
  rw [h]
  simp only [bind_apply]
  generalize collect id _ _ _ = collected
  cases collected.1 <;> rfl

theorem runAt_places (callback : Callback ω α β) (groups : List (List α)) (places : List Nat)
    (s : Session ω) : (runAt callback groups places s).1.map (·.1) = places := by
  induction places generalizing s with
  | nil => rfl
  | cons place places ih => exact congrArg (place :: ·) (ih _)

end Collect

end Executor

/-- The workers are given every group once. -/
def Schedule.Covers (schedule : Schedule) (count : Nat) : Prop :=
  (schedule.before ++ schedule.after).Perm (List.range count)

theorem Schedule.covers_inOrder (count : Nat) : (Schedule.inOrder count).Covers count := .refl _

namespace ParallelCall

variable {c : ParallelCall ω α β} {s t : State ω β} {a : Action} {id : String}
  {P : Session ω → Prop} {f₀ f : List α → Outcome β}

section Soundness

/-- What the caller holds comes from the results of the groups. -/
def StageSound (results : List (Except ExecutionError (List β))) : Stage β → Prop
  | .idle _ _ => False
  | .submitting _ => True
  | .running result => results.head? = some result
  | .collecting place outputs => ∃ (collected : List (List β)) (rest : List _),
    results = collected.map .ok ++ rest ∧ collected.length = place + 1 ∧ collected.flatten = outputs
  | .returned answer | .completed answer => Answers reportedFrom results answer

/-- Between the steps of a process each result that is known is that of its group. -/
structure Sound (c : ParallelCall ω α β) (id : String) (P : Session ω → Prop)
    (results : List (Except ExecutionError (List β))) (s : State ω β) : Prop where
  accounted : c.Accounted s
  processId : s.processId = id
  session : P s.session
  running : ∀ e ∈ s.running, results[e.1 + 1]? = some e.2
  finished : ∀ e ∈ s.finished, results[e.1 + 1]? = some e.2
  stage : StageSound results s.stage

variable {results : List (Except ExecutionError (List β))}

theorem sound_ready {session : Session ω} (h : P session) :
    c.Sound id P results (.ready session id) where
  accounted := accounted_ready c session id
  processId := rfl
  session := h
  running := fun _ h => absurd h List.not_mem_nil
  finished := fun _ h => absurd h List.not_mem_nil
  stage := trivial

theorem Sound.giveBack {answer : Except ExecutionError (List β)} (h : c.Sound id P results s)
    (hP : Lasting P) (hanswer : Answers reportedFrom results answer)
    (haccounted : c.Accounted (s.giveBack answer)) : c.Sound id P results (s.giveBack answer) where
  accounted := haccounted
  processId := h.processId
  session := by
    cases answer with
    | ok outputs => exact h.session
    | error e => exact hP.record _ _ h.session
  running := h.running
  finished := h.finished
  stage := hanswer

end Soundness

/-- The result the caller waits for is the first one that it does not have yet. -/
theorem results_next {collected : List (List β)} {rest : List (Except ExecutionError (List β))}
    {place : Nat} {result : Except ExecutionError (List β)} (hlength : collected.length = place + 1)
    (h : (collected.map .ok ++ rest)[place + 1]? = some result) : ∃ later, rest = result :: later := by
  rw [List.getElem?_append_right (by simp [hlength])] at h
  apply List.head?_eq_some_iff.1
  rw [List.head?_eq_getElem?, ← h]
  simp [hlength]

theorem Sound.step (hP : Lasting P) (hfirst : ComputesOn P (c.first id) f₀)
    (hcallback : ComputesOn P (c.callback id) f) (h : c.Sound id P (results f₀ f c.groups) s)
    (hstep : Step c s a t) (ha : a ≠ .cancel) : c.Sound id P (results f₀ f c.groups) t := by
  have haccounted := h.accounted.step hstep
  have hstage := h.stage
  have hid := h.processId
  cases hstep with
  | register hs =>
    rw [hs] at hstage
    exact hstage.elim
  | submit hs hlt => exact ⟨haccounted, hid, h.session, h.running, h.finished, trivial⟩
  | noGroups hs hgroups =>
    apply h.giveBack hP _ haccounted
    rw [hgroups]
    exact answers_nil
  | @startFirst group groups hgroups hs =>
    refine ⟨haccounted, hid, ?_, h.running, h.finished, ?_⟩
    · rw [hid]
      exact hfirst.keeps group true _ h.session
    · rw [hgroups, hid]
      exact congrArg (some ·.result) (hfirst.outcome group true h.session).symm
  | @firstDone outputs hs =>
    rw [hs] at hstage
    obtain ⟨rest, hrest⟩ := List.head?_eq_some_iff.1 hstage
    refine ⟨haccounted, hid, h.session, h.running, h.finished, [outputs], rest, ?_, rfl, by simp⟩
    exact hrest
  | @firstFailed e hs =>
    rw [hs] at hstage
    obtain ⟨rest, hrest⟩ := List.head?_eq_some_iff.1 hstage
    apply h.giveBack hP _ haccounted
    rw [hrest]
    exact answers_error e rest
  | @receivedAll outputs hs =>
    rw [hs] at hstage
    obtain ⟨collected, rest, hresults, hlength, rfl⟩ := hstage
    have hrest : rest = [] := by
      have hcount := length_results_le f₀ f c.groups
      rw [hresults, List.length_append, List.length_map] at hcount
      exact List.eq_nil_of_length_eq_zero (by omega)
    apply h.giveBack hP _ haccounted
    have hanswer : Answers reportedFrom (collected.map .ok ++ []) _ := answers_nil.append collected
    simpa [hresults, hrest, Except.map] using hanswer
  | @received place outputs more hs hne hfinished =>
    rw [hs] at hstage
    obtain ⟨collected, rest, hresults, hlength, rfl⟩ := hstage
    have hresult := h.finished _ (mem_of_lookup hfinished)
    rw [hresults] at hresult
    obtain ⟨later, rfl⟩ := results_next hlength hresult
    refine ⟨haccounted, hid, h.session, h.running, h.finished, collected ++ [more], later, ?_, ?_, ?_⟩
    · simp [hresults]
    · simp [hlength]
    · simp
  | @receivedError place outputs e hs hne hfinished =>
    rw [hs] at hstage
    obtain ⟨collected, rest, hresults, hlength, rfl⟩ := hstage
    have hresult := h.finished _ (mem_of_lookup hfinished)
    rw [hresults] at hresult
    obtain ⟨later, rfl⟩ := results_next hlength hresult
    apply h.giveBack hP _ haccounted
    have hanswer : Answers reportedFrom (collected.map .ok ++ .error e :: later) _ :=
      (answers_error e later).append collected
    simpa [hresults, hlength, Except.map] using hanswer
  | @complete answer hs =>
    rw [hs] at hstage
    exact ⟨haccounted, hid, hP.complete _ _ h.session, h.running, h.finished, hstage⟩
  | @start place hqueued hfree =>
    have hlt := h.accounted.lt_of_queued hqueued
    refine ⟨haccounted, hid, ?_, ?_, h.finished, hstage⟩
    · rw [hid]
      exact hcallback.keeps _ false _ h.session
    · intro e he
      rcases List.mem_append.1 he with he | he
      · exact h.running e he
      · rw [List.mem_singleton.1 he, results_succ, List.getElem?_eq_getElem hlt, hid, call_apply,
          hcallback.outcome _ false h.session, groupAt, List.getElem?_eq_getElem hlt]
        rfl
  | @finish place result hrunning =>
    refine ⟨haccounted, hid, h.session, ?_, ?_, hstage⟩
    · intro e he
      exact h.running e (List.mem_of_mem_filter he)
    · intro e he
      rcases List.mem_append.1 he with he | he
      · exact h.finished e he
      · rw [List.mem_singleton.1 he]
        exact h.running _ (mem_of_lookup hrunning)
  | cancel hs => exact absurd rfl ha

theorem run?_keeps_uncancelled {I : State ω β → Prop} {actions : List Action}
    (hkeep : ∀ {s a t}, a ≠ .cancel → I s → Step c s a t → I t) (hactions : .cancel ∉ actions)
    (hs : I s) (hrun : c.run? s actions = some t) : I t := by
  apply run?_keeps hkeep _ hs hrun
  intro a ha hcancel
  exact hactions (hcancel ▸ ha)

theorem Sound.run {actions : List Action} (hP : Lasting P) (hfirst : ComputesOn P (c.first id) f₀)
    (hcallback : ComputesOn P (c.callback id) f) (h : c.Sound id P (results f₀ f c.groups) s)
    (hactions : .cancel ∉ actions) (hrun : c.run? s actions = some t) :
    c.Sound id P (results f₀ f c.groups) t := by
  apply run?_keeps_uncancelled _ hactions h hrun
  intro s a t ha hs hstep
  exact hs.step hP hfirst hcallback hstep ha

/-- A result the caller has is the answer of the groups. -/
theorem Sound.answers {results : List (Except ExecutionError (List β))}
    {answer : Except ExecutionError (List β)} (h : c.Sound id P results s)
    (hanswer : s.result? = some answer) : Answers reportedFrom results answer := by
  have hstage := h.stage
  cases hs : s.stage with
  | returned result | completed result =>
    simp only [State.result?, hs, Option.some.injEq] at hanswer
    rwa [hs, hanswer] at hstage
  | _ => simp [State.result?, hs] at hanswer

section Events

/-- What was reported where the caller stands. -/
def reported (id : String) : Stage β → List Event
  | .returned answer | .completed answer => report id answer
  | _ => []

/-- Besides the given events there is the report of a failure that the caller has seen. -/
def Reported (events : List Event) (s : State ω β) : Prop :=
  s.session.events = events ++ reported s.processId s.stage

variable {events : List Event}

theorem reported_of_result? {answer : Except ExecutionError (List β)} (h : Reported events s)
    (hanswer : s.result? = some answer) :
    s.session.events = events ++ report s.processId answer := by
  cases hs : s.stage with
  | returned result | completed result =>
    simp only [State.result?, hs, Option.some.injEq] at hanswer
    rwa [Reported, hs, hanswer] at h
  | _ => simp [State.result?, hs] at hanswer

theorem Reported.giveBack (h : Reported events s) (hs : reported s.processId s.stage = [])
    (answer : Except ExecutionError (List β)) : Reported events (s.giveBack answer) := by
  rw [Reported, hs, List.append_nil] at h
  cases answer with
  | ok outputs => exact h.trans (List.append_nil _).symm
  | error e => exact congrArg (· ++ _) h

/-- Where the callbacks report nothing, a failure is reported once, when the caller sees it. -/
theorem Reported.step (hfirst : ∀ id group own s, (c.first id group own s).2.events = s.events)
    (hcallback : ∀ id group own s, (c.callback id group own s).2.events = s.events)
    (h : Reported events s) (hstep : Step c s a t) (ha : a ≠ .cancel) : Reported events t := by
  cases hstep with
  | register hs | submit hs _ | firstDone hs | received hs _ _ | complete hs =>
    rwa [Reported, hs] at h
  | noGroups hs _ | firstFailed hs | receivedAll hs | receivedError hs _ _ =>
    apply h.giveBack
    rw [hs]
    rfl
  | startFirst _ hs =>
    rw [Reported, hs] at h
    exact (hfirst _ _ _ _).trans h
  | start hqueued hfree => exact (hcallback _ _ _ _).trans h
  | finish hrunning => exact h
  | cancel hs => exact absurd rfl ha

end Events

section Schedule

/-- Some steps without a cancellation lead from one state to the other. -/
def Reaches (c : ParallelCall ω α β) (s t : State ω β) : Prop :=
  ∃ actions, .cancel ∉ actions ∧ c.run? s actions = some t

theorem Reaches.refl (s : State ω β) : c.Reaches s s := ⟨[], by simp, rfl⟩

theorem Step.reaches (h : Step c s a t) (ha : a ≠ .cancel) : c.Reaches s t := by
  refine ⟨[a], ?_, run?_cons.2 ⟨t, h, rfl⟩⟩
  rw [List.mem_singleton]
  exact Ne.symm ha

theorem Reaches.trans {u : State ω β} (hst : c.Reaches s t) (htu : c.Reaches t u) :
    c.Reaches s u := by
  obtain ⟨actions, hactions, hrun⟩ := hst
  obtain ⟨later, hlater, hrun'⟩ := htu
  refine ⟨actions ++ later, by simp [hactions, hlater], ?_⟩
  rw [run?_append, hrun]
  exact hrun'

/-- The caller hands all groups behind the first one to the pool before it goes on. -/
theorem reaches_submitted (session : Session ω) (id : String) {count : Nat}
    (h : count ≤ c.groups.tail.length) :
    c.Reaches (.ready session id) ⟨session, id, .submitting count, List.range count, [], []⟩ := by
  induction count with
  | zero => exact .refl _
  | succ count ih =>
    have hstep := Step.submit (c := c) (s := ⟨session, id, .submitting count, List.range count, [], []⟩)
      rfl h
    rw [← List.range_succ] at hstep
    exact (ih (by omega)).trans (hstep.reaches (by simp))

variable {stage : Stage β} {queued : List Nat}
  {finished : List (Nat × Except ExecutionError (List β))}

/-- A worker takes a group and is done with it. -/
theorem reaches_call (hworkers : 0 < c.workers) {place : Nat} (hplace : place ∈ queued)
    (session : Session ω) :
    c.Reaches ⟨session, id, stage, queued, [], finished⟩
      ⟨(call (c.callback id) (c.groupAt place) false session).2, id, stage, queued.erase place, [],
        finished ++ [(place, (call (c.callback id) (c.groupAt place) false session).1)]⟩ := by
  have hstart := Step.start (c := c) (s := ⟨session, id, stage, queued, [], finished⟩) hplace hworkers
  refine (hstart.reaches (by simp)).trans ?_
  have hfinish : Step c ⟨(call (c.callback id) (c.groupAt place) false session).2, id, stage,
      queued.erase place, [(place, (call (c.callback id) (c.groupAt place) false session).1)],
      finished⟩ (.finish place) _ := .finish List.lookup_cons_self
  simpa using hfinish.reaches (by simp)

/-- Workers that are done with one group before the next is taken run them in their order. -/
theorem reaches_runAt (hworkers : 0 < c.workers) {places rest : List Nat}
    (hqueued : queued.Perm (places ++ rest)) (session : Session ω) :
    ∃ left, left.Perm rest ∧ c.Reaches ⟨session, id, stage, queued, [], finished⟩
      ⟨(runAt (c.callback id) c.groups.tail places session).2, id, stage, left, [],
        finished ++ (runAt (c.callback id) c.groups.tail places session).1⟩ := by
  induction places generalizing queued finished session with
  | nil =>
    refine ⟨queued, hqueued, ?_⟩
    have hnone : finished ++ (runAt (c.callback id) c.groups.tail [] session).1 = finished :=
      List.append_nil _
    rw [hnone]
    exact .refl _
  | cons place places ih =>
    have hplace : place ∈ queued := hqueued.mem_iff.2 (by simp)
    have herased : (queued.erase place).Perm (places ++ rest) := by simpa using hqueued.erase place
    obtain ⟨left, hleft, hreaches⟩ := ih herased
      (call (c.callback id) (c.groupAt place) false session).2
    refine ⟨left, hleft, (reaches_call hworkers hplace session).trans ?_⟩
    rw [List.append_assoc] at hreaches
    exact hreaches

/-- The caller collects the results of groups that are all finished. -/
theorem reaches_collected {place count : Nat} (hcount : place + count = c.groups.tail.length)
    (hall : ∀ i < c.groups.tail.length, i ∈ finished.map (·.1)) (session : Session ω)
    (outputs : List β) :
    c.Reaches ⟨session, id, .collecting place outputs, queued, [], finished⟩
        (State.giveBack ⟨session, id, .collecting place outputs, queued, [], finished⟩
          ((collect id finished (List.range' place count) session).1.map (outputs ++ ·))) ∧
      (collect id finished (List.range' place count) session).2 = session := by
  induction count generalizing place outputs with
  | zero =>
    have hplace : place = c.groups.tail.length := hcount
    have hstep : Step c ⟨session, id, .collecting place outputs, queued, [], finished⟩ .receive _ :=
      .receivedAll (by rw [hplace])
    have hdone : (collect id finished [] session).1.map (outputs ++ ·) = .ok outputs :=
      congrArg Except.ok (List.append_nil outputs)
    rw [List.range'_zero, hdone]
    exact ⟨hstep.reaches (by simp), rfl⟩
  | succ count ih =>
    have hne : place ≠ c.groups.tail.length := by omega
    rw [List.range'_succ]
    cases hlookup : finished.lookup place with
    | none => exact absurd (hall place (by omega)) (not_mem_of_lookup hlookup)
    | some result =>
      cases result with
      | error e =>
        rw [collect_error hlookup]
        have hstep : Step c ⟨session, id, .collecting place outputs, queued, [], finished⟩ .receive
          _ := .receivedError rfl hne hlookup
        exact ⟨hstep.reaches (by simp), rfl⟩
      | ok more =>
        rw [collect_ok hlookup]
        have hstep : Step c ⟨session, id, .collecting place outputs, queued, [], finished⟩ .receive
          _ := .received rfl hne hlookup
        obtain ⟨hreaches, hsession⟩ := @ih (place + 1) (by omega) (outputs ++ more)
        refine ⟨(hstep.reaches (by simp)).trans ?_, hsession⟩
        have hmap : ((collect id finished (List.range' (place + 1) count) session).1.map
            (more ++ ·)).map (outputs ++ ·) =
            (collect id finished (List.range' (place + 1) count) session).1.map
              (outputs ++ more ++ ·) := by
          cases (collect id finished (List.range' (place + 1) count) session).1 <;>
            simp [Except.map]
        rw [hmap]
        exact hreaches

theorem runAt_covers {schedule : Schedule} {count : Nat} (h : schedule.Covers count)
    (callback : Callback ω α β) (groups : List (List α)) (s t : Session ω) :
    ∀ i < count, i ∈ ((runAt callback groups schedule.before s).1 ++
      (runAt callback groups schedule.after t).1).map (·.1) := by
  intro i hi
  rw [List.map_append, runAt_places, runAt_places]
  exact h.mem_iff.2 (List.mem_range.2 hi)

theorem giveBack_execute {mode : Mode} {prepared : Prepared α} {first : Option (Callback ω α β)}
    {callback : Callback ω α β} {session : Session ω} {answer : Except ExecutionError (List β)}
    (h : Executor.run mode prepared.report.processId first callback prepared.groups session =
      (answer, s.session))
    (hid : s.processId = prepared.report.processId) :
    (s.giveBack answer).result? = some (execute mode prepared first callback session).1 ∧
      (s.giveBack answer).session = (execute mode prepared first callback session).2 := by
  cases answer with
  | error e =>
    rw [execute_error (congrArg Prod.fst h), h, ← hid]
    exact ⟨rfl, rfl⟩
  | ok outputs =>
    rw [execute_ok (congrArg Prod.fst h), h]
    exact ⟨rfl, rfl⟩

/-- What the executor does in parallel mode, with any order of the groups, is one way the steps of the
call can be interleaved. -/
theorem reaches_execute {workers : Nat} (hworkers : 0 < workers) {schedule : Nat → Schedule}
    (hschedule : ∀ count, (schedule count).Covers count) (prepared : Prepared α)
    (first : Option (Callback ω α β)) (callback : Callback ω α β) (session : Session ω) :
    ∃ t, (parallelCall workers prepared first callback).Reaches
        (.ready session prepared.report.processId) t ∧
      t.result? = some (execute (.parallel schedule) prepared first callback session).1 ∧
      t.session = (execute (.parallel schedule) prepared first callback session).2 := by
  set c := parallelCall workers prepared first callback with hc
  obtain ⟨groups, report⟩ := prepared
  cases groups with
  | nil =>
    have hstep := Step.noGroups (c := c) (s := .ready session report.processId) rfl rfl
    exact ⟨_, hstep.reaches (by simp), giveBack_execute rfl rfl⟩
  | cons group groups =>
    have hcovers := hschedule groups.length
    set early := runAt callback groups (schedule groups.length).before session with hearly
    set own := call (first.getD callback) group true early.2 with hown
    set late := runAt callback groups (schedule groups.length).after own.2 with hlate
    obtain ⟨left, hleft, hbefore⟩ : ∃ left, left.Perm (schedule groups.length).after ∧ c.Reaches
        ⟨session, report.processId, .submitting groups.length, List.range groups.length, [], []⟩
        ⟨early.2, report.processId, .submitting groups.length, left, [], early.1⟩ :=
      reaches_runAt hworkers hcovers.symm session
    have hstart : Step c ⟨early.2, report.processId, .submitting groups.length, left, [], early.1⟩
        .startFirst ⟨own.2, report.processId, .running own.1, left, [], early.1⟩ :=
      .startFirst rfl rfl
    obtain ⟨left', -, hafter⟩ : ∃ left' : List Nat, left'.Perm [] ∧ c.Reaches
        ⟨own.2, report.processId, .running own.1, left, [], early.1⟩
        ⟨late.2, report.processId, .running own.1, left', [], early.1 ++ late.1⟩ :=
      reaches_runAt hworkers (by simpa using hleft) own.2
    have hreaches : c.Reaches (.ready session report.processId)
        ⟨late.2, report.processId, .running own.1, left', [], early.1 ++ late.1⟩ :=
      (reaches_submitted session _ le_rfl).trans
        (hbefore.trans ((hstart.reaches (by simp)).trans hafter))
    cases hfirst : own.1 with
    | error e =>
      have hstep : Step c ⟨late.2, report.processId, .running own.1, left', [], early.1 ++ late.1⟩
          .finishFirst _ := .firstFailed (by rw [hfirst])
      refine ⟨_, hreaches.trans (hstep.reaches (by simp)), giveBack_execute ?_ rfl⟩
      exact parallel_error hfirst
    | ok outputs =>
      have hstep : Step c ⟨late.2, report.processId, .running own.1, left', [], early.1 ++ late.1⟩
          .finishFirst ⟨late.2, report.processId, .collecting 0 outputs, left', [],
            early.1 ++ late.1⟩ := .firstDone (by rw [hfirst])
      obtain ⟨hcollect, hsession⟩ := reaches_collected (c := c) (Nat.zero_add groups.length)
        (runAt_covers hcovers callback groups session own.2) late.2 outputs
      refine ⟨_, hreaches.trans ((hstep.reaches (by simp)).trans hcollect), giveBack_execute ?_ rfl⟩
      rw [← List.range_eq_range'] at hsession ⊢
      exact (parallel_ok hfirst).trans (congrArg (Prod.mk _) hsession)

end Schedule

end ParallelCall

/-- What a call answers in parallel mode, where the callbacks give the same in the sessions they are
called in. -/
theorem Executor.execute_parallel_answers {P : Session ω → Prop} {first : Option (Callback ω α β)}
    {callback : Callback ω α β} {f₀ f : List α → Outcome β} (hP : Lasting P)
    (hfirst : ComputesOn P (first.getD callback) f₀) (hcallback : ComputesOn P callback f)
    {schedule : Nat → Schedule} (hschedule : ∀ count, (schedule count).Covers count)
    (prepared : Prepared α) {session : Session ω} (hsession : P session) :
    Answers reportedFrom (results f₀ f prepared.groups)
      (execute (.parallel schedule) prepared first callback session).1 := by
  obtain ⟨t, ⟨actions, hactions, hrun⟩, hanswer, -⟩ :=
    ParallelCall.reaches_execute (Nat.succ_pos 0) hschedule prepared first callback session
  exact ((ParallelCall.sound_ready hsession).run hP hfirst hcallback hactions hrun).answers hanswer

/-- A call ends with the answer of its groups, and a failure is reported once. -/
structure Ends (reported : Nat → ExecutionError → ExecutionError) (id : String)
    (results : List (Except ExecutionError (List β))) (events : List Event)
    (answer : Except ExecutionError (List β)) (session : Session ω) : Prop where
  answers : Answers reported results answer
  events : session.events = events ++ report id answer

/-- In whatever order the workers start and finish the groups, the call comes to its end, and the end
is that of serial mode: it succeeds in the same cases with the same outputs, and fails for the same
group otherwise. In serial mode nothing runs behind that group. -/
theorem parallel_agrees_with_serial {workers : Nat} (hworkers : 0 < workers) (prepared : Prepared α)
    {first : Option (Callback ω α β)} {callback : Callback ω α β} {f₀ f : List α → Outcome β}
    (hfirst : Computes (first.getD callback) f₀) (hcallback : Computes callback f)
    (session : Session ω) :
    let id := prepared.report.processId
    let call := parallelCall workers prepared first callback
    let results := results f₀ f prepared.groups
    let serial := execute .serial prepared first callback session
    (∀ actions t, .cancel ∉ actions → call.run? (.ready session id) actions = some t →
      actions.length ≤ 4 * prepared.groups.length + 4 ∧
      (t.result? = none → ∃ a ≠ .cancel, (call.step? t a).isSome) ∧
      ∀ answer, t.result? = some answer →
        Ends reportedFrom id results session.events answer t.session ∧
        ∀ outputs, answer = .ok outputs ↔ serial.1 = .ok outputs) ∧
    (∀ schedule, (∀ count, (schedule count).Covers count) →
      let parallel := execute (.parallel schedule) prepared first callback session
      Ends reportedFrom id results session.events parallel.1 parallel.2) ∧
    Ends (fun _ e => e) id results session.events serial.1 serial.2 ∧
    ∀ (outputs : List (List β)) (e : ExecutionError) (rest),
      results = outputs.map .ok ++ .error e :: rest →
      serial = execute .serial { prepared with groups := prepared.groups.take (outputs.length + 1) }
        first callback session := by
  intro id call results serial
  have hserial : Ends (fun _ e => e) id results session.events serial.1 serial.2 := by
    refine ⟨?_, ?_⟩
    · rw [execute_answer]
      exact run_serial_answers hfirst.on hcallback.on trivial _ _
    · rw [execute_events, run_serial_events hfirst hcallback]
  have hends : ∀ actions t, .cancel ∉ actions → call.run? (.ready session id) actions = some t →
      ∀ answer, t.result? = some answer →
        Ends reportedFrom id results session.events answer t.session := by
    intro actions t hactions hrun answer hanswer
    have hsound := (ParallelCall.sound_ready trivial).run lasting_true hfirst.on hcallback.on hactions
      hrun
    have hreported : ParallelCall.Reported session.events t := by
      apply ParallelCall.run?_keeps_uncancelled _ hactions _ hrun
      · intro s a t ha hs hstep
        exact hs.step (fun _ => hfirst.events) (fun _ => hcallback.events) hstep ha
      · exact (List.append_nil _).symm
    refine ⟨hsound.answers hanswer, ?_⟩
    rw [ParallelCall.reported_of_result? hreported hanswer, hsound.processId]
  refine ⟨?_, ?_, hserial, ?_⟩
  · intro actions t hactions hrun
    have haccounted := ParallelCall.accounted_ready call session id
    refine ⟨?_, ?_, ?_⟩
    · have hle := haccounted.length_le hactions hrun
      have hready : call.ahead (.ready session id) = 4 * prepared.groups.tail.length + 4 :=
        call.ahead_ready session id
      have htail := List.length_tail (l := prepared.groups)
      omega
    · intro hnone
      obtain ⟨a, ha, u, hstep⟩ := (haccounted.run hrun).goes_on hworkers hnone
      refine ⟨a, ha, ?_⟩
      rw [ParallelCall.step?_of_step hstep]
      rfl
    · intro answer hanswer
      have h := hends actions t hactions hrun answer hanswer
      exact ⟨h, h.answers.ok_iff hserial.answers⟩
  · intro schedule hschedule
    obtain ⟨t, ⟨actions, hactions, hrun⟩, hanswer, hsession⟩ :=
      ParallelCall.reaches_execute hworkers hschedule prepared first callback session
    have h := hends actions t hactions hrun _ hanswer
    rwa [hsession] at h
  · intro outputs e rest hresults
    exact execute_congr (run_serial_take hfirst.on hcallback.on trivial id hresults)

/-- The second of three groups is out of reach. -/
def reachable (group : List Nat) : Outcome Nat :=
  if group = [2] then .failed (.connection "gone") else .done group

theorem parallel_agrees_with_serial_gone :
    let prepared : Prepared Nat := ⟨[[1], [2], [3]], ⟨"process-1", "shop"⟩⟩
    let callback : Callback Unit Nat Nat := fun group _ session => (reachable group, session)
    let session : Session Unit := ⟨.empty, [], ()⟩
    0 < 2 ∧
    (execute (.parallel .inOrder) prepared none callback session).1 =
      .error (.unknown "connection error: gone") ∧
    (execute .serial prepared none callback session).1 = .error (.connection "gone") := by
  intro prepared callback session
  have hcallback : Computes callback reachable := ⟨fun _ _ _ => rfl, fun _ _ _ => rfl⟩
  have hfirst : Computes ((none : Option (Callback Unit Nat Nat)).getD callback) reachable := hcallback
  obtain ⟨-, hparallel, hserial, -⟩ :=
    parallel_agrees_with_serial (Nat.succ_pos 1) prepared hfirst hcallback session
  refine ⟨by decide, ?_, ?_⟩
  · exact (hparallel .inOrder Schedule.covers_inOrder).answers.error [[1]] _ [.ok [3]] rfl
  · exact hserial.answers.error [[1]] _ [.ok [3]] rfl

end ShardedSql
