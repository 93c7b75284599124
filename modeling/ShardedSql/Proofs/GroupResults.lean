import ShardedSql.Execution.Executor
import ShardedSql.Proofs.Success

/-! Where every group gives the same whenever and wherever it runs, the answer of a call is known from
what its groups give: all outputs in the order of the groups, or the error of the first group that
failed. In serial mode this is shown here. -/

namespace ShardedSql

/-- Whether an error says no more than a message; a crash is told like that. -/
def ExecutionError.isUnknown : ExecutionError → Bool
  | .unknown _ | .crashed => true
  | _ => false

namespace Executor

variable {ω α β : Type}

theorem surfaced_eq (e : ExecutionError) :
    surfaced e = if e.isStatement || e.isUnknown then e else .unknown e.message := by
  cases e <;> rfl

/-- The error of the group at a place as it is reported in parallel mode, where the caller itself runs
the first group. -/
def reportedFrom (place : Nat) (e : ExecutionError) : ExecutionError :=
  if place = 0 ∨ e.isStatement ∨ e.isUnknown then e else .unknown e.message

@[simp] theorem reportedFrom_succ (place : Nat) (e : ExecutionError) :
    reportedFrom (place + 1) e = surfaced e := by
  simp [reportedFrom, surfaced_eq]

/-- In sessions with a property the callback gives what `f` says, and keeps the property. -/
structure ComputesOn (P : Session ω → Prop) (callback : Callback ω α β) (f : List α → Outcome β) :
    Prop where
  outcome : ∀ group own {s}, P s → (callback group own s).1 = f group
  keeps : ∀ group own, Keeps P (callback group own)

/-- The callback gives what `f` says whenever and wherever it is called, and reports nothing. -/
structure Computes (callback : Callback ω α β) (f : List α → Outcome β) : Prop where
  outcome : ∀ group own s, (callback group own s).1 = f group
  events : ∀ group own s, (callback group own s).2.events = s.events

theorem Computes.on {callback : Callback ω α β} {f : List α → Outcome β}
    (h : Computes callback f) : ComputesOn (fun _ => True) callback f where
  outcome := fun group own {s} _ => h.outcome group own s
  keeps := fun _ _ _ _ => trivial

/-- What the groups give, where the first one may run with a callback of its own. -/
def results (f₀ f : List α → Outcome β) : List (List α) → List (Except ExecutionError (List β))
  | [] => []
  | group :: groups => (f₀ group).result :: groups.map fun group => (f group).result

/-- The answer of a call whose groups give these results: all outputs in order, or the error of the
first group that failed, as it is reported for a group at its place. -/
structure Answers (reported : Nat → ExecutionError → ExecutionError)
    (results : List (Except ExecutionError (List β))) (answer : Except ExecutionError (List β)) :
    Prop where
  outputs : ∀ outputs : List (List β), results = outputs.map .ok → answer = .ok outputs.flatten
  error : ∀ (outputs : List (List β)) (e : ExecutionError) (rest), results =
    outputs.map .ok ++ .error e :: rest → answer = .error (reported outputs.length e)

/-- Every group is done, or there is a first one that failed. -/
theorem all_done_or_failed (results : List (Except ExecutionError (List β))) :
    (∃ outputs : List (List β), results = outputs.map .ok) ∨
      ∃ (outputs : List (List β)) (e : ExecutionError) (rest : List _),
        results = outputs.map .ok ++ .error e :: rest := by
  induction results with
  | nil => exact .inl ⟨[], rfl⟩
  | cons result results ih =>
    cases result with
    | error e => exact .inr ⟨[], e, results, rfl⟩
    | ok out =>
      rcases ih with ⟨outputs, rfl⟩ | ⟨outputs, e, rest, rfl⟩
      · exact .inl ⟨out :: outputs, rfl⟩
      · exact .inr ⟨out :: outputs, e, rest, rfl⟩

section Answers

variable {reported : Nat → ExecutionError → ExecutionError}
  {results : List (Except ExecutionError (List β))} {answer : Except ExecutionError (List β)}

theorem answers_nil : Answers (β := β) reported [] (.ok []) where
  outputs := fun outputs h => by
    rw [List.map_eq_nil_iff.1 h.symm]
    rfl
  error := fun outputs e rest h => by simp at h

theorem answers_error (e : ExecutionError) (results : List (Except ExecutionError (List β))) :
    Answers reported (.error e :: results) (.error (reported 0 e)) where
  outputs := fun outputs h => by cases outputs <;> cases h
  error := fun outputs e' rest h => by
    cases outputs with
    | nil =>
      cases h
      rfl
    | cons out outputs => cases h

theorem Answers.cons (h : Answers (fun place => reported (place + 1)) results answer)
    (out : List β) : Answers reported (.ok out :: results) (answer.map (out ++ ·)) where
  outputs := fun outputs ho => by
    cases outputs with
    | nil => cases ho
    | cons first outputs =>
      obtain ⟨hout, hrest⟩ := List.cons.inj ho
      rw [Except.ok.inj hout, h.outputs outputs hrest]
      rfl
  error := fun outputs e rest ho => by
    cases outputs with
    | nil => cases ho
    | cons first outputs =>
      rw [h.error outputs e rest (List.cons.inj ho).2]
      rfl

/-- Groups in front that are done put their outputs in front. -/
theorem Answers.append (outputs : List (List β))
    (h : Answers (fun place => reported (place + outputs.length)) results answer) :
    Answers reported (outputs.map .ok ++ results) (answer.map (outputs.flatten ++ ·)) := by
  induction outputs generalizing reported with
  | nil =>
    have hmap : answer.map (([] : List (List β)).flatten ++ ·) = answer := by cases answer <;> rfl
    rw [hmap]
    exact h
  | cons out outputs ih =>
    have hmap : answer.map ((out :: outputs).flatten ++ ·) =
        (answer.map (outputs.flatten ++ ·)).map (out ++ ·) := by
      cases answer <;> simp [Except.map]
    have hrest : Answers (fun place => reported (place + 1)) (outputs.map .ok ++ results)
        (answer.map (outputs.flatten ++ ·)) := ih h
    rw [hmap]
    exact hrest.cons out

/-- Calls whose groups give the same succeed with the same outputs, however they report errors. -/
theorem Answers.ok_iff {reported' : Nat → ExecutionError → ExecutionError}
    {answer' : Except ExecutionError (List β)} (h : Answers reported results answer)
    (h' : Answers reported' results answer') (outputs : List β) :
    answer = .ok outputs ↔ answer' = .ok outputs := by
  rcases all_done_or_failed results with ⟨all, hall⟩ | ⟨done, e, rest, hfailed⟩
  · rw [h.outputs all hall, h'.outputs all hall]
  · rw [h.error done e rest hfailed, h'.error done e rest hfailed]
    simp

end Answers

section Serial

variable {P : Session ω → Prop} {callback first : Callback ω α β} {f₀ f : List α → Outcome β}
  {s : Session ω}

/-- A group, and those after it if it is done. -/
def andThen (head rest : StateM (Session ω) (Except ExecutionError (List β))) :
    StateM (Session ω) (Except ExecutionError (List β)) := do
  match ← head with
  | .error e => pure (.error e)
  | .ok outputs => do
    match ← rest with
    | .error e => pure (.error e)
    | .ok more => pure (.ok (outputs ++ more))

theorem serially_cons (callback : Callback ω α β) (group : List α) (groups : List (List α)) :
    serially callback (group :: groups) =
      andThen (call callback group true) (serially callback groups) := rfl

theorem run_serial_cons (processId : String) (first : Option (Callback ω α β))
    (callback : Callback ω α β) (group : List α) (groups : List (List α)) :
    run .serial processId first callback (group :: groups) =
      andThen (call (first.getD callback) group true) (serially callback groups) := rfl

variable {head rest : StateM (Session ω) (Except ExecutionError (List β))}

theorem andThen_error {e : ExecutionError} (h : (head s).1 = .error e) :
    andThen head rest s = (.error e, (head s).2) := by
  rw [andThen, bind_apply, h]
  rfl

theorem andThen_ok {outputs : List β} (h : (head s).1 = .ok outputs) :
    andThen head rest s =
      (((rest (head s).2).1).map (outputs ++ ·), (rest (head s).2).2) := by
  rw [andThen, bind_apply, h]
  simp only [bind_apply]
  cases (rest (head s).2).1 <;> rfl

theorem call_apply (callback : Callback ω α β) (group : List α) (own : Bool) (s : Session ω) :
    call callback group own s =
      ((callback group own s).1.result, (callback group own s).2) := rfl

theorem Answers.andThen {results : List (Except ExecutionError (List β))}
    {result : Except ExecutionError (List β)} (hhead : (head s).1 = result)
    (hrest : Answers (fun _ e => e) results (rest (head s).2).1) :
    Answers (fun _ e => e) (result :: results) (andThen head rest s).1 := by
  cases result with
  | error e =>
    rw [andThen_error hhead]
    exact answers_error e results
  | ok outputs =>
    rw [andThen_ok hhead]
    exact hrest.cons outputs

theorem serially_answers (hcallback : ComputesOn P callback f) (hs : P s)
    (groups : List (List α)) :
    Answers (fun _ e => e) (groups.map fun group => (f group).result)
      (serially callback groups s).1 := by
  induction groups generalizing s with
  | nil => exact answers_nil
  | cons group groups ih =>
    rw [serially_cons, List.map_cons]
    refine Answers.andThen ?_ (ih (hcallback.keeps group true s hs))
    rw [call_apply, hcallback.outcome group true hs]

/-- In serial mode the answer is that of the groups, and a failure is reported as it is. -/
theorem run_serial_answers {first : Option (Callback ω α β)}
    (hfirst : ComputesOn P (first.getD callback) f₀) (hcallback : ComputesOn P callback f) (hs : P s)
    (processId : String) (groups : List (List α)) :
    Answers (fun _ e => e) (results f₀ f groups)
      (run .serial processId first callback groups s).1 := by
  cases groups with
  | nil => exact answers_nil
  | cons group groups =>
    rw [run_serial_cons, results]
    refine Answers.andThen ?_ (serially_answers hcallback (hfirst.keeps group true s hs) groups)
    rw [call_apply, hfirst.outcome group true hs]

theorem andThen_congr {rest' : StateM (Session ω) (Except ExecutionError (List β))}
    (h : ∀ outputs, (head s).1 = .ok outputs → rest (head s).2 = rest' (head s).2) :
    andThen head rest s = andThen head rest' s := by
  cases hhead : (head s).1 with
  | error e => rw [andThen_error hhead, andThen_error hhead]
  | ok outputs => rw [andThen_ok hhead, andThen_ok hhead, h outputs hhead]

theorem serially_take {groups : List (List α)} {outputs : List (List β)} {e : ExecutionError}
    {rest : List (Except ExecutionError (List β))} (hcallback : ComputesOn P callback f) (hs : P s)
    (h : groups.map (fun group => (f group).result) = outputs.map .ok ++ .error e :: rest) :
    serially callback groups s = serially callback (groups.take (outputs.length + 1)) s := by
  induction groups generalizing s outputs with
  | nil => simp at h
  | cons group groups ih =>
    rw [List.take_succ_cons, serially_cons, serially_cons]
    refine andThen_congr fun out hout => ?_
    rw [call_apply, hcallback.outcome group true hs] at hout
    cases outputs with
    | nil => cases hout.symm.trans (List.cons.inj h).1
    | cons first outputs => exact ih (hcallback.keeps group true s hs) (List.cons.inj h).2

/-- In serial mode nothing runs behind the first group that fails. -/
theorem run_serial_take {first : Option (Callback ω α β)} {groups : List (List α)}
    {outputs : List (List β)} {e : ExecutionError} {rest : List (Except ExecutionError (List β))}
    (hfirst : ComputesOn P (first.getD callback) f₀) (hcallback : ComputesOn P callback f) (hs : P s)
    (processId : String) (h : results f₀ f groups = outputs.map .ok ++ .error e :: rest) :
    run .serial processId first callback groups s =
      run .serial processId first callback (groups.take (outputs.length + 1)) s := by
  cases groups with
  | nil => simp [results] at h
  | cons group groups =>
    rw [List.take_succ_cons, run_serial_cons, run_serial_cons]
    refine andThen_congr fun out hout => ?_
    rw [call_apply, hfirst.outcome group true hs] at hout
    cases outputs with
    | nil => cases hout.symm.trans (List.cons.inj h).1
    | cons first outputs =>
      exact serially_take hcallback (hfirst.keeps group true s hs) (List.cons.inj h).2

theorem andThen_events (hhead : (head s).2.events = s.events)
    (hrest : ∀ t, (rest t).2.events = t.events) : (andThen head rest s).2.events = s.events := by
  cases h : (head s).1 with
  | error e => rw [andThen_error h, hhead]
  | ok outputs => rw [andThen_ok h, hrest, hhead]

theorem serially_events (hcallback : Computes callback f) (groups : List (List α))
    (s : Session ω) : (serially callback groups s).2.events = s.events := by
  induction groups generalizing s with
  | nil => rfl
  | cons group groups ih => exact andThen_events (hcallback.events group true s) ih

theorem run_serial_events {first : Option (Callback ω α β)}
    (hfirst : Computes (first.getD callback) f₀) (hcallback : Computes callback f)
    (processId : String) (groups : List (List α)) (s : Session ω) :
    (run .serial processId first callback groups s).2.events = s.events := by
  cases groups with
  | nil => rfl
  | cons group groups =>
    exact andThen_events (hfirst.events group true s) (serially_events hcallback groups)

end Serial

section Execute

variable {mode : Mode} {prepared : Prepared α} {first : Option (Callback ω α β)}
  {callback : Callback ω α β} {s : Session ω}

/-- What a call reports of its answer. -/
def report (processId : String) : Except ExecutionError (List β) → List Event
  | .ok _ => []
  | .error e => [.executionFailed processId e.message]

theorem execute_ok {outputs : List β}
    (h : (run mode prepared.report.processId first callback prepared.groups s).1 = .ok outputs) :
    execute mode prepared first callback s =
      (.ok outputs, (run mode prepared.report.processId first callback prepared.groups s).2) := by
  rw [execute, ExceptT.mk, bind_apply, h]
  rfl

theorem execute_error {e : ExecutionError}
    (h : (run mode prepared.report.processId first callback prepared.groups s).1 = .error e) :
    execute mode prepared first callback s =
      (.error e, (Session.record (.executionFailed prepared.report.processId e.message)
        (run mode prepared.report.processId first callback prepared.groups s).2).2) := by
  rw [execute, ExceptT.mk, bind_apply, h]
  rfl

theorem execute_answer (mode : Mode) (prepared : Prepared α) (first : Option (Callback ω α β))
    (callback : Callback ω α β) (s : Session ω) :
    (execute mode prepared first callback s).1 =
      (run mode prepared.report.processId first callback prepared.groups s).1 := by
  cases h : (run mode prepared.report.processId first callback prepared.groups s).1 with
  | error e => rw [execute_error h]
  | ok outputs => rw [execute_ok h]

theorem execute_events (mode : Mode) (prepared : Prepared α) (first : Option (Callback ω α β))
    (callback : Callback ω α β) (s : Session ω) :
    (execute mode prepared first callback s).2.events =
      (run mode prepared.report.processId first callback prepared.groups s).2.events ++
        report prepared.report.processId (execute mode prepared first callback s).1 := by
  cases h : (run mode prepared.report.processId first callback prepared.groups s).1 with
  | error e =>
    rw [execute_error h]
    rfl
  | ok outputs =>
    rw [execute_ok h]
    exact (List.append_nil _).symm

/-- What is executed depends on the groups only by how they run. -/
theorem execute_congr {groups : List (List α)}
    (h : run mode prepared.report.processId first callback prepared.groups s =
      run mode prepared.report.processId first callback groups s) :
    execute mode prepared first callback s =
      execute mode { prepared with groups := groups } first callback s := by
  simp only [execute, ExceptT.mk, bind_apply, h]

end Execute

end Executor

end ShardedSql
