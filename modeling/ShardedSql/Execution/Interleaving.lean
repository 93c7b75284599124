import ShardedSql.Execution.Driver

/-!
A statement in parallel mode, step by step: the caller, the workers of the pool and an operator who may
cancel the process take turns in any order. The pool may be slower than the caller, who does not wait
for the groups behind the first one that failed. -/

namespace ShardedSql

/-- What the pool and the caller execute. The caller runs the first group; the callbacks know the
process they work for. -/
structure ParallelCall (ω α β : Type) where
  workers : Nat
  groups : List (List α)
  first : String → Callback ω α β
  callback : String → Callback ω α β

namespace ParallelCall

/-- Where the caller stands. -/
inductive Stage (β : Type) where
  | idle (database sql : String)
  /-- So many groups behind the first one are in the pool. -/
  | submitting (count : Nat)
  | running (result : Except ExecutionError (List β))
  /-- Waits for the group at the place behind the first one, with the outputs of those before it. -/
  | collecting (place : Nat) (outputs : List β)
  | returned (result : Except ExecutionError (List β))
  | completed (result : Except ExecutionError (List β))

/-- Groups in the pool are known by their places behind the first one. -/
structure State (ω β : Type) where
  session : Session ω
  processId : String
  stage : Stage β
  queued : List Nat
  running : List (Nat × Except ExecutionError (List β))
  finished : List (Nat × Except ExecutionError (List β))

inductive Action where
  | register
  | submit
  | startFirst
  | finishFirst
  | receive
  | complete
  /-- A worker takes the group at the place, or is done with it. -/
  | start (place : Nat)
  | finish (place : Nat)
  /-- The operator cancels the process. -/
  | cancel
  deriving DecidableEq

namespace State

variable {ω β : Type}

/-- The state before a statement is registered. -/
def idle (session : Session ω) (database sql : String) : State ω β :=
  ⟨session, "", .idle database sql, [], [], []⟩

/-- The state in which the groups of a process are about to be executed. -/
def ready (session : Session ω) (processId : String) : State ω β :=
  ⟨session, processId, .submitting 0, [], [], []⟩

/-- The caller has its result, and reports a failure. -/
def giveBack (s : State ω β) (result : Except ExecutionError (List β)) : State ω β :=
  { s with
    stage := .returned result
    session := match result with
      | .ok _ => s.session
      | .error e => (Session.record (.executionFailed s.processId e.message) s.session).2 }

end State

variable {ω α β : Type}

/-- The group at a place behind the first one. -/
def groupAt (c : ParallelCall ω α β) (place : Nat) : List α := (c.groups.tail[place]?).getD []

/-- One step, if it can be taken. What a group does to the session it does when it starts; its result
can be received when it has finished. -/
def step? (c : ParallelCall ω α β) (s : State ω β) : Action → Option (State ω β)
  | .register =>
    match s.stage with
    | .idle database sql =>
      let (id, session) := Session.add database sql s.session
      some { s with session := session, processId := id, stage := .submitting 0 }
    | _ => none
  | .submit =>
    match s.stage with
    | .submitting count =>
      if count < c.groups.tail.length then
        some { s with stage := .submitting (count + 1), queued := s.queued ++ [count] }
      else none
    | _ => none
  | .startFirst =>
    match s.stage, c.groups with
    | .submitting _, [] => some (s.giveBack (.ok []))
    | .submitting count, group :: groups =>
      if count = groups.length then
        let (result, session) := Executor.call (c.first s.processId) group true s.session
        some { s with session := session, stage := .running result }
      else none
    | _, _ => none
  | .finishFirst =>
    match s.stage with
    | .running (.ok outputs) => some { s with stage := .collecting 0 outputs }
    | .running (.error e) => some (s.giveBack (.error e))
    | _ => none
  | .receive =>
    match s.stage with
    | .collecting place outputs =>
      if place = c.groups.tail.length then some (s.giveBack (.ok outputs))
      else
        match s.finished.lookup place with
        | none => none
        | some (.ok more) => some { s with stage := .collecting (place + 1) (outputs ++ more) }
        | some (.error e) => some (s.giveBack (.error (Executor.surfaced e)))
    | _ => none
  | .complete =>
    match s.stage with
    | .returned result =>
      some { s with
        stage := .completed result
        session := (Session.complete s.processId s.session).2 }
    | _ => none
  | .start place =>
    if place ∈ s.queued ∧ s.running.length < c.workers then
      let (result, session) :=
        Executor.call (c.callback s.processId) (c.groupAt place) false s.session
      some { s with
        session := session
        queued := s.queued.erase place
        running := s.running ++ [(place, result)] }
    else none
  | .finish place =>
    match s.running.lookup place with
    | none => none
    | some result =>
      some { s with
        running := s.running.filter (·.1 ≠ place)
        finished := s.finished ++ [(place, result)] }
  | .cancel =>
    match s.stage with
    | .idle _ _ => none
    | _ => some { s with session := (Session.cancel s.processId s.session).2 }

/-- The state behind some steps. -/
def run? (c : ParallelCall ω α β) (s : State ω β) (actions : List Action) : Option (State ω β) :=
  actions.foldlM c.step? s

/-- The result of the caller, once there is one. -/
def State.result? (s : State ω β) : Option (Except ExecutionError (List β)) :=
  match s.stage with
  | .returned result | .completed result => some result
  | _ => none

end ParallelCall

/-- Prepared groups in a pool. -/
def Executor.parallelCall {ω α β : Type} (workers : Nat) (prepared : Prepared α)
    (first : Option (Callback ω α β)) (callback : Callback ω α β) : ParallelCall ω α β where
  workers := workers
  groups := prepared.groups
  first := fun _ => first.getD callback
  callback := fun _ => callback

/-- The groups of a statement in a pool, where each looks first whether it was cancelled. -/
def Driver.parallelCall {ω α β : Type} (workers : Nat) (groups : List (List α))
    (callback : Callback ω α β) : ParallelCall ω α β where
  workers := workers
  groups := groups
  first := fun id => cancellable id callback
  callback := fun id => cancellable id callback

end ShardedSql
