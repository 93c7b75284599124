import ShardedSql.Execution.Session

/-!
Running prepared groups. In serial mode they run one after another and the first failure ends it; in
parallel mode the caller runs the first group, workers run the others in any order, and the outcomes
are collected in the order of the groups. -/

namespace ShardedSql

/-- How a call ends. -/
inductive Outcome (β : Type) where
  | done (outputs : List β)
  | failed (e : ExecutionError)
  | crashed

def Outcome.result {β : Type} : Outcome β → Except ExecutionError (List β)
  | done outputs => .ok outputs
  | failed e => .error e
  | crashed => .error .crashed

/-- Runs the inputs of a group; the flag says whether the caller's own thread runs them. -/
abbrev Callback (ω α β : Type) := List α → Bool → StateM (Session ω) (Outcome β)

/-- The groups, by their places behind the first one, that workers run before the caller has run
the first group and after that. -/
structure Schedule where
  before : List Nat
  after : List Nat

/-- The workers run after the caller, in the order of the groups. -/
def Schedule.inOrder (count : Nat) : Schedule := ⟨[], List.range count⟩

inductive Mode where
  | serial
  | parallel (schedule : Nat → Schedule)

namespace Executor

variable {ω α β : Type}

def call (callback : Callback ω α β) (group : List α) (own : Bool) :
    StateM (Session ω) (Except ExecutionError (List β)) := do
  pure (← callback group own).result

/-- An error of a worker as the caller sees it. -/
def surfaced : ExecutionError → ExecutionError
  | .statement dataSource message => .statement dataSource message
  | .unknown message => .unknown message
  | .crashed => .crashed
  | e => .unknown e.message

def serially (callback : Callback ω α β) :
    List (List α) → StateM (Session ω) (Except ExecutionError (List β))
  | [] => pure (.ok [])
  | group :: groups => do
    match ← call callback group true with
    | .error e => pure (.error e)
    | .ok outputs => do
      match ← serially callback groups with
      | .error e => pure (.error e)
      | .ok rest => pure (.ok (outputs ++ rest))

/-- The outcomes of the groups at the given places, in the order in which they run. -/
def runAt (callback : Callback ω α β) (groups : List (List α)) :
    List Nat → StateM (Session ω) (List (Nat × Except ExecutionError (List β)))
  | [] => pure []
  | place :: places => do
    let result ← call callback ((groups[place]?).getD []) false
    let rest ← runAt callback groups places
    pure ((place, result) :: rest)

/-- Collects the outcomes in the order of the groups. The first error counts; the loss of an outcome
is reported, and the others go on. -/
def collect (processId : String) (outcomes : List (Nat × Except ExecutionError (List β))) :
    List Nat → StateM (Session ω) (Except ExecutionError (List β))
  | [] => pure (.ok [])
  | place :: places => do
    match outcomes.lookup place with
    | none =>
      Session.record (.executionInterrupted processId (place + 1))
      collect processId outcomes places
    | some (.error e) => pure (.error (surfaced e))
    | some (.ok outputs) => do
      match ← collect processId outcomes places with
      | .error e => pure (.error e)
      | .ok rest => pure (.ok (outputs ++ rest))

def parallel (schedule : Schedule) (processId : String) (first callback : Callback ω α β)
    (group : List α) (groups : List (List α)) :
    StateM (Session ω) (Except ExecutionError (List β)) := do
  let early ← runAt callback groups schedule.before
  let own ← call first group true
  let late ← runAt callback groups schedule.after
  match own with
  | .error e => pure (.error e)
  | .ok outputs => do
    match ← collect processId (early ++ late) (List.range groups.length) with
    | .error e => pure (.error e)
    | .ok rest => pure (.ok (outputs ++ rest))

/-- The first group runs with a callback of its own, if there is one. -/
def run (mode : Mode) (processId : String) (first : Option (Callback ω α β))
    (callback : Callback ω α β) :
    List (List α) → StateM (Session ω) (Except ExecutionError (List β))
  | [] => pure (.ok [])
  | group :: groups =>
    let first := first.getD callback
    match mode with
    | .parallel schedule => parallel (schedule groups.length) processId first callback group groups
    | .serial => do
      match ← call first group true with
      | .error e => pure (.error e)
      | .ok outputs => do
        match ← serially callback groups with
        | .error e => pure (.error e)
        | .ok rest => pure (.ok (outputs ++ rest))

/-- Runs the groups and reports a failure. -/
def execute (mode : Mode) (prepared : Prepared α) (first : Option (Callback ω α β))
    (callback : Callback ω α β) : ExceptT ExecutionError (StateM (Session ω)) (List β) := .mk do
  let result ← run mode prepared.report.processId first callback prepared.groups
  match result with
  | .error e =>
    Session.record (.executionFailed prepared.report.processId e.message)
    pure (.error e)
  | .ok outputs => pure (.ok outputs)

end Executor

end ShardedSql
