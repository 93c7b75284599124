import ShardedSql.Execution.Basic
import ShardedSql.Execution.Process

/-!
The state that executions share: the processes, the events so far, and whatever the caller's own
functions keep. As with the registry, the lock around the events is taken never to be poisoned; a poisoned
one would drop the event. -/

namespace ShardedSql

structure Session (ω : Type) where
  processes : Processes
  events : List Event
  world : ω

namespace Session

variable {ω : Type}

def record (e : Event) : StateM (Session ω) Unit :=
  modify fun s => { s with events := s.events ++ [e] }

/-- Registers a statement and gives its process id. -/
def add (database sql : String) : StateM (Session ω) String := do
  let (id, processes) := (← get).processes.add database sql
  modify fun s => { s with processes := processes }
  pure id

/-- Cancels a process; whether there was one to cancel. -/
def cancel (id : String) : StateM (Session ω) Bool := do
  match (← get).processes.cancel? id with
  | none => pure false
  | some processes =>
    modify fun s => { s with processes := processes }
    record (.processCancelled id)
    pure true

/-- The error of a process that was cancelled. -/
def check (id : String) : StateM (Session ω) (Except ExecutionError Unit) := do
  if (← get).processes.isCancelled id then pure (.error (.cancelled id)) else pure (.ok ())

def complete (id : String) : StateM (Session ω) Unit :=
  modify fun s => { s with processes := s.processes.complete id }

end Session

end ShardedSql
