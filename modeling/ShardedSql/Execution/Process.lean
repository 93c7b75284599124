import ShardedSql.Event
import ShardedSql.NameMap

/-!
The statements that are running, by their process ids. A process that was cancelled stays until it
completes.

One call at a time has the registry for itself. The lock that sees to this is not modelled, and neither is
the refusal of every call, with each process taken to be cancelled, once the lock is poisoned: that takes a
crash in a call that has the lock, and no call does anything there that can crash. -/

namespace ShardedSql

structure Process where
  database : String
  sql : String
  cancelled : Bool
  deriving DecidableEq

/-- The running processes and the number of the next one, modulo 2^64. -/
structure Processes where
  running : NameMap Process
  next : UInt64

namespace Processes

def empty : Processes := ⟨∅, 1⟩

def idOf (number : UInt64) : String := "process-" ++ toString number.toNat

/-- Registers a statement; its id comes with it. -/
def add (ps : Processes) (database sql : String) : String × Processes :=
  let id := idOf ps.next
  (id, ⟨ps.running.insert id ⟨database, sql, false⟩, ps.next + 1⟩)

def isCancelled (ps : Processes) (id : String) : Bool :=
  (ps.running.get? id).any (·.cancelled)

/-- Marks a running process; there may be none of that id. -/
def cancel? (ps : Processes) (id : String) : Option Processes :=
  (ps.running.get? id).map fun p =>
    { ps with running := ps.running.insert id { p with cancelled := true } }

def complete (ps : Processes) (id : String) : Processes :=
  { ps with running := ps.running.erase id }

/-- The running processes in the order of their ids. -/
def list (ps : Processes) : List (String × Process) := ps.running.entries

end Processes

end ShardedSql
