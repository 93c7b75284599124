import ShardedSql.Condition
import ShardedSql.Route.Basic
import ShardedSql.Rule.Basic

/-!
A bounded cache of routes, by the text of the statement and its conditions. The entry that was put
in first goes first.

A lookup and a `put` have the cache for themselves. A poisoned lock, which would make every lookup a miss,
keep nothing that is put and show a size of zero, is not modelled: no call can crash while it has the lock. -/

namespace ShardedSql

structure CacheKey where
  sql : String
  conditions : Conditions
  deriving DecidableEq

/-- The stored routes by their keys, and the queue in which the keys wait for their turn to leave. -/
structure RouteCache where
  options : CacheOptions
  entries : List (CacheKey × Route)
  queue : List CacheKey

namespace RouteCache

def empty (options : CacheOptions) : RouteCache := ⟨options, [], []⟩

def size (c : RouteCache) : Nat := c.entries.length

def isCacheable (c : RouteCache) (sql : String) : Bool :=
  c.options.maxSize > 0 && sql.utf8ByteSize ≤ c.options.maxSqlLength

def get? (c : RouteCache) (key : CacheKey) : Option Route := c.entries.lookup key

/-- Replaces the route of a key that is there. -/
def replace (key : CacheKey) (route : Route) (entries : List (CacheKey × Route)) :
    List (CacheKey × Route) :=
  entries.map fun e => if e.1 = key then (key, route) else e

/-- A key that is there keeps its place in the queue; a new one goes to its end. -/
def store (c : RouteCache) (key : CacheKey) (route : Route) : RouteCache :=
  if (c.get? key).isSome then { c with entries := replace key route c.entries }
  else { c with entries := c.entries ++ [(key, route)], queue := c.queue ++ [key] }

/-- Takes keys from the front of the queue as long as there are more entries than there may be. -/
def evictFrom (maxSize : Nat) (entries : List (CacheKey × Route)) :
    List CacheKey → List (CacheKey × Route) × List CacheKey
  | [] => (entries, [])
  | oldest :: queue =>
    if entries.length ≤ maxSize then (entries, oldest :: queue)
    else evictFrom maxSize (entries.filter (·.1 ≠ oldest)) queue

def evict (c : RouteCache) : RouteCache :=
  let (entries, queue) := evictFrom c.options.maxSize c.entries c.queue
  { c with entries := entries, queue := queue }

/-- Stores a route that may be cached; what does not fit beside it leaves. -/
def put (c : RouteCache) (key : CacheKey) (route : Route) : RouteCache :=
  if c.isCacheable key.sql then (c.store key route).evict else c

end RouteCache

end ShardedSql
