import Std.Data.TreeSet

/-!
Lists without repetitions, and the members of a list grouped by a key. -/

namespace ShardedSql

/-- The elements that are the same as none among `seen` and as none before them. -/
def distinctFrom {α : Type} (same : α → α → Bool) (seen : List α) : List α → List α
  | [] => []
  | a :: l =>
    if seen.any (same · a) then distinctFrom same seen l
    else a :: distinctFrom same (a :: seen) l

/-- Of elements that are the same the first one. -/
def distinctBy {α : Type} (same : α → α → Bool) (l : List α) : List α := distinctFrom same [] l

/-- Every element once, where it first occurs. -/
def distinct {α : Type} [BEq α] (l : List α) : List α := distinctBy (· == ·) l

def distinctOnFrom {α : Type} (name : α → String) (seen : Std.TreeSet String) : List α → List α
  | [] => []
  | a :: l =>
    if seen.contains (name a) then distinctOnFrom name seen l
    else a :: distinctOnFrom name (seen.insert (name a)) l

/-- Of elements of one name the first one; made for long lists. -/
def distinctOn {α : Type} (name : α → String) (l : List α) : List α := distinctOnFrom name ∅ l

/-- The keys in the order of their first members, each with its members in order. -/
def groupOn {α κ : Type} [BEq κ] (key : α → κ) (l : List α) : List (κ × List α) :=
  (distinct (l.map key)).map fun k => (k, l.filter fun a => key a == k)

end ShardedSql
