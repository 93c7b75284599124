import ShardedSql.Algorithm.Options
import ShardedSql.Constraint
import ShardedSql.Grouping
import ShardedSql.Route.Error

/-!
Algorithms that number the targets: a key belongs to the target whose name ends in the key, or its
hash, modulo the number of shards. -/

namespace ShardedSql

/-- A number of shards. -/
abbrev ShardCount := { n : Nat // 0 < n }

namespace Modulo

def countOption : String := "sharding-count"

/-- The number at the end of a name. -/
def suffix? (name : String) : Option Int64 :=
  Text.int64? (String.ofList (name.toList.reverse.takeWhile Char.isDigit).reverse)

/-- The first target that ends in the number of the shard. -/
def find? (available : List String) (shard : Int) : Option String :=
  available.find? fun name => (suffix? name).any (·.toInt == shard)

/-- The shard of a key: the least non-negative remainder. -/
def shard (count : ShardCount) (key : Int) : Int := key % (count.val : Int)

/-- The integer a key stands for. -/
def key (column : String) : Value → Except RouteError Int64
  | .null => .error (.nullShardingValue column)
  | .int n => .ok n
  | .str s =>
    match Text.int64? (Text.trim s) with
    | some n => .ok n
    | none => .error (.validation (.keyNotInteger column))
  | .bool _ => .error (.validation (.keyNotInteger column))

def precise (count : ShardCount) (available : List String) (column : String) (v : Value) :
    Except RouteError (Option String) := do
  .ok (find? available (shard count (← key column v).toInt))

/-- The least integer above a bound. -/
def first? : Bound → Option Int64
  | .included (.int n) => some n
  | .excluded (.int n) => Text.fit64 (n.toInt + 1)
  | _ => none

/-- The greatest integer below a bound. -/
def last? : Bound → Option Int64
  | .included (.int n) => some n
  | .excluded (.int n) => Text.fit64 (n.toInt - 1)
  | _ => none

/-- The targets of the integers in the range, or everything when it reaches all shards or is not
bounded by integers. -/
def range (count : ShardCount) (available : List String) (r : ValueRange) : List String :=
  match first? r.lower, last? r.upper with
  | some a, some b =>
    let steps := b.toInt - a.toInt
    if (count.val : Int) - 1 ≤ steps then available
    else distinct ((List.range (steps + 1).toNat).filterMap fun i : Nat =>
      find? available (shard count (a.toInt + Int.ofNat i)))
  | _, _ => available

def hashed (count : ShardCount) (available : List String) (column : String) (v : Value) :
    Except RouteError (Option String) :=
  if v.isNull then .error (.nullShardingValue column)
  else .ok (find? available (shard count v.stableHash.toInt))

end Modulo

end ShardedSql
