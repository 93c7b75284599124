import ShardedSql.Grouping
import ShardedSql.Value

/-!
What a statement demands of one column: one of a list of values, or a value within a range.
Intersecting two demands admits exactly what both admit, or is nothing. -/

namespace ShardedSql

inductive Bound where
  | unbounded
  | included (v : Value)
  | excluded (v : Value)
  deriving DecidableEq

def Bound.allowsAbove (v : Value) : Bound → Bool
  | .unbounded => true
  | .included lower => lower.le v
  | .excluded lower => lower.lt v

def Bound.allowsBelow (v : Value) : Bound → Bool
  | .unbounded => true
  | .included upper => v.le upper
  | .excluded upper => v.lt upper

structure ValueRange where
  lower : Bound
  upper : Bound
  deriving DecidableEq

namespace ValueRange

def all : ValueRange := ⟨.unbounded, .unbounded⟩

def closed (lower upper : Value) : ValueRange := ⟨.included lower, .included upper⟩

def contains (r : ValueRange) (v : Value) : Bool := r.lower.allowsAbove v && r.upper.allowsBelow v

/-- Whether the bounds cross. Two equal bounds leave one value when both are included. -/
def isEmpty (r : ValueRange) : Bool :=
  match r.lower, r.upper with
  | .included a, .included b => b.lt a
  | .included a, .excluded b | .excluded a, .excluded b | .excluded a, .included b => b.le a
  | _, _ => false

/-- Of two bounds the one that allows less; `prefer` says on which side the tighter one lies. -/
def tighter (prefer : Ordering) (a b : Bound) : Bound :=
  let choose (v w : Value) : Bound :=
    match v.compare w with
    | .eq => match a with
      | .excluded _ => a
      | _ => b
    | o => if o = prefer then a else b
  match a, b with
  | .unbounded, b => b
  | a, .unbounded => a
  | .included v, .included w | .included v, .excluded w
  | .excluded v, .included w | .excluded v, .excluded w => choose v w

def intersect (r s : ValueRange) : Option ValueRange :=
  let both : ValueRange := ⟨tighter .gt r.lower s.lower, tighter .lt r.upper s.upper⟩
  if both.isEmpty then none else some both

end ValueRange

inductive Constraint where
  | list (values : List Value)
  | range (r : ValueRange)
  deriving DecidableEq

namespace Constraint

def admits : Constraint → Value → Bool
  | list values, v => values.contains v
  | range r, v => r.contains v

/-- A list constraint without repetitions. -/
def ofValues (values : List Value) : Constraint := .list (distinct values)

def listUnlessEmpty (values : List Value) : Option Constraint :=
  if values.isEmpty then none else some (.list values)

def intersect : Constraint → Constraint → Option Constraint
  | list a, list b => listUnlessEmpty (a.filter b.contains)
  | list a, range r | range r, list a => listUnlessEmpty (a.filter r.contains)
  | range r, range s => (r.intersect s).map range

end Constraint

end ShardedSql
