import ShardedSql.Expr.Eval

/-!
All values an expression stands for, in order: ranges ascend, lists are taken item by item, and a
sum with such a part is taken over all pairs. -/

namespace ShardedSql

/-- The most values an expansion may have. -/
def maxValues : Nat := 65536

namespace Expr

def withinLimit (count : Nat) : Except ExprError Unit :=
  if count ≤ maxValues then .ok () else .error (.tooManyValues maxValues)

/-- The end of a range. -/
def rangeEnd : Value → Except ExprError Int64
  | .int n => .ok n
  | v => .error (.typeMismatch ".." [v.kind])

/-- The integers from `first` to `last`. -/
def integers (first last : Int64) : Except ExprError (List Value) := do
  let count := (last.toInt - first.toInt + 1).toNat
  withinLimit count
  .ok ((List.range count).map fun i : Nat => .int (Int64.ofInt (first.toInt + Int.ofNat i)))

mutual

def expand (vars : Bindings) : Expr → Except ExprError (List Value)
  | .range first last => do
    let a ← rangeEnd (← evaluate vars first)
    let b ← rangeEnd (← evaluate vars last)
    integers a b
  | .list items => expandAll vars 0 items
  | .binary .add left right =>
    if left.isMany || right.isMany then do
      let xs ← expand vars left
      let ys ← expand vars right
      withinLimit (xs.length * ys.length)
      (xs.flatMap fun x => ys.map (x, ·)).mapM fun (x, y) => applyBinary .add x y
    else do .ok [← evaluate vars (.binary .add left right)]
  | e => do .ok [← evaluate vars e]

/-- The values of the items one after another; `count` values came before them. -/
def expandAll (vars : Bindings) (count : Nat) : List Expr → Except ExprError (List Value)
  | [] => .ok []
  | e :: es => do
    let vs ← expand vars e
    withinLimit (count + vs.length)
    let rest ← expandAll vars (count + vs.length) es
    .ok (vs ++ rest)

end

end Expr

end ShardedSql
