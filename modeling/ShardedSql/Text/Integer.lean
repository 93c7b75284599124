/-!
Whole numbers as text, and the exact results that fit in 64 bits. -/

namespace ShardedSql.Text

/-- The number a run of decimal digits denotes; no digits denote nothing. -/
def digits? : List Char → Option Nat
  | [] => none
  | cs => if cs.all Char.isDigit then
      some (cs.foldl (fun n c => 10 * n + (c.toNat - '0'.toNat)) 0) else none

/-- The signed 64-bit value of an integer, if it has one. -/
def fit64 (n : Int) : Option Int64 :=
  if Int64.minValue.toInt ≤ n ∧ n ≤ Int64.maxValue.toInt then some (Int64.ofInt n) else none

/-- Reads an optional sign and decimal digits within 64 signed bits. -/
def int64? (s : String) : Option Int64 :=
  match s.toList with
  | '-' :: cs => (digits? cs).bind fun n => fit64 (-n)
  | '+' :: cs => (digits? cs).bind fun n => fit64 n
  | cs => (digits? cs).bind fun n => fit64 n

end ShardedSql.Text
