import ShardedSql.Expr.Basic
import ShardedSql.Expr.Error
import ShardedSql.Text.Case
import ShardedSql.Text.Integer

/-!
The value of an expression. Integer results are computed exactly and then have to fit in 64 bits;
`&&`, `||` and the conditional evaluate no more than they need. -/

namespace ShardedSql

/-- What the variables stand for. -/
abbrev Bindings := String → Option Value

def Bindings.none : Bindings := fun _ => .none

namespace Expr

open Text (fit64)

/-- An exact result as a value. -/
def fitted (operation : String) (n : Int) : Except ExprError Value :=
  match fit64 n with
  | some n => .ok (.int n)
  | none => .error (.overflow operation)

def compareBy (op : BinaryOp) (o : Ordering) : Option Bool :=
  match op with
  | .lt => some o.isLT
  | .le => some o.isLE
  | .gt => some o.isGT
  | .ge => some o.isGE
  | _ => none

def mismatch (op : BinaryOp) (a b : Value) : ExprError := .typeMismatch op.symbol [a.kind, b.kind]

/-- Division truncates and a remainder has the sign of the dividend; a remainder whose quotient does
not fit is refused as well. -/
def arithmetic (op : BinaryOp) (a b : Int64) : Except ExprError Value :=
  match op with
  | .add => fitted "+" (a.toInt + b.toInt)
  | .sub => fitted "-" (a.toInt - b.toInt)
  | .mul => fitted "*" (a.toInt * b.toInt)
  | .div => if b = 0 then .error .divisionByZero else fitted "/" (a.toInt.tdiv b.toInt)
  | .rem =>
    if b = 0 then .error .divisionByZero
    else do
      let _ ← fitted "%" (a.toInt.tdiv b.toInt)
      fitted "%" (a.toInt.tmod b.toInt)
  | _ => .error (mismatch op (.int a) (.int b))

/-- An operator on two values; `&&` and `||` have no value of this kind. -/
def applyBinary (op : BinaryOp) (a b : Value) : Except ExprError Value :=
  match op, a, b with
  | .eq, a, b => .ok (.bool (a = b))
  | .ne, a, b => .ok (.bool (a ≠ b))
  | .add, .str a, b => .ok (.str (a ++ b.text))
  | .add, a, .str b => .ok (.str (a.text ++ b))
  | op, .int a, .int b =>
    match compareBy op (compare a.toInt b.toInt) with
    | some r => .ok (.bool r)
    | none => arithmetic op a b
  | op, .str a, .str b =>
    match compareBy op (compare a b) with
    | some r => .ok (.bool r)
    | none => .error (mismatch op (.str a) (.str b))
  | op, a, b => .error (mismatch op a b)

def applyUnary (op : UnaryOp) (v : Value) : Except ExprError Value :=
  match op, v with
  | .not, v => .ok (.bool (!v.truthy))
  | .negate, .int n => fitted "-" (-n.toInt)
  | .negate, v => .error (.typeMismatch "-" [v.kind])

/-- The characters from `start` on, at most `length` many; what lies below zero counts as zero. -/
def substring (text : String) (start : Int64) (length : Option Int64) : String :=
  let rest := text.toList.drop start.toInt.toNat
  match length with
  | none => String.ofList rest
  | some n => String.ofList (rest.take n.toInt.toNat)

/-- The functions an expression may call. -/
inductive Builtin where
  | abs | hash | str | lower | upper | substr
  deriving DecidableEq

def Builtin.name : Builtin → String
  | .abs => "abs"
  | .hash => "hash"
  | .str => "str"
  | .lower => "lower"
  | .upper => "upper"
  | .substr => "substr"

def Builtin.all : List Builtin := [.abs, .hash, .str, .lower, .upper, .substr]

def Builtin.ofName? (name : String) : Option Builtin := all.find? (·.name == name)

def Builtin.arity : Builtin → Arity
  | .substr => .twoOrThree
  | _ => .one

def Builtin.refuse (f : Builtin) (values : List Value) : ExprError :=
  .typeMismatch f.name (values.map (·.kind))

def Builtin.apply : Builtin → List Value → Except ExprError Value
  | .abs, [.int n] => fitted "abs" n.toInt.natAbs
  | .hash, [v] => .ok (.int v.stableHash)
  | .str, [v] => .ok (.str v.text)
  | .lower, [.str s] => .ok (.str (Text.lower s))
  | .upper, [.str s] => .ok (.str (Text.upper s))
  | .substr, [.str s, .int start] => .ok (.str (substring s start none))
  | .substr, [.str s, .int start, .int n] => .ok (.str (substring s start (some n)))
  | .substr, [.str _, .int _, n] => .error (Builtin.refuse .substr [n])
  | .substr, [text, start] => .error (Builtin.refuse .substr [text, start])
  | .substr, [text, start, _] => .error (Builtin.refuse .substr [text, start])
  | .substr, values => .error (.argumentCount "substr" .twoOrThree values.length)
  | f, [v] => .error (Builtin.refuse f [v])
  | f, values => .error (.argumentCount f.name .one values.length)

def applyFunction (name : String) (values : List Value) : Except ExprError Value :=
  match Builtin.ofName? name with
  | some f => f.apply values
  | none => .error (.unknownFunction name)

def lookup (vars : Bindings) (name : String) : Except ExprError Value :=
  match vars name with
  | some v => .ok v
  | none => .error (.unknownVariable name)

mutual

/-- The single value of an expression. -/
def evaluate (vars : Bindings) : Expr → Except ExprError Value
  | .literal v => .ok v
  | .var name => lookup vars name
  | .unary op e => do applyUnary op (← evaluate vars e)
  | .binary .and a b => do
    if (← evaluate vars a).truthy then .ok (.bool (← evaluate vars b).truthy)
    else .ok (.bool false)
  | .binary .or a b => do
    if (← evaluate vars a).truthy then .ok (.bool true)
    else .ok (.bool (← evaluate vars b).truthy)
  | .binary op a b => do
    let x ← evaluate vars a
    let y ← evaluate vars b
    applyBinary op x y
  | .conditional c a b => do
    if (← evaluate vars c).truthy then evaluate vars a else evaluate vars b
  | .call name es => do applyFunction name (← evaluateAll vars es)
  | .range _ _ => .error .notScalar
  | .list _ => .error .notScalar

def evaluateAll (vars : Bindings) : List Expr → Except ExprError (List Value)
  | [] => .ok []
  | e :: es => do
    let v ← evaluate vars e
    let vs ← evaluateAll vars es
    .ok (v :: vs)

end

end Expr

end ShardedSql
