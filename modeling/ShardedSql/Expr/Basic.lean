import ShardedSql.Value

/-!
Expression trees. -/

namespace ShardedSql

inductive UnaryOp where
  | negate | not
  deriving DecidableEq

inductive BinaryOp where
  | add | sub | mul | div | rem | eq | ne | lt | le | gt | ge | and | or
  deriving DecidableEq

def UnaryOp.symbol : UnaryOp → String
  | .negate => "-"
  | .not => "!"

def BinaryOp.symbol : BinaryOp → String
  | .add => "+"
  | .sub => "-"
  | .mul => "*"
  | .div => "/"
  | .rem => "%"
  | .eq => "=="
  | .ne => "!="
  | .lt => "<"
  | .le => "<="
  | .gt => ">"
  | .ge => ">="
  | .and => "&&"
  | .or => "||"

inductive Expr where
  | literal (value : Value)
  | var (name : String)
  | unary (op : UnaryOp) (operand : Expr)
  | binary (op : BinaryOp) (left right : Expr)
  | conditional (condition yes no : Expr)
  | call (name : String) (arguments : List Expr)
  | range (first last : Expr)
  | list (items : List Expr)
  deriving Inhabited

namespace Expr

mutual

/-- The variables in reading order, as often as they occur. -/
def varNames : Expr → List String
  | .literal _ => []
  | .var name => [name]
  | .unary _ operand => operand.varNames
  | .binary _ left right => left.varNames ++ right.varNames
  | .conditional condition yes no => condition.varNames ++ yes.varNames ++ no.varNames
  | .call _ arguments => varNamesAll arguments
  | .range first last => first.varNames ++ last.varNames
  | .list items => varNamesAll items

def varNamesAll : List Expr → List String
  | [] => []
  | e :: es => e.varNames ++ varNamesAll es

end

/-- Whether the expression can stand for several values: a range, a list, or a sum with such a
part. -/
def isMany : Expr → Bool
  | .range _ _ | .list _ => true
  | .binary .add left right => left.isMany || right.isMany
  | _ => false

end Expr

end ShardedSql
