/-!
The scalars of the expression language, which are also the values rows are sharded by, with their
text, their truth, their total order and their stable hash. -/

namespace ShardedSql

inductive Value where
  | null
  | bool (b : Bool)
  | int (n : Int64)
  | str (s : String)
  deriving DecidableEq, Inhabited

namespace Value

inductive Kind where
  | null | bool | int | string
  deriving DecidableEq

def Kind.name : Kind → String
  | .null => "null"
  | .bool => "bool"
  | .int => "int"
  | .string => "string"

def kind : Value → Kind
  | null => .null
  | bool _ => .bool
  | int _ => .int
  | str _ => .string

def text : Value → String
  | null => "null"
  | bool true => "true"
  | bool false => "false"
  | int n => toString n.toInt
  | str s => s

def isNull : Value → Bool
  | null => true
  | _ => false

def int? : Value → Option Int64
  | int n => some n
  | _ => none

def truthy : Value → Bool
  | null => false
  | bool b => b
  | int n => n != 0
  | str s => !s.isEmpty

/-- Kinds come in the order null, bool, int, string; inside a kind `false` precedes `true`,
integers go by size and strings by their characters. -/
def compare : Value → Value → Ordering
  | null, null => .eq
  | null, _ => .lt
  | _, null => .gt
  | bool a, bool b => Ord.compare a b
  | bool _, _ => .lt
  | _, bool _ => .gt
  | int a, int b => Ord.compare a.toInt b.toInt
  | int _, _ => .lt
  | _, int _ => .gt
  | str a, str b => Ord.compare a b

instance : Ord Value := ⟨compare⟩

def le (a b : Value) : Bool := (compare a b).isLE

def lt (a b : Value) : Bool := (compare a b).isLT

/-- One round of the 64-bit FNV-1a hash. -/
def hashByte (h : UInt64) (b : UInt8) : UInt64 := (h ^^^ b.toUInt64) * 0x100000001b3

/-- FNV-1a over the UTF-8 bytes of the text, halved so that it is never negative. -/
def stableHash (v : Value) : Int64 :=
  ((v.text.toUTF8.toList.foldl hashByte 0xcbf29ce484222325) >>> 1).toInt64

end Value

end ShardedSql
