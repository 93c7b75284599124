import ShardedSql.Algorithm.Inline
import ShardedSql.Algorithm.Modulo

/-!
The sharding algorithms by what they are asked: one column, several columns, or hints. -/

namespace ShardedSql

inductive StandardAlgorithm where
  | inline (a : InlineAlgorithm)
  | mod (count : ShardCount)
  | hashMod (count : ShardCount)

namespace StandardAlgorithm

/-- The target of one value, if it has one. -/
def precise (a : StandardAlgorithm) (available : List String) (column : String) (v : Value) :
    Except RouteError (Option String) :=
  match a with
  | inline a => do .ok (some (← a.precise column v))
  | mod count => Modulo.precise count available column v
  | hashMod count => Modulo.hashed count available column v

/-- The targets that may hold the values of a range. -/
def range (a : StandardAlgorithm) (available : List String) (r : ValueRange) :
    Except RouteError (List String) :=
  match a with
  | inline a => a.range available
  | mod count => .ok (Modulo.range count available r)
  | hashMod _ => .ok available

end StandardAlgorithm

inductive Algorithm where
  | standard (a : StandardAlgorithm)
  | complex (a : ComplexInlineAlgorithm)
  | hint (a : HintInlineAlgorithm)

def Algorithm.kind : Algorithm → String
  | standard _ => "standard"
  | complex _ => "complex"
  | hint _ => "hint"

namespace Modulo

def tag : String := "MOD"

def hashTag : String := "HASH_MOD"

def build (options : Options) : Except AlgorithmError StandardAlgorithm := do
  .ok (.mod (← Options.Reader.positive ⟨tag, options⟩ countOption))

def buildHashed (options : Options) : Except AlgorithmError StandardAlgorithm := do
  .ok (.hashMod (← Options.Reader.positive ⟨hashTag, options⟩ countOption))

end Modulo

end ShardedSql
