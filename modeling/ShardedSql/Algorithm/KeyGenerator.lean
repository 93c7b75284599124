import ShardedSql.Algorithm.Options
import ShardedSql.Value

/-!
Keys for rows that come without one: consecutive integers, which wrap at 64 bits. The counters of
all generators are a value of their own, so that what was handed out outlives a failed statement. -/

namespace ShardedSql

structure KeyGenerator where
  next : Int64
  deriving DecidableEq

namespace KeyGenerator

def tag : String := "INCREMENT"

def startOption : String := "start"

def build (options : Options) : Except AlgorithmError KeyGenerator := do
  .ok ⟨← Options.Reader.integer ⟨tag, options⟩ startOption 1⟩

def generate (g : KeyGenerator) : Value × KeyGenerator := (.int g.next, ⟨g.next + 1⟩)

end KeyGenerator

/-- The generators by name, each with the key it hands out next. -/
abbrev KeyCounters := NameMap KeyGenerator

/-- A key of the named generator; one that was never declared starts at one. -/
def KeyCounters.take (counters : KeyCounters) (name : String) : Value × KeyCounters :=
  let (key, g) := ((counters.get? name).getD ⟨1⟩).generate
  (key, counters.insert name g)

end ShardedSql
