import ShardedSql.Algorithm.Audit
import ShardedSql.Algorithm.Basic
import ShardedSql.Algorithm.KeyGenerator

/-!
The algorithms that can be declared, by their tags. A tag is looked up without the blanks around it
and without regard to the case of ASCII letters. -/

namespace ShardedSql

/-- The declaration of an algorithm. -/
structure AlgorithmSpec where
  tag : String
  options : Options

abbrev Constructor (α : Type) := Options → Except AlgorithmError α

structure Registry where
  sharding : NameMap (Constructor Algorithm)
  keyGenerators : NameMap (Constructor KeyGenerator)
  auditors : NameMap (Constructor Auditor)

namespace Registry

variable {α : Type}

def key (tag : String) : String :=
  String.ofList ((Text.trimChars tag.toList).map Char.toUpper)

def register (m : NameMap (Constructor α)) (tag : String) (c : Constructor α) :
    Except AlgorithmError (NameMap (Constructor α)) :=
  if m.contains (key tag) then .error (.duplicateType (key tag)) else .ok (m.insert (key tag) c)

def construct (m : NameMap (Constructor α)) (d : AlgorithmSpec) : Except AlgorithmError α :=
  match m.get? (key d.tag) with
  | some c => c d.options
  | none => .error (.unknownType d.tag)

def empty : Registry := ⟨∅, ∅, ∅⟩

def builtin : Registry where
  sharding := .ofList [
    (InlineAlgorithm.tag, fun o => (InlineAlgorithm.build o).map fun a => .standard (.inline a)),
    (ComplexInlineAlgorithm.tag, fun o => (ComplexInlineAlgorithm.build o).map .complex),
    (HintInlineAlgorithm.tag, fun o => (HintInlineAlgorithm.build o).map .hint),
    (Modulo.tag, fun o => (Modulo.build o).map .standard),
    (Modulo.hashTag, fun o => (Modulo.buildHashed o).map .standard)]
  keyGenerators := .ofList [(KeyGenerator.tag, KeyGenerator.build)]
  auditors := .ofList [(Auditor.tag, fun _ => .ok .dmlConditions)]

def registerSharding (r : Registry) (tag : String) (c : Constructor Algorithm) :
    Except AlgorithmError Registry := do
  .ok { r with sharding := ← register r.sharding tag c }

def registerKeyGenerator (r : Registry) (tag : String) (c : Constructor KeyGenerator) :
    Except AlgorithmError Registry := do
  .ok { r with keyGenerators := ← register r.keyGenerators tag c }

def registerAuditor (r : Registry) (tag : String) (c : Constructor Auditor) :
    Except AlgorithmError Registry := do
  .ok { r with auditors := ← register r.auditors tag c }

end Registry

end ShardedSql
