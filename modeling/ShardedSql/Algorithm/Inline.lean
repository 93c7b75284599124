import ShardedSql.Algorithm.Options
import ShardedSql.Constraint
import ShardedSql.Grouping
import ShardedSql.Route.Error
import ShardedSql.Template.Basic

/-!
Algorithms that compute the name of a target with a template: over one column, over the
combinations of several columns, or over values given as hints. -/

namespace ShardedSql

namespace Inline

def expressionOption : String := "algorithm-expression"

def rangeOption : String := "allow-range-query-with-inline-sharding"

def columnsOption : String := "sharding-columns"

def parseTemplate (r : Options.Reader) (raw : String) : Except AlgorithmError Template :=
  match Template.parse raw with
  | .ok t => .ok t
  | .error e => r.fail (.badExpression expressionOption e)

/-- One variable stands for one value. -/
def bind (name : String) (v : Value) : Bindings := fun n => if n = name then some v else none

/-- The target a template names; a variable that is no sharding column is a mismatch. -/
def target (t : Template) (columns : String) (vars : Bindings) : Except RouteError String :=
  match t.evaluate vars with
  | .ok name => .ok name
  | .error (.unknownVariable _) => .error (.mismatchedExpression t.source columns)
  | .error e => .error (.expression e)

end Inline

structure InlineAlgorithm where
  template : Template
  allowRanges : Bool

namespace InlineAlgorithm

def tag : String := "INLINE"

def build (options : Options) : Except AlgorithmError InlineAlgorithm := do
  let r : Options.Reader := ⟨tag, options⟩
  let template ← Inline.parseTemplate r (← r.required Inline.expressionOption)
  .ok ⟨template, ← r.boolean Inline.rangeOption false⟩

def precise (a : InlineAlgorithm) (column : String) (v : Value) : Except RouteError String :=
  if v.isNull then .error (.nullShardingValue column)
  else if !a.template.references column then
    .error (.mismatchedExpression a.template.source column)
  else Inline.target a.template column (Inline.bind column v)

/-- Where allowed, a range may be anywhere. -/
def range (a : InlineAlgorithm) (available : List String) : Except RouteError (List String) :=
  if a.allowRanges then .ok available else .error (.unsupportedRangeQuery tag)

end InlineAlgorithm

/-- The columns a complex algorithm is asked about, with lists of values or with ranges. -/
structure ComplexValue where
  values : NameMap (List Value)
  ranges : NameMap ValueRange

structure ComplexInlineAlgorithm where
  template : Template
  columns : List String
  allowRanges : Bool

namespace ComplexInlineAlgorithm

def tag : String := "COMPLEX_INLINE"

def build (options : Options) : Except AlgorithmError ComplexInlineAlgorithm := do
  let r : Options.Reader := ⟨tag, options⟩
  let template ← Inline.parseTemplate r (← r.required Inline.expressionOption)
  .ok ⟨template, Options.items options Inline.columnsOption, ← r.boolean Inline.rangeOption false⟩

/-- Every way to pick one value for each column, the first column varying slowest. -/
def combinations : List (String × List Value) → List (List (String × Value))
  | [] => [[]]
  | (column, values) :: rest =>
    values.flatMap fun v => (combinations rest).map ((column, v) :: ·)

/-- The combinations of the columns; without any column there is none. -/
def flatten (columns : NameMap (List Value)) : List (List (String × Value)) :=
  if columns.isEmpty then [] else combinations columns.entries

def bindings (combination : List (String × Value)) : Bindings :=
  fun name => combination.lookup name

/-- The first column with a null among its values. -/
def nullColumn? (columns : NameMap (List Value)) : Option String :=
  (columns.entries.find? fun e => e.2.any (·.isNull)).map (·.1)

def targets (a : ComplexInlineAlgorithm) (available : List String) (v : ComplexValue) :
    Except RouteError (List String) :=
  if !v.ranges.isEmpty then
    if a.allowRanges then .ok available else .error (.unsupportedRangeQuery tag)
  else if !a.columns.isEmpty && a.columns.length != v.values.size then
    .error (.mismatchedColumnCount a.columns.length v.values.size)
  else
    match nullColumn? v.values with
    | some column => .error (.nullShardingValue column)
    | none => do
      let names := ",".intercalate v.values.names
      .ok (distinct (← (flatten v.values).mapM fun c =>
        Inline.target a.template names (bindings c)))

end ComplexInlineAlgorithm

structure HintInlineAlgorithm where
  template : Template

namespace HintInlineAlgorithm

def tag : String := "HINT_INLINE"

def variableName : String := "value"

def defaultExpression : String := "$\x7bvalue\x7d"

def build (options : Options) : Except AlgorithmError HintInlineAlgorithm := do
  let r : Options.Reader := ⟨tag, options⟩
  let raw := (r.present? Inline.expressionOption).getD defaultExpression
  .ok ⟨← Inline.parseTemplate r raw⟩

def precise (a : HintInlineAlgorithm) (v : Value) : Except RouteError String :=
  if v.isNull then .error (.nullShardingValue variableName)
  else Inline.target a.template variableName (Inline.bind variableName v)

def targets (a : HintInlineAlgorithm) (values : List Value) : Except RouteError (List String) := do
  .ok (distinct (← values.mapM a.precise))

end HintInlineAlgorithm

end ShardedSql
