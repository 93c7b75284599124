import ShardedSql.Algorithm.Basic
import ShardedSql.Condition

/-!
Strategies: by which columns, and how, the targets of a statement are chosen among the available
ones. A statement that says nothing about the columns goes everywhere. -/

namespace ShardedSql

inductive Strategy where
  /-- Every available target. -/
  | everywhere
  | standard (column : String) (algorithm : StandardAlgorithm)
  | complex (columns : List String) (algorithm : ComplexInlineAlgorithm)
  | hint (algorithm : HintInlineAlgorithm)

namespace Strategy

def build (columns : List String) : Algorithm → Except AlgorithmError Strategy
  | .standard a =>
    match columns with
    | [column] => .ok (standard column a)
    | _ => .error (.initialization "standard strategy" (.notOneColumn columns.length))
  | .complex a =>
    if columns.isEmpty then .error (.initialization "complex strategy" .noColumn)
    else .ok (complex columns a)
  | .hint a => .ok (hint a)

def columns : Strategy → List String
  | standard column _ => [column]
  | complex columns _ => columns
  | hint _ | everywhere => []

def isHint : Strategy → Bool
  | hint _ => true
  | _ => false

/-- The available names of the targets, in their own spelling, each once. -/
def retain (available targets : List String) : List String :=
  distinct (targets.filterMap fun t => available.find? fun name => Text.sameName name t)

/-- Adds what a condition says about a column. -/
def addColumn (table : String) (c : Condition) (v : ComplexValue) (column : String) :
    ComplexValue :=
  match (c.find? table column).map ColumnConstraint.constraint with
  | some (.list values) => ⟨v.values.insert column values, v.ranges⟩
  | some (.range r) => ⟨v.values, v.ranges.insert column r⟩
  | none => v

/-- What a condition says about the columns of a complex strategy. -/
def complexValue (columns : List String) (table : String) (c : Condition) : ComplexValue :=
  columns.foldl (addColumn table c) ⟨∅, ∅⟩

/-- The targets a constraint on the column of a standard strategy asks for. -/
def constrained (a : StandardAlgorithm) (available : List String) (column : String) :
    Constraint → Except RouteError (List String)
  | .list values => do .ok ((← values.mapM (a.precise available column)).filterMap id)
  | .range r => a.range available r

/-- The targets of a statement on `table` under one of its conditions and its hint values. -/
def targets (s : Strategy) (available : List String) (table : String)
    (condition : Option Condition) (hints : Option (List Value)) :
    Except RouteError (List String) :=
  match s with
  | everywhere => .ok available
  | standard column a =>
    match condition.bind (·.find? table column) with
    | none => .ok available
    | some found => do .ok (retain available (← constrained a available column found.constraint))
  | complex columns a =>
    let v := (condition.map (complexValue columns table)).getD ⟨∅, ∅⟩
    if v.values.isEmpty && v.ranges.isEmpty then .ok available
    else do .ok (retain available (← a.targets available v))
  | hint a =>
    match hints.filter (!·.isEmpty) with
    | none => .ok available
    | some values => do .ok (retain available (← a.targets values))

end Strategy

end ShardedSql
