import ShardedSql.Rule.Basic

/-!
The conditions that a statement puts on sharding columns. Of a `WHERE` clause each group becomes an
alternative; a group without sharding columns leaves the statement unconstrained, and one that
contradicts itself is left out. Of an insertion each row becomes an alternative, and takes a key
where it has none. -/

namespace ShardedSql

structure Extracted where
  conditions : Conditions
  generatedKeys : List Value
  deriving DecidableEq

/-- Keys that were handed out stay so when the statement fails. -/
abbrev Keyed (α : Type) := ExceptT RouteError (StateM KeyCounters) α

namespace Extraction

def resolve (params : List Value) : Operand → Except RouteError Value
  | .literal v => .ok v
  | .parameter index =>
    match params[index]? with
    | some v => .ok v
    | none => .error (.parameterOutOfRange index params.length)

/-- What a comparison admits. -/
def constraint (params : List Value) : Comparison → Except RouteError Constraint
  | .equal o => do .ok (.ofValues [← resolve params o])
  | .oneOf os => do .ok (.ofValues (← os.mapM (resolve params)))
  | .between lower upper => do
    let a ← resolve params lower
    let b ← resolve params upper
    .ok (.range (.closed a b))
  | .lessThan o => do .ok (.range ⟨.unbounded, .excluded (← resolve params o)⟩)
  | .atMost o => do .ok (.range ⟨.unbounded, .included (← resolve params o)⟩)
  | .greaterThan o => do .ok (.range ⟨.excluded (← resolve params o), .unbounded⟩)
  | .atLeast o => do .ok (.range ⟨.included (← resolve params o), .unbounded⟩)

/-- Narrows the entry of the column, or adds one; nothing is left of a contradiction. -/
def narrow (entry : ColumnConstraint) : List ColumnConstraint → Option (List ColumnConstraint)
  | [] => some [entry]
  | e :: es =>
    if Text.sameName e.table entry.table && Text.sameName e.column entry.column then
      (e.constraint.intersect entry.constraint).map fun c => { e with constraint := c } :: es
    else (narrow entry es).map (e :: ·)

/-- What a group of predicates comes to. -/
inductive Outcome where
  | alternative (c : Condition)
  | unconstrained
  | contradiction

def ofEntries (entries : List ColumnConstraint) : Outcome :=
  if entries.isEmpty then .unconstrained else .alternative ⟨entries⟩

/-- Takes the predicates on sharding columns one by one; behind a contradiction none is read. -/
def groupFrom (rule : ShardingRule) (params : List Value) (entries : List ColumnConstraint) :
    List Predicate → Except RouteError Outcome
  | [] => .ok (ofEntries entries)
  | p :: ps =>
    if rule.isShardingColumn p.table p.column then do
      let c ← constraint params p.comparison
      match narrow ⟨p.table, p.column, c⟩ entries with
      | some entries => groupFrom rule params entries ps
      | none => .ok .contradiction
    else groupFrom rule params entries ps

/-- Takes the groups one by one; behind an unconstrained one none is read. -/
def groupsFrom (rule : ShardingRule) (params : List Value) (mergeRequested : Bool)
    (alternatives : List Condition) (contradictions : Bool) :
    List (List Predicate) → Except RouteError Conditions
  | [] =>
    .ok (if alternatives.isEmpty && contradictions then .contradiction
      else .of alternatives mergeRequested)
  | group :: groups => do
    match ← groupFrom rule params [] group with
    | .alternative c =>
      groupsFrom rule params mergeRequested (alternatives ++ [c]) contradictions groups
    | .unconstrained => .ok .unconstrained
    | .contradiction => groupsFrom rule params mergeRequested alternatives true groups

/-- The entries of the sharding columns of a row. -/
def rowEntries (rule : ShardingRule) (params : List Value) (table : String) :
    List (String × Operand) → Except RouteError (List ColumnConstraint)
  | [] => .ok []
  | (column, o) :: rest =>
    if rule.isShardingColumn table column then do
      let v ← resolve params o
      let entries ← rowEntries rule params table rest
      .ok (⟨table, column, .ofValues [v]⟩ :: entries)
    else rowEntries rule params table rest

/-- The key of a row that has none. -/
def takeKey (strategy : Option KeyStrategy) : StateM KeyCounters (Option (String × Value)) := do
  match strategy with
  | none => pure none
  | some s =>
    let (key, counters) := (← get).take s.generator
    set counters
    pure (some (s.column, key))

def row (rule : ShardingRule) (params : List Value) (data : InsertData)
    (strategy : Option KeyStrategy) (operands : List Operand) :
    Keyed (Condition × List Value) := do
  let entries ← liftExcept (rowEntries rule params data.table (data.columns.zip operands))
  match ← takeKey strategy with
  | none => pure (⟨entries⟩, [])
  | some (column, key) =>
    let extra : List ColumnConstraint :=
      if rule.isShardingColumn data.table column then [⟨data.table, column, .ofValues [key]⟩]
      else []
    pure (⟨entries ++ extra⟩, [key])
where
  liftExcept {α : Type} (r : Except RouteError α) : Keyed α := ExceptT.mk (pure r)

/-- The key strategy of the table, unless the statement names the key column itself. -/
def keyStrategy? (t : TableRule) (columns : List String) : Option KeyStrategy :=
  t.keyStrategy.filter fun s => !columns.any (Text.sameName · s.column)

def insertion (rule : ShardingRule) (params : List Value) (data : InsertData) : Keyed Extracted :=
  match rule.table? data.table with
  | none => pure ⟨.unconstrained, []⟩
  | some t => do
    let rows ← data.rows.mapM (row rule params data (keyStrategy? t data.columns))
    pure ⟨.of (rows.map (·.1)) false, rows.flatMap (·.2)⟩

/-- The conditions of a statement, with the keys its rows took. -/
def extract (rule : ShardingRule) (query : Query) : Keyed Extracted := do
  let s := query.statement
  if !s.needsConditions then return ⟨.unconstrained, []⟩
  match s.kind, s.insert with
  | .insert, some data => insertion rule query.params data
  | _, _ =>
    let mergeRequested := s.kind == .select && s.features.subquery
    let conditions ← ExceptT.mk (pure
      (groupsFrom rule query.params mergeRequested [] false s.groups))
    pure ⟨conditions, []⟩

end Extraction

end ShardedSql
