import ShardedSql.Route.Basic
import ShardedSql.Rule.Basic

/-!
Checks of a statement before and after it is routed. -/

namespace ShardedSql

structure Validator where
  before : Query → Conditions → Except RouteError Unit
  after : Query → Route → Except RouteError Unit

namespace Validator

def permissive : Validator := ⟨fun _ _ => .ok (), fun _ _ => .ok ()⟩

def updatesOrDeletes (kind : StatementKind) : Bool := kind == .update || kind == .delete

/-- An update or delete over several tables, one of them sharded, needs all in one binding group. -/
def oneBindingGroup (rule : ShardingRule) (s : Statement) : Except RouteError Unit :=
  if updatesOrDeletes s.kind && s.tables.length > 1 && !(rule.shardingTables s.tables).isEmpty
      && !rule.allBinding s.tables then
    .error (.validation (.notOneBindingGroup s.kind s.tables))
  else .ok ()

/-- An update or delete with a row limit stays on one unit. -/
def limitOnOneUnit (s : Statement) (route : Route) : Except RouteError Unit :=
  if updatesOrDeletes s.kind && s.features.pagination && route.units.length > 1 then
    .error (.validation (.limitOverUnits s.kind route.units.length))
  else .ok ()

def dml (rule : ShardingRule) : Validator :=
  ⟨fun q _ => oneBindingGroup rule q.statement, fun q route => limitOnOneUnit q.statement route⟩

end Validator

end ShardedSql
