import ShardedSql.Condition
import ShardedSql.Query
import ShardedSql.Route.Error

/-!
Audits of statements before they are routed. -/

namespace ShardedSql

inductive Auditor where
  /-- Refuses reads, updates and deletes that touch sharding tables without sharding conditions. -/
  | dmlConditions
  deriving DecidableEq

namespace Auditor

def tag : String := "DML_SHARDING_CONDITIONS"

def check (_ : Auditor) (query : Query) (conditions : Conditions) (tables : List String) :
    Except RouteError Unit :=
  let kind := query.statement.kind
  if kind.isDml && kind != .insert && !tables.isEmpty && conditions.isEmpty
      && !conditions.alwaysFalse then
    .error (.audit tables)
  else .ok ()

end Auditor

end ShardedSql
