import ShardedSql.Route.Basic
import ShardedSql.Rule.Basic

/-!
Where the conditions of a statement send it: the data nodes of every table, and the units that join
the tables on each data source. -/

namespace ShardedSql.Placement

/-- Actual tables on one data source. -/
structure Piece where
  source : String
  tables : List Mapping
  deriving DecidableEq

def Piece.unit (p : Piece) : RouteUnit := ⟨⟨p.source, p.source⟩, p.tables⟩

/-- The pieces of both sides that are on one data source, side by side. -/
def join (left right : List Piece) : List Piece :=
  left.flatMap fun p =>
    (right.filter (·.source == p.source)).map fun q => ⟨p.source, p.tables ++ q.tables⟩

/-- One piece for every choice of one piece from each group, all on the same data source. -/
def joinAll : List (List Piece) → List Piece
  | [] => []
  | first :: rest => rest.foldl join first

/-- The data nodes of a table under one condition. -/
def nodesUnder (rule : ShardingRule) (hint : Hint) (t : TableRule) (condition : Option Condition) :
    Except RouteError (List DataNode) := do
  let sources ← (rule.databaseStrategy t).targets t.dataSources t.logicTable condition
    (hint.databaseValuesOf t.logicTable)
  let nodes ← sources.mapM fun source => do
    let tables ← (rule.tableStrategy t).targets (t.tablesOn source) t.logicTable condition
      (hint.tableValuesOf t.logicTable)
    .ok (tables.map (DataNode.mk source))
  .ok (distinct nodes.flatten)

/-- The data nodes of a table under each alternative, or once if there is none. -/
def nodesOf (rule : ShardingRule) (hint : Hint) (t : TableRule) (conditions : Conditions) :
    Except RouteError (List (List DataNode)) :=
  if conditions.isEmpty then do .ok [← nodesUnder rule hint t none]
  else conditions.alternatives.mapM fun c => nodesUnder rule hint t (some c)

/-- A table that leads its binding partners in the statement. -/
structure Lead where
  table : String
  partners : List String

/-- The tables that no earlier one leads, each with the bound tables among all of them. -/
def leadsFrom (rule : ShardingRule) (all : List String) (covered : List String) :
    List String → List Lead
  | [] => []
  | table :: rest =>
    if covered.any (Text.sameName · table) then leadsFrom rule all covered rest
    else
      let partners := all.filter fun other =>
        !Text.sameName other table && rule.allBinding [table, other]
      ⟨table, partners⟩ :: leadsFrom rule all (covered ++ table :: partners) rest

def leads (rule : ShardingRule) (tables : List String) : List Lead := leadsFrom rule tables [] tables

/-- The actual table of a partner beside a node of its lead. -/
def pairing (rule : ShardingRule) (lead : String) (node : DataNode) (partner : String) :
    Except RouteError Mapping :=
  match rule.partnerTable? node.dataSource lead node.table partner with
  | some actual => .ok ⟨partner, actual⟩
  | none => .error (.validation (.unpairedBinding partner node))

def piece (rule : ShardingRule) (lead : Lead) (node : DataNode) : Except RouteError Piece := do
  let partners ← lead.partners.mapM (pairing rule lead.table node)
  .ok ⟨node.dataSource, ⟨lead.table, node.table⟩ :: partners⟩

/-- Every row of an insertion has just one node. -/
def checkRows (table : String) (rows : List (List DataNode)) : Except RouteError Unit :=
  match rows.find? (·.length != 1) with
  | some nodes => .error (.validation (.rowNotOnOneNode table nodes.length))
  | none => .ok ()

/-- The nodes of a lead under each alternative, and its pieces. -/
def placeLead (rule : ShardingRule) (query : Query) (conditions : Conditions) (lead : Lead) :
    Except RouteError (List (List DataNode) × List Piece) :=
  match rule.table? lead.table with
  | none => .error (.missingTableRule lead.table)
  | some t => do
    let nodes ← nodesOf rule query.hint t conditions
    if query.statement.kind == .insert then checkRows lead.table nodes
    let pieces ← nodes.flatten.mapM (piece rule lead)
    .ok (nodes, distinct pieces)

/-- The route of a statement on sharded tables by its conditions. -/
def standard (rule : ShardingRule) (query : Query) (conditions : Conditions)
    (tables : List String) : Except RouteError Route := do
  let placed ← (leads rule tables).mapM (placeLead rule query conditions)
  let rowNodes := if query.statement.kind == .insert then
    ((placed.getLast?).map (·.1)).getD [] else []
  .ok ⟨distinct ((joinAll (placed.map (·.2))).map Piece.unit), rowNodes, []⟩

/-- Every node of every table. -/
def everyNode (rule : ShardingRule) (tables : List String) : Except RouteError Route := do
  let units ← tables.mapM fun table =>
    match rule.table? table with
    | none => .error (.missingTableRule table)
    | some t => .ok (t.nodes.map fun n =>
      Piece.unit ⟨n.dataSource, [⟨table, n.table⟩]⟩)
  .ok (.ofUnits units.flatten)

/-- Broadcast tables are read on the first data source and written on all. -/
def broadcast (rule : ShardingRule) (query : Query) (topology : Topology) : Route :=
  let sources := if rule.dataSources.isEmpty then topology.names else rule.dataSources
  let s := query.statement
  let plainRead := s.kind == .select && !s.features.lock && !query.hint.writeRouteOnly
  let mappings := s.tables.map fun t => Mapping.mk t t
  .ofUnits ((if plainRead then sources.take 1 else sources).map fun source =>
    Piece.unit ⟨source, mappings⟩)

/-- The route of a statement whose conditions are known. -/
def place (rule : ShardingRule) (query : Query) (topology : Topology) (conditions : Conditions)
    (tables : List String) : Except RouteError Route :=
  if rule.allBroadcast query.statement.tables then .ok (broadcast rule query topology)
  else if tables.isEmpty || conditions.alwaysFalse then .ok .empty
  else if query.statement.kind == .ddl then everyNode rule tables
  else standard rule query conditions tables

end ShardedSql.Placement
