import ShardedSql.NameMap
import ShardedSql.Text.Blank

/-!
The storage units of a logical database, and the tables they hold. -/

namespace ShardedSql

inductive Dialect where
  | mySql | postgreSql | openGauss | oracle | sqlServer | h2 | sql92
  deriving DecidableEq

namespace Dialect

def name : Dialect → String
  | mySql => "MySQL"
  | postgreSql => "PostgreSQL"
  | openGauss => "openGauss"
  | oracle => "Oracle"
  | sqlServer => "SQLServer"
  | h2 => "H2"
  | sql92 => "SQL92"

def all : List Dialect := [mySql, postgreSql, openGauss, oracle, sqlServer, h2, sql92]

def ofName? (name : String) : Option Dialect := all.find? (·.name == name)

/-- Whether identifiers stand between double quotes. -/
def ansiQuotes : Dialect → Bool
  | postgreSql | openGauss | oracle | sql92 => true
  | mySql | sqlServer | h2 => false

end Dialect

/-- A table on a data source. -/
structure DataNode where
  dataSource : String
  table : String
  deriving DecidableEq

namespace DataNode

def text (n : DataNode) : String := n.dataSource ++ "." ++ n.table

/-- Reads `source.table`: two parts that are not empty, and no second dot. -/
def parse? (s : String) : Option DataNode :=
  let cs := Text.trimChars s.toList
  let source := cs.takeWhile (· != '.')
  match cs.dropWhile (· != '.') with
  | [] => none
  | _ :: table =>
    if source.isEmpty || table.isEmpty || table.contains '.' then none
    else some ⟨String.ofList source, String.ofList table⟩

end DataNode

structure Topology where
  database : String
  units : NameMap Dialect

namespace Topology

def insert (t : Topology) (name : String) (dialect : Dialect) : Topology :=
  { t with units := t.units.insert name dialect }

def contains (t : Topology) (name : String) : Bool := t.units.contains name

def dialect? (t : Topology) (name : String) : Option Dialect := t.units.get? name

def names (t : Topology) : List String := t.units.names

/-- The only storage unit, if there is just one. -/
def single? (t : Topology) : Option String :=
  match t.names with
  | [name] => some name
  | _ => none

end Topology

end ShardedSql
