import ShardedSql.Document

/-!
The tables of a document while it is being read. A table is named by one header at most, and once it
is, dotted keys no longer reach into it. -/

namespace ShardedSql.Toml

/-- How a table came to be. -/
inductive Origin where
  | header | implied | dotted
  deriving DecidableEq

inductive Node where
  | value (d : Document)
  | table (origin : Origin) (entries : List (String × Node))
  /-- An array of tables, the last one first. -/
  | tables (elements : List (List (String × Node)))

abbrev Entries := List (String × Node)

namespace Node

mutual

def document : Node → Document
  | value d => d
  | table _ entries => .table (documents entries)
  | tables elements => .array (elementDocuments elements).reverse

def documents : List (String × Node) → List (String × Document)
  | [] => []
  | (key, n) :: rest => (key, n.document) :: documents rest

def elementDocuments : List (List (String × Node)) → List Document
  | [] => []
  | es :: rest => .table (documents es) :: elementDocuments rest

end

end Node

namespace Entries

/-- Changes the entry of a key, or adds it at the end; the change may be refused. -/
def update (key : String) (f : Option Node → Option Node) : Entries → Option Entries
  | [] => (f none).map fun n => [(key, n)]
  | (k, n) :: es =>
    if k = key then (f (some n)).map fun n => (k, n) :: es
    else (update key f es).map ((k, n) :: ·)

/-- Changes the table a header path leads to; of an array of tables it is the last one. -/
def within (f : Entries → Option Entries) : List String → Entries → Option Entries
  | [], es => f es
  | key :: path, es => update key (fun
      | none => (within f path []).map (Node.table .implied)
      | some (.table origin sub) => (within f path sub).map (Node.table origin)
      | some (.tables (last :: earlier)) =>
        (within f path last).map fun es => Node.tables (es :: earlier)
      | _ => none) es

/-- Names a table by a header. -/
def openTable (path : List String) (key : String) : Entries → Option Entries :=
  within (update key fun
    | none => some (.table .header [])
    | some (.table .implied sub) => some (.table .header sub)
    | _ => none) path

/-- Adds a table to an array of tables. -/
def openElement (path : List String) (key : String) : Entries → Option Entries :=
  within (update key fun
    | none => some (.tables [[]])
    | some (.tables elements) => some (.tables ([] :: elements))
    | _ => none) path

/-- Gives a dotted key its value, in a table that may take keys here or not. -/
def assign (value : Document) (mayTake : Bool) : List String → Entries → Option Entries
  | [], _ => none
  | [key], es =>
    if mayTake then update key (fun
      | none => some (.value value)
      | some _ => none) es
    else none
  | key :: path, es => update key (fun
      | none => (assign value true path []).map (Node.table .dotted)
      | some (.table .header _) => none
      | some (.table origin sub) =>
        (assign value (origin == .dotted) path sub).map (Node.table origin)
      | some (.tables (last :: earlier)) =>
        (assign value false path last).map fun es => Node.tables (es :: earlier)
      | _ => none) es

end Entries

end ShardedSql.Toml
