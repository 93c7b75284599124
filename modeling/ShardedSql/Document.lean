/-!
Documents that a configuration is read from: nested tables, arrays and scalars. The two formats they
come in differ in what a record or a choice may look like. -/

namespace ShardedSql

/-- A fractional number or a date is kept as it is written. -/
inductive Document where
  | null
  | str (s : String)
  | int (n : Int)
  | bool (b : Bool)
  | float (written : String)
  /-- A number that can be neither taken nor passed over. -/
  | unreadable
  | date (written : String)
  | array (items : List Document)
  | table (entries : List (String × Document))
  deriving Inhabited

namespace Document

/-- The entries of a table; a date stands for a table with its text as the only entry. -/
def entries? : Document → Option (List (String × Document))
  | table entries => some entries
  | date written => some [("$date", str written)]
  | _ => none

mutual

/-- Every number in the document can be read. -/
def isReadable : Document → Bool
  | unreadable => false
  | array items => areReadable items
  | table entries => haveReadable entries
  | _ => true

def areReadable : List Document → Bool
  | [] => true
  | d :: rest => d.isReadable && areReadable rest

def haveReadable : List (String × Document) → Bool
  | [] => true
  | (_, d) :: rest => d.isReadable && haveReadable rest

end

inductive Format where
  | toml | json
  deriving DecidableEq

namespace Format

/-- An array that stands for a record may be longer than the record. -/
def allowsSurplus : Format → Bool
  | toml => true
  | json => false

/-- The value that a choice has beside its name. -/
def isNothing : Format → Document → Bool
  | toml, .table [] => true
  | toml, .array [] => true
  | json, .null => true
  | _, _ => false

end Format

end Document

end ShardedSql
