import ShardedSql.Query
import ShardedSql.Sql.Error
import ShardedSql.Topology

/-!
Statements in the dialect of another storage unit. The built-in conversion spells back-quoted
identifiers with double quotes; literals and comments stay as they are. -/

namespace ShardedSql

/-- A statement with what is bound to it. -/
structure BoundSql where
  sql : String
  params : List Value
  deriving DecidableEq

namespace IdentifierQuotes

/-- What the reader is inside of. -/
inductive Region where
  | code | literal | lineComment | blockComment
  deriving DecidableEq

/-- Replaces the back quotes outside literals and comments; a double quote there is refused. -/
def requote (target : Dialect) : Region → List Char → Except ConversionError (List Char)
  | _, [] => .ok []
  | .code, '/' :: '*' :: r => do .ok ('/' :: '*' :: (← requote target .blockComment r))
  | .code, '-' :: '-' :: r => do .ok ('-' :: '-' :: (← requote target .lineComment r))
  | .code, '\x60' :: r => do .ok ('\x22' :: (← requote target .code r))
  | .code, '\x22' :: _ => .error (.doubleQuoted target)
  | .code, c :: r => do
    let region : Region :=
      if c == '\'' then .literal else if c == '#' then .lineComment else .code
    .ok (c :: (← requote target region r))
  | .literal, '\\' :: c :: r => do .ok ('\\' :: c :: (← requote target .literal r))
  | .literal, '\'' :: '\'' :: r => do .ok ('\'' :: '\'' :: (← requote target .literal r))
  | .literal, c :: r => do
    .ok (c :: (← requote target (if c == '\'' then .code else .literal) r))
  | .lineComment, c :: r => do
    .ok (c :: (← requote target (if c == '\n' then .code else .lineComment) r))
  | .blockComment, '*' :: '/' :: r => do .ok ('*' :: '/' :: (← requote target .code r))
  | .blockComment, c :: r => do .ok (c :: (← requote target .blockComment r))

end IdentifierQuotes

abbrev Converter := BoundSql → Query → Dialect → Except ConversionError BoundSql

namespace Converter

def native : Converter := fun unit _ _ => .ok unit

def identifierQuotes : Converter := fun unit _ target =>
  if target.ansiQuotes then do
    .ok { unit with sql := String.ofList (← IdentifierQuotes.requote target .code unit.sql.toList) }
  else .ok unit

end Converter

/-- How statements written for `frontend` reach the other dialects; a dialect without a converter
of its own takes them as they are. -/
structure Conversion where
  frontend : Dialect
  converters : List (Dialect × Converter)

namespace Conversion

def nativeOnly (frontend : Dialect) : Conversion := ⟨frontend, []⟩

def withConverter (t : Conversion) (target : Dialect) (f : Converter) : Conversion :=
  { t with converters := (target, f) :: t.converters }

/-- Identifier quotes are converted for every dialect that quotes as ANSI does. -/
def builtin (frontend : Dialect) : Conversion :=
  ⟨frontend, (Dialect.all.filter (·.ansiQuotes)).map (·, Converter.identifierQuotes)⟩

def convert (t : Conversion) (unit : BoundSql) (query : Query) (target : Dialect) :
    Except ConversionError BoundSql :=
  if target = t.frontend then .ok unit
  else ((t.converters.lookup target).getD Converter.native) unit query target

end Conversion

end ShardedSql
