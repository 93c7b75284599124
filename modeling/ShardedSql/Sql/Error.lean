import ShardedSql.Topology

/-!
Why a statement cannot be rendered. -/

namespace ShardedSql

inductive ConversionError where
  /-- A text between double quotes would be an identifier in the target dialect. -/
  | doubleQuoted (target : Dialect)
  deriving DecidableEq

def ConversionError.message : ConversionError → String
  | .doubleQuoted target =>
    "cannot translate statement to " ++ target.name
      ++ ": double-quoted string literals are identifiers in ANSI SQL"

inductive RenderError where
  | tokenOutOfBounds (start stop length : Nat)
  | overlappingTokens (offset : Nat)
  | unknownStorageUnit (name : String)
  | conversion (e : ConversionError)
  deriving DecidableEq

def RenderError.message : RenderError → String
  | .tokenOutOfBounds start stop length =>
    "sql token [" ++ toString start ++ ", " ++ toString stop ++ "] is outside the statement of "
      ++ toString length ++ " bytes"
  | .overlappingTokens offset => "sql tokens overlap at offset " ++ toString offset
  | .unknownStorageUnit name => "storage unit \x60" ++ name ++ "\x60 is not registered"
  | .conversion e => e.message

end ShardedSql
