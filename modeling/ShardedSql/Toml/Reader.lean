/-!
Readers on the characters of a text, and the classes of characters they tell apart. -/

namespace ShardedSql.Toml

/-- A reader takes what it wants from the front and hands on the rest. -/
abbrev Reader (α : Type) := List Char → Option (α × List Char)

def isSpace (c : Char) : Bool := c == ' ' || c == '\t'

/-- A character that may stand in a comment or in quotes: no control character but the tab. -/
def isPlain (c : Char) : Bool := c == '\t' || (0x20 ≤ c.toNat && c.toNat != 0x7f)

def newline? : List Char → Option (List Char)
  | '\n' :: r => some r
  | '\r' :: '\n' :: r => some r
  | _ => none

def hexDigit? (c : Char) : Option Nat :=
  if c.isDigit then some (c.toNat - '0'.toNat)
  else if 'a' ≤ c && c ≤ 'f' then some (c.toNat - 'a'.toNat + 10)
  else if 'A' ≤ c && c ≤ 'F' then some (c.toNat - 'A'.toNat + 10)
  else none

/-- A number of digits in a base up to sixteen. -/
def numeral? (base : Nat) (value : Nat) : List Char → Option Nat
  | [] => some value
  | c :: r =>
    match hexDigit? c with
    | some d => if d < base then numeral? base (base * value + d) r else none
    | none => none

/-- What follows a sign, if there is one. -/
def unsigned : List Char → List Char
  | '+' :: r => r
  | '-' :: r => r
  | cs => cs

end ShardedSql.Toml
