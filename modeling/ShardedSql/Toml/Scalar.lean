import ShardedSql.Toml.Date
import ShardedSql.Toml.Number
import ShardedSql.Toml.Quoted

/-!
Scalars in the text of a document: quoted text, numbers, dates. -/

namespace ShardedSql.Toml

/-- What ends a scalar without quotes, be it right or wrong. -/
def endsScalar (c : Char) : Bool :=
  ['=', ',', '[', ']', '\x7b', '\x7d', '#', ' ', '\t', '\r', '\n'].contains c

def unquoted? (cs : List Char) : Option Document :=
  if cs == ['t', 'r', 'u', 'e'] then some (.bool true)
  else if cs == ['f', 'a', 'l', 's', 'e'] then some (.bool false)
  else
    match number? cs with
    | some d => some d
    | none => if isDate cs then some (.date (String.ofList cs)) else none

/-- A scalar without quotes. A date may be parted from its time by a blank. -/
def unquoted : Reader Document := fun cs =>
  let word := cs.takeWhile (!endsScalar ·)
  let rest := cs.dropWhile (!endsScalar ·)
  match afterDate? word, rest with
  | some [], ' ' :: c :: r =>
    if c.isDigit then
      let time := (c :: r).takeWhile (!endsScalar ·)
      (unquoted? (word ++ ' ' :: time)).map (·, (c :: r).dropWhile (!endsScalar ·))
    else (unquoted? word).map (·, rest)
  | _, _ => (unquoted? word).map (·, rest)

def scalar (fuel : Nat) : Reader Document := fun cs =>
  ((quotedText fuel cs).map fun (s, r) => (.str s, r)) <|> unquoted cs

end ShardedSql.Toml
