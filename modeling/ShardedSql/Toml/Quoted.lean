import ShardedSql.Toml.Reader

/-!
Quoted text, on one line or on several, with escapes or without. -/

namespace ShardedSql.Toml

/-- The character of a code with just as many hexadecimal digits as asked for. -/
def hexChar (count : Nat) : Reader Char := fun cs =>
  if (cs.take count).length < count then none
  else
    match numeral? 16 0 (cs.take count) with
    | some n => if n.isValidChar then some (Char.ofNat n, cs.drop count) else none
    | none => none

/-- What follows a backslash. -/
def escape : Reader Char
  | 'b' :: r => some ('\x08', r)
  | 't' :: r => some ('\t', r)
  | 'n' :: r => some ('\n', r)
  | 'f' :: r => some ('\x0c', r)
  | 'r' :: r => some ('\r', r)
  | 'e' :: r => some ('\x1b', r)
  | '\x22' :: r => some ('\x22', r)
  | '\\' :: r => some ('\\', r)
  | 'x' :: r => hexChar 2 r
  | 'u' :: r => hexChar 4 r
  | 'U' :: r => hexChar 8 r
  | _ => none

/-- Text up to a double quote on the same line. -/
def basicFrom : Nat → List Char → Reader String
  | 0, _, _ => none
  | _ + 1, seen, '\x22' :: r => some (String.ofList seen.reverse, r)
  | fuel + 1, seen, '\\' :: r => do
    let (c, r) ← escape r
    basicFrom fuel (c :: seen) r
  | fuel + 1, seen, c :: r => if isPlain c then basicFrom fuel (c :: seen) r else none
  | _ + 1, _, [] => none

/-- Text up to an apostrophe on the same line. -/
def literal : Reader String := fun cs =>
  let text := cs.takeWhile fun c => isPlain c && c != '\''
  match cs.dropWhile fun c => isPlain c && c != '\'' with
  | '\'' :: r => some (String.ofList text, r)
  | _ => none

/-- The text with up to two more quotes, which may stand before the closing three. -/
def closing (quote : Char) (seen : List Char) (r : List Char) : String × List Char :=
  let extra := (r.take 2).takeWhile (· == quote)
  (String.ofList (extra ++ seen).reverse, r.drop extra.length)

/-- Skips blanks and line ends. -/
def skipLines : Nat → List Char → List Char
  | fuel + 1, c :: r =>
    if isSpace c then skipLines fuel r
    else
      match newline? (c :: r) with
      | some r => skipLines fuel r
      | none => c :: r
  | _, cs => cs

/-- Text up to three double quotes. A backslash at the end of a line takes the line end and the
blanks of the next lines with it. -/
def multiBasicFrom : Nat → List Char → Reader String
  | _ + 1, seen, '\x22' :: '\x22' :: '\x22' :: r => some (closing '\x22' seen r)
  | fuel + 1, seen, '\\' :: r =>
    match newline? (r.dropWhile isSpace) with
    | some r => multiBasicFrom fuel seen (skipLines fuel r)
    | none => do
      let (c, r) ← escape r
      multiBasicFrom fuel (c :: seen) r
  | fuel + 1, seen, '\r' :: '\n' :: r => multiBasicFrom fuel ('\n' :: '\r' :: seen) r
  | fuel + 1, seen, c :: r =>
    if isPlain c || c == '\n' then multiBasicFrom fuel (c :: seen) r else none
  | _, _, _ => none

/-- Text up to three apostrophes. -/
def multiLiteralFrom : Nat → List Char → Reader String
  | _ + 1, seen, '\'' :: '\'' :: '\'' :: r => some (closing '\'' seen r)
  | fuel + 1, seen, '\r' :: '\n' :: r => multiLiteralFrom fuel ('\n' :: '\r' :: seen) r
  | fuel + 1, seen, c :: r =>
    if isPlain c || c == '\n' then multiLiteralFrom fuel (c :: seen) r else none
  | _, _, _ => none

/-- The text without a line end at its start. -/
def trimFirstLine (cs : List Char) : List Char := (newline? cs).getD cs

/-- Quoted text on one line. -/
def lineText (fuel : Nat) : Reader String
  | '\x22' :: r => basicFrom fuel [] r
  | '\'' :: r => literal r
  | _ => none

/-- Quoted text on one line or several. -/
def quotedText (fuel : Nat) : Reader String
  | '\x22' :: '\x22' :: '\x22' :: r => multiBasicFrom fuel [] (trimFirstLine r)
  | '\'' :: '\'' :: '\'' :: r => multiLiteralFrom fuel [] (trimFirstLine r)
  | cs => lineText fuel cs

end ShardedSql.Toml
