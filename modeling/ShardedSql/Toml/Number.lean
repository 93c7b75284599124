import ShardedSql.Document
import ShardedSql.Toml.Reader

/-!
Numbers. An integer fits 128 bits, with a sign or without, and a fraction rounds to a finite double;
others cannot be read. Nor can an integer that has no digits, or that goes on with something else
behind an underscore. -/

namespace ShardedSql.Toml

/-- Digits, with single underscores between them left out. -/
def digits? : List Char → Option (List Char)
  | [] => none
  | [c] => if c.isDigit then some [c] else none
  | c :: '_' :: r => if c.isDigit then (digits? r).map (c :: ·) else none
  | c :: r => if c.isDigit then (digits? r).map (c :: ·) else none

def hasSuperfluousZero (cs : List Char) : Bool := cs.head? == some '0' && 1 < cs.length

def isHexDigit (c : Char) : Bool := (hexDigit? c).isSome

/-- Underscores stand between digits only; those beyond nine count as such in every base. -/
def isParted : List Char → Bool
  | [] => true
  | '_' :: _ => false
  | c :: '_' :: d :: r => isHexDigit c && isHexDigit d && isParted (d :: r)
  | [_, '_'] => false
  | _ :: r => isParted r

def isInRange (n : Int) : Bool := -Int.ofNat (Nat.pow 2 127) ≤ n && n < Int.ofNat (Nat.pow 2 128)

def integer (base : Nat) (isNegative : Bool) (cs : List Char) : Document :=
  let digits := cs.filter (· != '_')
  match numeral? base 0 digits with
  | some n =>
    let value : Int := if isNegative then -(n : Int) else n
    if !digits.isEmpty && isInRange value then .int value else .unreadable
  | none => .unreadable

/-- What follows the mark of a base. -/
def radix? (base : Nat) (cs : List Char) : Option Document :=
  if (cs.all fun c => c == '_' || (hexDigit? c).any (· < base)) && isParted cs then
    some (integer base false cs)
  else none

/-- Digits, and behind an underscore anything. -/
def decimal? (isNegative : Bool) (cs : List Char) : Option Document :=
  let rest := cs.dropWhile Char.isDigit
  if rest.length < cs.length && (rest.isEmpty || rest.head? == some '_') &&
      !hasSuperfluousZero cs && isParted cs then
    some (integer 10 isNegative cs)
  else none

def whole? (cs : List Char) : Option (List Char) := do
  let digits ← digits? cs
  if hasSuperfluousZero digits then none else some digits

/-- What follows the whole part of a fraction: a point and digits, or nothing. -/
def fraction? : List Char → Option (List Char)
  | [] => some []
  | _ :: r => digits? r

/-- What ends a fraction: a mark and a whole number, or nothing. -/
def exponent? : List Char → Option Int
  | [] => some 0
  | _ :: r => do
    let n ← numeral? 10 0 (← digits? (unsigned r))
    some (if r.head? == some '-' then -(n : Int) else n)

/-- From here on a number rounds to no finite double. -/
def doubleLimit : Nat := (Nat.pow 2 54 - 1) * Nat.pow 2 970

/-- Whether the number of these digits times a power of ten is below the limit of the doubles. The
limit has 309 digits, so that a number of more or fewer need not be computed. -/
def isFinite (digits : List Char) (exponent : Int) : Bool :=
  let digits := digits.dropWhile (· == '0')
  let size := digits.length + exponent
  digits.isEmpty || size < 309 ||
    (size == 309 && (numeral? 10 0 digits).any fun n =>
      n * Nat.pow 10 exponent.toNat < doubleLimit * Nat.pow 10 (-exponent).toNat)

def isExponentMark (c : Char) : Bool := c == 'e' || c == 'E'

/-- A whole part, a fraction or an exponent or both. -/
def float? (cs : List Char) : Option Document := do
  let body := unsigned cs
  let mantissa := body.takeWhile (!isExponentMark ·)
  let whole ← whole? (mantissa.takeWhile (· != '.'))
  let fraction ← fraction? (mantissa.dropWhile (· != '.'))
  let exponent ← exponent? (body.dropWhile (!isExponentMark ·))
  some (if isFinite (whole ++ fraction) (exponent - fraction.length) then
    .float (String.ofList cs) else .unreadable)

def number? : List Char → Option Document
  | '0' :: 'x' :: r => radix? 16 r
  | '0' :: 'o' :: r => radix? 8 r
  | '0' :: 'b' :: r => radix? 2 r
  | cs =>
    let body := unsigned cs
    if body == ['i', 'n', 'f'] || body == ['n', 'a', 'n'] then some (.float (String.ofList cs))
    else if body.any fun c => c == '.' || isExponentMark c then float? cs
    else decimal? (cs.head? == some '-') body

end ShardedSql.Toml
