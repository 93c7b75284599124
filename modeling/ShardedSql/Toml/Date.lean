import ShardedSql.Toml.Reader

/-!
Dates and times of day, with an offset or without. -/

namespace ShardedSql.Toml

/-- A number of just two digits within bounds. -/
def twoDigits (low high : Nat) (a b : Char) : Bool :=
  match numeral? 10 0 [a, b] with
  | some n => low ≤ n && n ≤ high
  | none => false

def daysIn (year month : Nat) : Nat :=
  if month == 2 then if year % 4 == 0 && (year % 100 != 0 || year % 400 == 0) then 29 else 28
  else if [4, 6, 9, 11].contains month then 30 else 31

/-- What follows a date, if the text begins with one. -/
def afterDate? : List Char → Option (List Char)
  | y1 :: y2 :: y3 :: y4 :: '-' :: m1 :: m2 :: '-' :: d1 :: d2 :: r => do
    let year ← numeral? 10 0 [y1, y2, y3, y4]
    let month ← numeral? 10 0 [m1, m2]
    if 1 ≤ month && month ≤ 12 && twoDigits 1 (daysIn year month) d1 d2 then some r else none
  | _ => none

/-- What follows a time, if the text begins with one; the seconds may be left out. -/
def afterTime? : List Char → Option (List Char)
  | h1 :: h2 :: ':' :: m1 :: m2 :: r =>
    if !(twoDigits 0 23 h1 h2 && twoDigits 0 59 m1 m2) then none
    else
      match r with
      | ':' :: s1 :: s2 :: r =>
        if !twoDigits 0 60 s1 s2 then none
        else
          match r with
          | '.' :: r =>
            if (r.takeWhile Char.isDigit).isEmpty then none else some (r.dropWhile Char.isDigit)
          | _ => some r
      | ':' :: _ => none
      | _ => some r
  | _ => none

def isOffset : List Char → Bool
  | [] => true
  | ['Z'] => true
  | ['z'] => true
  | [sign, h1, h2, ':', m1, m2] =>
    (sign == '+' || sign == '-') && twoDigits 0 23 h1 h2 && twoDigits 0 59 m1 m2
  | _ => false

/-- A date, a time, or both with or without an offset. -/
def isDate (cs : List Char) : Bool :=
  match afterDate? cs with
  | some [] => true
  | some (mark :: r) =>
    (mark == 'T' || mark == 't' || mark == ' ') && (afterTime? r).any isOffset
  | none => (afterTime? cs).any List.isEmpty

end ShardedSql.Toml
