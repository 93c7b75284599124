import ShardedSql.Algorithm.Error
import ShardedSql.NameMap
import ShardedSql.Text.Blank
import ShardedSql.Text.Case
import ShardedSql.Text.Integer

/-!
The options of an algorithm declaration. Blanks around a value do not count. -/

namespace ShardedSql

abbrev Options := NameMap String

namespace Options

/-- The name of an algorithm, for its errors, with the options it is built from. -/
structure Reader where
  algorithm : String
  options : Options

namespace Reader

variable {α : Type}

def fail (r : Reader) (fault : InitFault) : Except AlgorithmError α :=
  .error (.initialization r.algorithm fault)

/-- The trimmed value of an option that is present and not blank. -/
def present? (r : Reader) (option : String) : Option String :=
  ((r.options.get? option).map Text.trim).filter (!·.isEmpty)

def required (r : Reader) (option : String) : Except AlgorithmError String :=
  match r.present? option with
  | some value => .ok value
  | none => r.fail (.required option)

def boolean (r : Reader) (option : String) (default : Bool) : Except AlgorithmError Bool :=
  match r.options.get? option with
  | none => .ok default
  | some raw =>
    let value := Text.trim raw
    if Text.sameName value "true" then .ok true
    else if Text.sameName value "false" then .ok false
    else r.fail (.notBoolean option)

def positive (r : Reader) (option : String) : Except AlgorithmError { n : Nat // 0 < n } := do
  let value ← r.required option
  let n := ((Text.int64? value).map (·.toInt.toNat)).getD 0
  if h : 0 < n then .ok ⟨n, h⟩ else r.fail (.notPositive option)

def integer (r : Reader) (option : String) (default : Int64) : Except AlgorithmError Int64 :=
  match r.options.get? option with
  | none => .ok default
  | some raw =>
    match Text.int64? (Text.trim raw) with
    | some n => .ok n
    | none => r.fail (.notInteger option)

end Reader

/-- The pieces between the characters at which `separator` holds. -/
def split (separator : Char → Bool) (piece : List Char) : List Char → List (List Char)
  | [] => [piece.reverse]
  | c :: cs =>
    if separator c then piece.reverse :: split separator [] cs
    else split separator (c :: piece) cs

/-- The items between commas that are not blank. -/
def items (options : Options) (option : String) : List String :=
  match options.get? option with
  | none => []
  | some raw =>
    ((split (· == ',') [] raw.toList).map fun cs => String.ofList (Text.trimChars cs)).filter
      (!·.isEmpty)

end Options

end ShardedSql
