import ShardedSql.Template.Basic

/-!
Declaration lists: templates between commas. A comma inside a placeholder does not separate. -/

namespace ShardedSql.Declaration

/-- The parts between the top-level commas. `part` is the part being read, its last character first,
`parts` are the finished ones, the last first; `fuel` bounds the number of characters. -/
def partsFrom : Nat → Nat → List Char → List (List Char) → List Char →
    Except ExprError (List (List Char))
  | fuel + 1, position, part, parts, '$' :: '\x7b' :: r =>
    match Template.splitBody 0 none [] r with
    | none => .error (.unterminatedPlaceholder position)
    | some (body, rest) =>
      partsFrom fuel (position + 2 + Text.byteLength body + 1)
        ('\x7d' :: (body.reverse ++ '\x7b' :: '$' :: part)) parts rest
  | fuel + 1, position, part, parts, ',' :: r =>
    partsFrom fuel (position + 1) [] (part.reverse :: parts) r
  | fuel + 1, position, part, parts, c :: r =>
    partsFrom fuel (position + c.utf8Size) (c :: part) parts r
  | _, _, part, parts, _ => .ok (part.reverse :: parts).reverse

def parts (s : String) : Except ExprError (List String) := do
  .ok ((← partsFrom s.length 0 [] [] s.toList).map String.ofList)

/-- The texts of the parts one after another; `count` texts came before them. -/
def expandParts (vars : Bindings) (count : Nat) : List String → Except ExprError (List String)
  | [] => .ok []
  | part :: rest => do
    let texts ← (← Template.parse part).expand vars
    Expr.withinLimit (count + texts.length)
    let more ← expandParts vars (count + texts.length) rest
    .ok (texts ++ more)

/-- All texts a declaration list stands for. Blank parts stand for none. -/
def expand (vars : Bindings) (s : String) : Except ExprError (List String) := do
  let trimmed := (← parts (Template.normalize s)).map Text.trim
  expandParts vars 0 (trimmed.filter (!·.isEmpty))

end ShardedSql.Declaration
