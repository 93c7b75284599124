import ShardedSql.Expr.Basic
import ShardedSql.Expr.Token
import ShardedSql.Text.Integer

/-!
The reader of expressions. From the loosest to the tightest: the conditional, which groups to the
right; `||`, `&&`, equality, comparison; the range `..`, which does not group at all; sums, products,
the unary operators. Unary operators, calls, groups and lists may be nested to the depth
`maxDepth`. -/

namespace ShardedSql.Parser

def maxDepth : Nat := 32

/-- A reader takes tokens from the front and hands on the rest. -/
abbrev Reader (α : Type) := List Token.Placed → Except ExprError (α × List Token.Placed)

/-- What every reader knows of the whole stream: the offset of its end, and the number of its
tokens, which bounds every loop. -/
structure Extent where
  stop : Nat
  count : Nat

/-- The first token as an error names it, and where it stands. -/
def found (x : Extent) : List Token.Placed → String × Nat
  | [] => ("end of input", x.stop)
  | t :: _ => (t.token.text, t.position)

def unexpected (x : Extent) (expected : Expectation) (ts : List Token.Placed) : ExprError :=
  .unexpected expected (found x ts).1 (found x ts).2

def expect (x : Extent) (token : Token) (expected : Expectation) : Reader Unit
  | t :: ts => if t.token = token then .ok ((), ts) else .error (unexpected x expected (t :: ts))
  | [] => .error (unexpected x expected [])

/-- The operators of one level of a binary chain. -/
abbrev Level := Token → Option BinaryOp

def orLevel : Level
  | .orOr => some .or
  | _ => none

def andLevel : Level
  | .andAnd => some .and
  | _ => none

def equalityLevel : Level
  | .eqEq => some .eq
  | .notEq => some .ne
  | _ => none

def comparisonLevel : Level
  | .lt => some .lt
  | .le => some .le
  | .gt => some .gt
  | .ge => some .ge
  | _ => none

def additiveLevel : Level
  | .plus => some .add
  | .minus => some .sub
  | _ => none

def multiplicativeLevel : Level
  | .star => some .mul
  | .slash => some .div
  | .percent => some .rem
  | _ => none

/-- Goes on with a chain that groups to the left; `fuel` bounds its length. -/
def chainFrom (level : Level) (operand : Reader Expr) : Nat → Expr → Reader Expr
  | 0, left, ts => .ok (left, ts)
  | _ + 1, left, [] => .ok (left, [])
  | fuel + 1, left, t :: ts =>
    match level t.token with
    | none => .ok (left, t :: ts)
    | some op => do
      let (right, rest) ← operand ts
      chainFrom level operand fuel (.binary op left right) rest

def chain (x : Extent) (level : Level) (operand : Reader Expr) : Reader Expr := fun ts => do
  let (left, rest) ← operand ts
  chainFrom level operand x.count left rest

def range (operand : Reader Expr) : Reader Expr := fun ts => do
  let (first, rest) ← operand ts
  match rest with
  | ⟨.dotDot, _⟩ :: rest => do
    let (last, rest) ← operand rest
    .ok (.range first last, rest)
  | _ => .ok (first, rest)

/-- Everything tighter than the conditional. -/
def condition (x : Extent) (unary : Reader Expr) : Reader Expr :=
  chain x orLevel <| chain x andLevel <| chain x equalityLevel <| chain x comparisonLevel <|
    range <| chain x additiveLevel <| chain x multiplicativeLevel unary

/-- `fuel` bounds the number of tokens; both branches start behind the question mark. -/
def conditionalFrom (x : Extent) (unary : Reader Expr) : Nat → Reader Expr
  | 0, ts => condition x unary ts
  | fuel + 1, ts => do
    let (test, rest) ← condition x unary ts
    match rest with
    | ⟨.question, _⟩ :: rest => do
      let (yes, rest) ← conditionalFrom x unary fuel rest
      let ((), rest) ← expect x .colon .colon rest
      let (no, rest) ← conditionalFrom x unary fuel rest
      .ok (.conditional test yes no, rest)
    | _ => .ok (test, rest)

/-- A whole expression, given the reader of its unary operands. -/
def expression (x : Extent) (unary : Reader Expr) : Reader Expr := conditionalFrom x unary x.count

def argumentsFrom (x : Extent) (close : Token) (expected : Expectation) (item : Reader Expr) :
    Nat → Reader (List Expr)
  | 0, ts => .error (unexpected x expected ts)
  | fuel + 1, ts => do
    let (e, rest) ← item ts
    match rest with
    | ⟨.comma, _⟩ :: rest => do
      let (es, rest) ← argumentsFrom x close expected item fuel rest
      .ok (e :: es, rest)
    | rest => do
      let ((), rest) ← expect x close expected rest
      .ok ([e], rest)

/-- Items between commas up to the closing token, or the closing token at once. -/
def arguments (x : Extent) (close : Token) (expected : Expectation) (item : Reader Expr) :
    Reader (List Expr) := fun ts =>
  match ts with
  | t :: rest =>
    if t.token = close then .ok ([], rest)
    else argumentsFrom x close expected item (x.count + 1) ts
  | [] => argumentsFrom x close expected item (x.count + 1) ts

def keyword? : String → Option Value
  | "true" => some (.bool true)
  | "false" => some (.bool false)
  | "null" => some .null
  | _ => none

def number (digits : String) (position : Nat) : Except ExprError Expr :=
  match (Text.digits? digits.toList).bind fun n => Text.fit64 n with
  | some n => .ok (.literal (.int n))
  | none => .error (.invalidNumber digits position)

/-- An operand without a unary operator. The reader `nested` reads what is one level deeper, in a
place that starts at the given offset. -/
def primary (x : Extent) (nested : Nat → Except ExprError (Reader Expr)) : Reader Expr
  | ⟨.number digits, position⟩ :: ts => do
    .ok (← number digits position, ts)
  | ⟨.str text, _⟩ :: ts => .ok (.literal (.str text), ts)
  | ⟨.ident name, position⟩ :: ts =>
    match keyword? name with
    | some value => .ok (.literal value, ts)
    | none =>
      match ts with
      | ⟨.lparen, _⟩ :: ts => do
        let item ← nested position
        let (es, rest) ← arguments x .rparen .argumentsEnd item ts
        .ok (.call name es, rest)
      | _ => .ok (.var name, ts)
  | ⟨.lparen, position⟩ :: ts => do
    let inner ← nested position
    let (e, rest) ← inner ts
    let ((), rest) ← expect x .rparen .groupEnd rest
    .ok (e, rest)
  | ⟨.lbracket, position⟩ :: ts => do
    let item ← nested position
    let (es, rest) ← arguments x .rbracket .listEnd item ts
    .ok (.list es, rest)
  | ts => .error (unexpected x .operand ts)

def unaryOp? : Token → Option UnaryOp
  | .minus => some .negate
  | .bang => some .not
  | _ => none

/-- An operand, given the reader of a unary operand one level deeper. -/
def operand (x : Extent) (deeper : Nat → Except ExprError (Reader Expr)) : Reader Expr := fun ts =>
  let nested := fun position => (deeper position).map (expression x)
  match ts with
  | t :: rest =>
    match unaryOp? t.token with
    | some op => do
      let inner ← deeper t.position
      let (e, rest) ← inner rest
      .ok (.unary op e, rest)
    | none => primary x nested ts
  | [] => primary x nested ts

/-- An operand, when `depth` levels of nesting are left. -/
def unary (x : Extent) : Nat → Reader Expr
  | 0 => operand x fun position => .error (.tooDeep maxDepth position)
  | depth + 1 => operand x fun _ => .ok (unary x depth)

end Parser

/-- Reads a whole text as one expression; `base` is the byte offset of the text. -/
def Expr.parse (text : String) (base : Nat) : Except ExprError Expr := do
  let s ← Token.scan base text
  let x : Parser.Extent := ⟨s.stop, s.tokens.length⟩
  let (e, rest) ← Parser.expression x (Parser.unary x Parser.maxDepth) s.tokens
  match rest with
  | [] => .ok e
  | t :: _ => .error (.trailing t.position)

end ShardedSql
