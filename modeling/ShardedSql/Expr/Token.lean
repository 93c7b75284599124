import ShardedSql.Expr.Error
import ShardedSql.Text.Offset

/-!
The tokens of an expression and the reader that finds them. Every token carries the byte offset at
which it begins. -/

namespace ShardedSql

inductive Token where
  | number (digits : String)
  | str (text : String)
  | ident (name : String)
  | plus | minus | star | slash | percent
  | eqEq | notEq | lt | le | gt | ge
  | andAnd | orOr | bang | question | colon
  | lparen | rparen | lbracket | rbracket | comma | dotDot
  deriving DecidableEq

namespace Token

def text : Token → String
  | number digits => digits
  | ident name => name
  | str text => "'" ++ text ++ "'"
  | plus => "+"
  | minus => "-"
  | star => "*"
  | slash => "/"
  | percent => "%"
  | eqEq => "=="
  | notEq => "!="
  | lt => "<"
  | le => "<="
  | gt => ">"
  | ge => ">="
  | andAnd => "&&"
  | orOr => "||"
  | bang => "!"
  | question => "?"
  | colon => ":"
  | lparen => "("
  | rparen => ")"
  | lbracket => "["
  | rbracket => "]"
  | comma => ","
  | dotDot => ".."

/-- A token and the byte offset of its first character. -/
structure Placed where
  token : Token
  position : Nat
  deriving DecidableEq

/-- All tokens of a text and the byte offset of its end. -/
structure Stream where
  tokens : List Placed
  stop : Nat

def isSpace (c : Char) : Bool := c == ' ' || c == '\t' || c == '\n' || c == '\r'

def isIdentStart (c : Char) : Bool := c.isAlpha || c == '_'

def isIdentRest (c : Char) : Bool := c.isAlphanum || c == '_'

def isQuote (c : Char) : Bool := c == '\'' || c == '"'

/-- The operator at the front of the text, the longest one first. -/
def operator? : List Char → Option (Token × List Char)
  | '=' :: '=' :: r => some (eqEq, r)
  | '!' :: '=' :: r => some (notEq, r)
  | '<' :: '=' :: r => some (le, r)
  | '>' :: '=' :: r => some (ge, r)
  | '&' :: '&' :: r => some (andAnd, r)
  | '|' :: '|' :: r => some (orOr, r)
  | '.' :: '.' :: r => some (dotDot, r)
  | '+' :: r => some (plus, r)
  | '-' :: r => some (minus, r)
  | '*' :: r => some (star, r)
  | '/' :: r => some (slash, r)
  | '%' :: r => some (percent, r)
  | '<' :: r => some (lt, r)
  | '>' :: r => some (gt, r)
  | '!' :: r => some (bang, r)
  | '?' :: r => some (question, r)
  | ':' :: r => some (colon, r)
  | '(' :: r => some (lparen, r)
  | ')' :: r => some (rparen, r)
  | '[' :: r => some (lbracket, r)
  | ']' :: r => some (rbracket, r)
  | ',' :: r => some (comma, r)
  | _ => none

/-- What remains of a quoted text after its opening quote: the characters it denotes, the bytes it
takes with its closing quote, and the rest. A backslash stands for the character behind it. The
characters passed so far are `seen`, the last one first, and took `n` bytes. -/
def quotedFrom (quote : Char) (seen : List Char) (n : Nat) :
    List Char → Option (List Char × Nat × List Char)
  | [] => none
  | c :: r =>
    if c == quote then some (seen.reverse, n + c.utf8Size, r)
    else if c == '\\' then
      match r with
      | [] => none
      | d :: r => quotedFrom quote (d :: seen) (n + c.utf8Size + d.utf8Size) r
    else quotedFrom quote (c :: seen) (n + c.utf8Size) r

/-- The token that starts with `c`, the bytes it takes and the rest of the text. -/
def next (position : Nat) (c : Char) (r : List Char) :
    Except ExprError (Token × Nat × List Char) :=
  if c.isDigit then
    let digits := c :: r.takeWhile Char.isDigit
    .ok (number (String.ofList digits), Text.byteLength digits, r.dropWhile Char.isDigit)
  else if isIdentStart c then
    let name := c :: r.takeWhile isIdentRest
    .ok (ident (String.ofList name), Text.byteLength name, r.dropWhile isIdentRest)
  else if isQuote c then
    match quotedFrom c [] c.utf8Size r with
    | some (text, n, rest) => .ok (str (String.ofList text), n, rest)
    | none => .error (.unterminatedString position)
  else
    match operator? (c :: r) with
    | some (t, rest) => .ok (t, t.text.utf8ByteSize, rest)
    | none => .error (.unexpected .lexeme c.toString position)

/-- `fuel` bounds the number of characters, of which each round takes at least one; the tokens found
so far are `seen`, the last one first. -/
def scanFrom : Nat → Nat → List Placed → List Char → Except ExprError Stream
  | fuel + 1, position, seen, c :: r =>
    if isSpace c then scanFrom fuel (position + c.utf8Size) seen r
    else do
      let (t, n, rest) ← next position c r
      scanFrom fuel (position + n) (⟨t, position⟩ :: seen) rest
  | _, position, seen, _ => .ok ⟨seen.reverse, position⟩

/-- The tokens of a text whose first byte has the offset `base`. -/
def scan (base : Nat) (text : String) : Except ExprError Stream := do
  let s ← scanFrom text.length base [] text.toList
  if s.tokens.isEmpty then .error .empty else .ok s

end Token

end ShardedSql
