import ShardedSql.Expr.Expand
import ShardedSql.Expr.Parser
import ShardedSql.NameMap
import ShardedSql.Text.Blank

/-!
Templates: text with expressions in `${…}` placeholders, also spelled `$->{…}`. A template has one
text under a binding, or the list of all texts its placeholders' values give. -/

namespace ShardedSql

inductive Segment where
  | text (s : String)
  | placeholder (e : Expr)
  deriving Inhabited

structure Template where
  source : String
  segments : List Segment
  deriving Inhabited

namespace Template

/-- The longest template in bytes. -/
def maxBytes : Nat := 65536

/-- Spells every `$->{` as `${`; what was read so far is `seen`, the last character first. -/
def normalizeFrom (seen : List Char) : List Char → List Char
  | [] => seen.reverse
  | '$' :: '-' :: '>' :: '\x7b' :: r => normalizeFrom ('\x7b' :: '$' :: seen) r
  | c :: r => normalizeFrom (c :: seen) r

def normalize (s : String) : String := String.ofList (normalizeFrom [] s.toList)

/-- The text before the first placeholder and what follows its opening, if there is one. -/
def splitOpening (seen : List Char) : List Char → List Char × Option (List Char)
  | [] => (seen.reverse, none)
  | '$' :: '\x7b' :: r => (seen.reverse, some r)
  | c :: r => splitOpening (c :: seen) r

/-- The body of a placeholder and what follows its closing brace. Braces nest, and count only
outside string literals; inside one a backslash covers the character behind it. -/
def splitBody (depth : Nat) (quote : Option Char) (seen : List Char) :
    List Char → Option (List Char × List Char)
  | [] => none
  | c :: r =>
    match quote with
    | some q =>
      if c == '\\' then
        match r with
        | [] => none
        | d :: r => splitBody depth quote (d :: c :: seen) r
      else splitBody depth (if c == q then none else quote) (c :: seen) r
    | none =>
      if Token.isQuote c then splitBody depth (some c) (c :: seen) r
      else if c == '\x7b' then splitBody (depth + 1) none (c :: seen) r
      else if c == '\x7d' then
        match depth with
        | 0 => some (seen.reverse, r)
        | depth + 1 => splitBody depth none (c :: seen) r
      else splitBody depth none (c :: seen) r

def textSegment (cs : List Char) : List Segment :=
  if cs.isEmpty then [] else [.text (String.ofList cs)]

/-- The segments of a text whose first byte has the offset `position`; `fuel` bounds the number of
placeholders. -/
def segmentsFrom : Nat → Nat → List Char → Except ExprError (List Segment)
  | 0, _, cs => .ok (textSegment cs)
  | fuel + 1, position, cs =>
    match splitOpening [] cs with
    | (text, none) => .ok (textSegment text)
    | (text, some inside) =>
      let opening := position + Text.byteLength text
      match splitBody 0 none [] inside with
      | none => .error (.unterminatedPlaceholder opening)
      | some (body, rest) => do
        let e ← Expr.parse (String.ofList body) (opening + 2)
        let segments ← segmentsFrom fuel (opening + 2 + Text.byteLength body + 1) rest
        .ok (textSegment text ++ .placeholder e :: segments)

def parse (s : String) : Except ExprError Template :=
  if s.utf8ByteSize > maxBytes then .error (.tooLarge maxBytes s.utf8ByteSize)
  else if Text.blank s then .error .empty
  else do
    let source := normalize s
    .ok ⟨source, ← segmentsFrom source.length 0 source.toList⟩

/-- The variables in the order of their names, each once. -/
def varNames (t : Template) : List String :=
  sortNames (t.segments.flatMap fun
    | .text _ => []
    | .placeholder e => e.varNames)

def references (t : Template) (name : String) : Bool := t.varNames.contains name

def isConstant (t : Template) : Bool :=
  t.segments.all fun
    | .text _ => true
    | .placeholder _ => false

def Segment.evaluate (vars : Bindings) : Segment → Except ExprError String
  | .text s => .ok s
  | .placeholder e => do .ok (← e.evaluate vars).text

/-- The one text of the template. -/
def evaluate (vars : Bindings) (t : Template) : Except ExprError String := do
  .ok (String.join (← t.segments.mapM (Segment.evaluate vars)))

/-- Continues each of the texts so far in every way. -/
def expandFrom (vars : Bindings) (texts : List String) : List Segment → Except ExprError (List String)
  | [] => .ok texts
  | .text s :: rest => expandFrom vars (texts.map (· ++ s)) rest
  | .placeholder e :: rest => do
    let values ← e.expand vars
    Expr.withinLimit (texts.length * values.length)
    expandFrom vars (texts.flatMap fun t => values.map fun v => t ++ v.text) rest

/-- All texts of the template, the leftmost placeholder varying slowest. -/
def expand (vars : Bindings) (t : Template) : Except ExprError (List String) :=
  expandFrom vars [""] t.segments

end Template

end ShardedSql
