import ShardedSql.Route.Basic
import ShardedSql.Sql.Error
import ShardedSql.Text.Offset

/-!
The places of a statement that differ between units, and the text each of them takes for a route unit. -/

namespace ShardedSql

inductive Quote where
  | none | backQuote | double | brackets
  deriving DecidableEq

def Quote.wrap : Quote → String → String
  | .none, name => name
  | .backQuote, name => "\x60" ++ name ++ "\x60"
  | .double, name => "\"" ++ name ++ "\""
  | .brackets, name => "[" ++ name ++ "]"

/-- A selected column, with the table and the label it is written with. -/
structure Projection where
  owner : Option String
  name : String
  label : Option String
  deriving DecidableEq

/-- The text of one inserted row and the data nodes it goes to. -/
structure InsertRow where
  text : String
  nodes : List DataNode
  deriving DecidableEq

/-- The bytes from `start` to `stop`, both included. -/
structure Span where
  start : Nat
  stop : Nat
  deriving DecidableEq

inductive SqlToken where
  | insertion (start : Nat) (text : String)
  | tableName (span : Span) (logic : String) (quote : Quote)
  | substitute (span : Span) (text : String)
  | projections (span : Span) (columns : List Projection)
  | insertRows (span : Span) (rows : List InsertRow)
  | composable (span : Span) (tokens : List SqlToken)
  deriving Inhabited

/-- The name a logic table has on a unit; without a mapping it keeps its own. -/
def actualName (unit : Option RouteUnit) (logic : String) : String :=
  (unit.bind (·.actualTable? logic)).getD logic

def Projection.render (unit : Option RouteUnit) (p : Projection) : String :=
  let owner := match p.owner with
    | some owner => actualName unit owner ++ "."
    | none => ""
  let label := match p.label with
    | some label => " AS " ++ label
    | none => ""
  owner ++ p.name ++ label

/-- Whether the row is inserted on the unit. -/
def InsertRow.belongs (unit : Option RouteUnit) (row : InsertRow) : Bool :=
  match unit with
  | none => true
  | some u => u.coversAny row.nodes

namespace SqlToken

def table (start stop : Nat) (logic : String) : SqlToken := .tableName ⟨start, stop⟩ logic .none

def remove (start stop : Nat) : SqlToken := .substitute ⟨start, stop⟩ ""

def span? : SqlToken → Option Span
  | .insertion _ _ => none
  | .tableName span _ _ | .substitute span _ | .projections span _ | .insertRows span _
  | .composable span _ => some span

def start : SqlToken → Nat
  | .insertion start _ => start
  | .tableName span _ _ | .substitute span _ | .projections span _ | .insertRows span _
  | .composable span _ => span.start

/-- The offset of the first byte behind the token; an insertion takes no byte. -/
def finish (t : SqlToken) : Nat :=
  match t.span? with
  | none => t.start
  | some span => span.stop + 1

/-- Where copying goes on in a text of the given length. -/
def resume (t : SqlToken) (length : Nat) : Nat := min t.finish length

/-- Puts a token before the first one that starts no earlier. -/
def insertByStart (t : SqlToken) : List SqlToken → List SqlToken
  | [] => [t]
  | u :: us => if t.start ≤ u.start then t :: u :: us else u :: insertByStart t us

mutual

/-- The token with its nested tokens in the order of their starts. -/
def ordered : SqlToken → SqlToken
  | .composable span tokens => .composable span (orderedAll tokens)
  | t => t

/-- The tokens in the order of their starts, equal starts as they were, at every level. -/
def orderedAll : List SqlToken → List SqlToken
  | [] => []
  | t :: ts => insertByStart (ordered t) (orderedAll ts)

end

/-- Whether the token lies in the text, on character boundaries. -/
def fits (sql : List Char) (length : Nat) (t : SqlToken) : Bool :=
  t.finish ≤ length && (t.span?.all fun s => s.start ≤ s.stop) && Text.isBoundary sql t.start &&
    Text.isBoundary sql t.finish

/-- Every token lies in the text and starts where the one before it has ended, `previous` for the
first one, or later. -/
def validate (sql : List Char) (length previous : Nat) : List SqlToken → Except RenderError Unit
  | [] => .ok ()
  | t :: ts =>
    if !t.fits sql length then
      .error (.tokenOutOfBounds t.start ((t.span?.map (·.stop)).getD t.start) length)
    else if t.start < previous then .error (.overlappingTokens t.start)
    else validate sql length t.finish ts

mutual

/-- The text of a token whose nested tokens are in order. -/
def render (sql : List Char) (length : Nat) (unit : Option RouteUnit) :
    SqlToken → Except RenderError (List Char)
  | .insertion _ text => .ok text.toList
  | .tableName _ logic quote => .ok (quote.wrap (actualName unit logic)).toList
  | .substitute _ text => .ok text.toList
  | .projections _ columns => .ok (", ".intercalate (columns.map (·.render unit))).toList
  | .insertRows _ rows =>
    .ok (", ".intercalate ((rows.filter (·.belongs unit)).map (·.text))).toList
  | .composable span tokens => do
    validate sql length 0 tokens
    renderWithin sql length unit span.start (min (span.stop + 1) length) tokens

/-- The text between two offsets, with the tokens there in place of what they cover. -/
def renderWithin (sql : List Char) (length : Nat) (unit : Option RouteUnit) (cursor stop : Nat) :
    List SqlToken → Except RenderError (List Char)
  | [] => .ok (Text.slice sql cursor stop)
  | t :: ts => do
    if t.start < cursor || t.start > stop || t.resume length > stop then
      .error (.overlappingTokens t.start)
    else
      let text ← render sql length unit t
      let rest ← renderWithin sql length unit (t.resume length) stop ts
      .ok (Text.slice sql cursor t.start ++ text ++ rest)

end

end SqlToken

/-- The statement for one unit: what no token covers is copied, what a token covers is replaced by
its text. -/
def buildSql (sql : String) (tokens : List SqlToken) (unit : Option RouteUnit) :
    Except RenderError String := do
  let cs := sql.toList
  let length := Text.byteLength cs
  let tokens := SqlToken.orderedAll tokens
  SqlToken.validate cs length 0 tokens
  .ok (String.ofList (← SqlToken.renderWithin cs length unit 0 length tokens))

/-- The statement without one semicolon at its end. -/
def trimSemicolon (sql : String) : String :=
  match sql.toList.reverse with
  | ';' :: cs => String.ofList cs.reverse
  | _ => sql

end ShardedSql
