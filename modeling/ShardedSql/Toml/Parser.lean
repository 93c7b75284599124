import ShardedSql.Toml.Node
import ShardedSql.Toml.Scalar

/-!
The text of a document, line by line: headers that name tables, and keys with their values. -/

namespace ShardedSql.Toml

/-- How deep values may be nested, by brackets and braces or by the dots of one key. -/
def maxNesting : Nat := 80

def isBare (c : Char) : Bool := c.isAlphanum || c == '_' || c == '-'

def skipSpace (cs : List Char) : List Char := cs.dropWhile isSpace

def simpleKey (extent : Nat) : Reader String := fun cs =>
  let bare := cs.takeWhile isBare
  if bare.isEmpty then lineText extent cs else some (String.ofList bare, cs.dropWhile isBare)

/-- Keys between dots, at most `count` many. -/
def keysFrom (extent : Nat) : Nat → Reader (List String)
  | 0, _ => none
  | count + 1, cs => do
    let (key, r) ← simpleKey extent cs
    match skipSpace r with
    | '.' :: r => do
      let (keys, r) ← keysFrom extent count (skipSpace r)
      some (key :: keys, r)
    | r => some ([key], r)

def dottedKey (extent : Nat) : Reader (List String) := keysFrom extent maxNesting

/-- Skips blanks, comments and line ends. -/
def skipBlank : Nat → List Char → List Char
  | fuel + 1, c :: r =>
    if isSpace c then skipBlank fuel r
    else if c == '#' then skipBlank fuel (r.dropWhile isPlain)
    else
      match newline? (c :: r) with
      | some r => skipBlank fuel r
      | none => c :: r
  | _, cs => cs

/-- The rest of a line: blanks and a comment at most. -/
def lineEnd? (cs : List Char) : Option (List Char) :=
  let r := match skipSpace cs with
    | '#' :: r => r.dropWhile isPlain
    | r => r
  match r with
  | [] => some []
  | _ => newline? r

/-- The items of an array after its opening bracket; a comma may stand behind the last one. -/
def itemsFrom (extent : Nat) (item : Reader Document) : Nat → Reader (List Document)
  | 0, _ => none
  | fuel + 1, cs =>
    match skipBlank extent cs with
    | ']' :: r => some ([], r)
    | cs => do
      let (d, r) ← item cs
      match skipBlank extent r with
      | ',' :: r => do
        let (ds, r) ← itemsFrom extent item fuel r
        some (d :: ds, r)
      | ']' :: r => some ([d], r)
      | _ => none

/-- A key and its value; `skip` passes over what may stand around the sign between them. -/
def keyValue (extent : Nat) (skip : List Char → List Char) (item : Reader Document) :
    Reader (List String × Document) := fun cs => do
  let (path, r) ← dottedKey extent cs
  match skip r with
  | '=' :: r => do
    let (d, r) ← item (skip r)
    some ((path, d), r)
  | _ => none

/-- The entries of an inline table after its opening brace; a comma may stand behind the last one. -/
def inlineFrom (extent : Nat) (item : Reader Document) : Nat → Entries → Reader Entries
  | 0, _, _ => none
  | fuel + 1, entries, cs =>
    match skipBlank extent cs with
    | '\x7d' :: r => some (entries, r)
    | cs => do
      let ((path, d), r) ← keyValue extent (skipBlank extent) item cs
      let entries ← entries.assign d true path
      match skipBlank extent r with
      | ',' :: r => inlineFrom extent item fuel entries r
      | '\x7d' :: r => some (entries, r)
      | _ => none

/-- A value, when `depth` levels of nesting are left; `extent` bounds every loop. -/
def value (extent : Nat) : Nat → Reader Document
  | depth + 1, '[' :: r =>
    (itemsFrom extent (value extent depth) extent r).map fun (ds, r) => (.array ds, r)
  | depth + 1, '\x7b' :: r =>
    (inlineFrom extent (value extent depth) extent [] r).map fun (es, r) =>
      (.table (Node.documents es), r)
  | _, cs => scalar extent cs

/-- What a line adds to a document. -/
inductive Line where
  | openTable (path : List String)
  | openElement (path : List String)
  | assign (path : List String) (value : Document)

/-- A line that is not blank, without its end. -/
def line (extent : Nat) : Reader Line
  | '[' :: '[' :: r => do
    let (path, r) ← dottedKey extent (skipSpace r)
    match r with
    | ']' :: ']' :: r => some (.openElement path, r)
    | _ => none
  | '[' :: r => do
    let (path, r) ← dottedKey extent (skipSpace r)
    match r with
    | ']' :: r => some (.openTable path, r)
    | _ => none
  | cs => (keyValue extent skipSpace (value extent maxNesting) cs).map fun ((path, d), r) =>
      (.assign path d, r)

/-- A document being read, and the header that the next lines belong to. -/
structure Progress where
  root : Entries
  header : List String

def Progress.add (d : Progress) : Line → Option Progress
  | .openTable path => do
    let key ← path.getLast?
    some ⟨← d.root.openTable path.dropLast key, path⟩
  | .openElement path => do
    let key ← path.getLast?
    some ⟨← d.root.openElement path.dropLast key, path⟩
  | .assign path value => do
    some { d with root := ← d.root.within (Entries.assign value true path) d.header }

/-- Reads line by line, at most `fuel` many. -/
def linesFrom (extent : Nat) : Nat → Progress → List Char → Option Progress
  | 0, _, _ => none
  | fuel + 1, progress, cs =>
    match skipBlank extent cs with
    | [] => some progress
    | cs => do
      let (l, r) ← line extent cs
      let r ← lineEnd? r
      linesFrom extent fuel (← progress.add l) r

/-- The text without a byte order mark at its start. -/
def withoutMark : List Char → List Char
  | '\ufeff' :: r => r
  | cs => cs

def parse (text : String) : Option Document :=
  let extent := text.length + 1
  (linesFrom extent extent ⟨[], []⟩ (withoutMark text.toList)).map fun d =>
    .table (Node.documents d.root)

end ShardedSql.Toml
