/-!
Byte offsets into a text, and the pieces of text between them. -/

namespace ShardedSql.Text

def byteLength (cs : List Char) : Nat := cs.foldr (fun c n => c.utf8Size + n) 0

/-- The characters that begin before the byte offset. -/
def takeBytes : List Char → Nat → List Char
  | [], _ => []
  | c :: cs, n => if n = 0 then [] else c :: takeBytes cs (n - c.utf8Size)

/-- The characters that begin at the byte offset or later. -/
def dropBytes : List Char → Nat → List Char
  | [], _ => []
  | c :: cs, n => if n = 0 then c :: cs else dropBytes cs (n - c.utf8Size)

/-- Whether a character begins or the text ends at the byte offset. -/
def isBoundary : List Char → Nat → Bool
  | _, 0 => true
  | [], _ + 1 => false
  | c :: cs, n + 1 => c.utf8Size ≤ n + 1 && isBoundary cs (n + 1 - c.utf8Size)

/-- The text from one byte offset up to another. -/
def slice (cs : List Char) (start finish : Nat) : List Char :=
  takeBytes (dropBytes cs start) (finish - start)

end ShardedSql.Text
