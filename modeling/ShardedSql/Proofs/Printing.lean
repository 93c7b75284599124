import Mathlib.Data.List.Basic
import ShardedSql.Expr.Parser

/-!
How expressions are written. A tree has one sequence of tokens, with parentheses around an operand
exactly where it is looser than its place allows; the tokens are spelled with space between them. -/

namespace ShardedSql

/-! ### The table of operators -/

def UnaryOp.token : UnaryOp → Token
  | .negate => .minus
  | .not => .bang

def BinaryOp.token : BinaryOp → Token
  | .add => .plus
  | .sub => .minus
  | .mul => .star
  | .div => .slash
  | .rem => .percent
  | .eq => .eqEq
  | .ne => .notEq
  | .lt => .lt
  | .le => .le
  | .gt => .gt
  | .ge => .ge
  | .and => .andAnd
  | .or => .orOr

/-- The row of the table the operator stands in, counted from the tightest: the unary operators have
row 0, and the range has row 3. -/
def BinaryOp.looseness : BinaryOp → Nat
  | .mul | .div | .rem => 1
  | .add | .sub => 2
  | .lt | .le | .gt | .ge => 4
  | .eq | .ne => 5
  | .and => 6
  | .or => 7

def Expr.looseness : Expr → Nat
  | .binary op _ _ => op.looseness
  | .range _ _ => 3
  | .conditional _ _ _ => 8
  | _ => 0

/-! ### The tokens of a tree -/

def Value.token : Value → Token
  | .int n => .number (Value.int n).text
  | .str s => .str s
  | v => .ident v.text

/-- The tokens of an operand, in parentheses where it needs them. -/
def Token.group (needed : Bool) (ts : List Token) : List Token :=
  if needed then .lparen :: (ts ++ [.rparen]) else ts

namespace Expr

mutual

/-- A binary operator groups to the left, so that its right operand has to be tighter than it; both
ends of a range have to be tighter than a range; and only the test of a conditional has to be
tighter than a conditional. -/
def tokens : Expr → List Token
  | .literal v => [v.token]
  | .var name => [.ident name]
  | .unary op e => op.token :: Token.group (0 < e.looseness) e.tokens
  | .binary op a b =>
    Token.group (op.looseness < a.looseness) a.tokens ++
      op.token :: Token.group (op.looseness ≤ b.looseness) b.tokens
  | .conditional c a b =>
    Token.group (7 < c.looseness) c.tokens ++ .question :: (a.tokens ++ .colon :: b.tokens)
  | .call name es => .ident name :: .lparen :: (itemTokens es ++ [.rparen])
  | .range a b =>
    Token.group (2 < a.looseness) a.tokens ++ .dotDot :: Token.group (2 < b.looseness) b.tokens
  | .list es => .lbracket :: (itemTokens es ++ [.rbracket])

def itemTokens : List Expr → List Token
  | [] => []
  | e :: es => e.tokens ++ if es.isEmpty then [] else .comma :: itemTokens es

end

/-- The tokens of a tree in a place that is open to what is no looser than the limit. -/
def tokensAt (limit : Nat) (e : Expr) : List Token := Token.group (limit < e.looseness) e.tokens

/-- The nesting of an operand, with the parentheses it needs. -/
def nesting (needed : Bool) (depth : Nat) : Nat := if needed then depth + 1 else depth

mutual

/-- How deep the parentheses, calls, lists and unary operators of the written tree nest. -/
def depth : Expr → Nat
  | .literal _ => 0
  | .var _ => 0
  | .unary _ e => nesting (0 < e.looseness) e.depth + 1
  | .binary op a b =>
    max (nesting (op.looseness < a.looseness) a.depth) (nesting (op.looseness ≤ b.looseness) b.depth)
  | .conditional c a b => max (nesting (7 < c.looseness) c.depth) (max a.depth b.depth)
  | .call _ es => itemDepth es + 1
  | .range a b => max (nesting (2 < a.looseness) a.depth) (nesting (2 < b.looseness) b.depth)
  | .list es => itemDepth es + 1

def itemDepth : List Expr → Nat
  | [] => 0
  | e :: es => max e.depth (itemDepth es)

end

def depthAt (limit : Nat) (e : Expr) : Nat := nesting (limit < e.looseness) e.depth

section Places

variable {e : Expr} {limit : Nat}

theorem tokensAt_of_le (h : e.looseness ≤ limit) : e.tokensAt limit = e.tokens := by
  rw [tokensAt, Token.group, if_neg (by simpa using h)]

theorem depthAt_of_le (h : e.looseness ≤ limit) : e.depthAt limit = e.depth := by
  rw [depthAt, nesting, if_neg (by simpa using h)]

theorem tokensAt_of_lt (h : limit < e.looseness) :
    e.tokensAt limit = .lparen :: (e.tokens ++ [.rparen]) := by
  rw [tokensAt, Token.group, if_pos (by simpa using h)]

theorem depthAt_of_lt (h : limit < e.looseness) : e.depthAt limit = e.depth + 1 := by
  rw [depthAt, nesting, if_pos (by simpa using h)]

end Places

/-- A name that is read as a variable or a function. -/
structure IsName (name : String) : Prop where
  starts : ∃ c rest, name.toList = c :: rest ∧ Token.isIdentStart c = true ∧
    ∀ d ∈ rest, Token.isIdentRest d = true
  free : Parser.keyword? name = none

theorem IsName.of_char {c : Char} (hc : Token.isIdentStart c = true)
    (hfree : Parser.keyword? (String.ofList [c]) = none) : IsName (String.ofList [c]) :=
  ⟨⟨c, [], String.toList_ofList, hc, by simp⟩, hfree⟩

/-- The trees that can be written: their integers have no sign, and their names are names. -/
inductive Printable : Expr → Prop
  | literal {v : Value} (h : ∀ n, v = .int n → 0 ≤ n.toInt) : Printable (.literal v)
  | var {name : String} (hname : IsName name) : Printable (.var name)
  | unary {op : UnaryOp} {e : Expr} (h : Printable e) : Printable (.unary op e)
  | binary {op : BinaryOp} {a b : Expr} (ha : Printable a) (hb : Printable b) :
      Printable (.binary op a b)
  | conditional {c a b : Expr} (hc : Printable c) (ha : Printable a) (hb : Printable b) :
      Printable (.conditional c a b)
  | call {name : String} {es : List Expr} (hname : IsName name) (h : ∀ e ∈ es, Printable e) :
      Printable (.call name es)
  | range {a b : Expr} (ha : Printable a) (hb : Printable b) : Printable (.range a b)
  | list {es : List Expr} (h : ∀ e ∈ es, Printable e) : Printable (.list es)

theorem Printable.int {n : Int64} (h : 0 ≤ n.toInt) : Printable (.literal (.int n)) := by
  refine .literal fun m hm => ?_
  cases hm
  exact h

theorem Printable.str (s : String) : Printable (.literal (.str s)) := .literal fun _ h => nomatch h

end Expr

/-! ### The spelling of tokens -/

namespace Token

/-- A string between quotes: the quote and the backslash come behind a backslash, any other character
may. -/
inductive Quoted (quote : Char) : List Char → List Char → Prop
  | nil : Quoted quote [] []
  | plain {c : Char} {text written : List Char} (hquote : c ≠ quote) (hescape : c ≠ '\\')
      (h : Quoted quote text written) : Quoted quote (c :: text) (c :: written)
  | escaped {text written : List Char} (c : Char) (h : Quoted quote text written) :
      Quoted quote (c :: text) ('\\' :: c :: written)

/-- The tokens that are always spelled the same: the operators and the marks. -/
def isMark : Token → Bool
  | .number _ | .str _ | .ident _ => false
  | _ => true

inductive Spelled : Token → List Char → Prop
  | number {digits : List Char} (hne : digits ≠ []) (h : ∀ c ∈ digits, c.isDigit = true) :
      Spelled (.number (String.ofList digits)) digits
  | ident {c : Char} {rest : List Char} (hc : isIdentStart c = true)
      (h : ∀ d ∈ rest, isIdentRest d = true) :
      Spelled (.ident (String.ofList (c :: rest))) (c :: rest)
  | str {quote : Char} {text written : List Char} (hquote : isQuote quote = true)
      (h : Quoted quote text written) :
      Spelled (.str (String.ofList text)) (quote :: (written ++ [quote]))
  | mark {t : Token} (h : t.isMark = true) : Spelled t t.text.toList

def Blank (gap : List Char) : Prop := ∀ c ∈ gap, isSpace c = true

/-- Tokens one after another, with space between them and perhaps behind the last. -/
inductive Written : List Token → List Char → Prop
  | last {t : Token} {word gap : List Char} (hword : t.Spelled word) (hgap : Blank gap) :
      Written [t] (word ++ gap)
  | cons {t : Token} {word gap : List Char} {ts : List Token} {cs : List Char}
      (hword : t.Spelled word) (hgap : Blank gap) (hne : gap ≠ []) (h : Written ts cs) :
      Written (t :: ts) (word ++ (gap ++ cs))

/-- Escapes what ends a string in single quotes. -/
def escape (c : Char) : List Char := if c = '\'' ∨ c = '\\' then ['\\', c] else [c]

def spelling : Token → List Char
  | .str text => '\'' :: (text.toList.flatMap escape ++ ['\''])
  | t => t.text.toList

def spellings : List Token → List Char
  | [] => []
  | [t] => t.spelling
  | t :: ts => t.spelling ++ ' ' :: spellings ts

theorem quoted_escape (text : List Char) : Quoted '\'' text (text.flatMap escape) := by
  induction text with
  | nil => exact .nil
  | cons c text ih =>
    rw [List.flatMap_cons]
    by_cases hc : c = '\'' ∨ c = '\\'
    · rw [escape, if_pos hc]
      exact .escaped c ih
    · rw [escape, if_neg hc]
      rw [not_or] at hc
      exact .plain hc.1 hc.2 ih

theorem spelled_quote (text : List Char) :
    Spelled (.str (String.ofList text)) ('\'' :: (text.flatMap escape ++ ['\''])) :=
  .str rfl (quoted_escape text)

/-- A token that can be spelled is spelled by its spelling. -/
theorem Spelled.spelling {t : Token} {word : List Char} (h : t.Spelled word) : t.Spelled t.spelling := by
  cases h with
  | number hne hdigits => simpa [Token.spelling, text] using Spelled.number hne hdigits
  | ident hc hname => simpa [Token.spelling, text] using Spelled.ident hc hname
  | @str quote text written _ _ => simpa [Token.spelling] using spelled_quote text
  | mark hmark =>
    cases t <;> first | exact absurd hmark Bool.false_ne_true | exact .mark rfl

theorem written_spellings {ts : List Token} (hne : ts ≠ [])
    (h : ∀ t ∈ ts, ∃ word, t.Spelled word) : Written ts (spellings ts) := by
  induction ts with
  | nil => exact absurd rfl hne
  | cons t ts ih =>
    obtain ⟨word, hword⟩ := h t (by simp)
    cases ts with
    | nil =>
      have hnone : Blank [] := by simp [Blank]
      simpa [spellings] using Written.last hword.spelling hnone
    | cons t' ts =>
      have hspace : Blank [' '] := by simp [Blank, isSpace]
      have hrest := ih (by simp) fun u hu => h u (by simp [hu])
      exact Written.cons hword.spelling hspace (by simp) hrest

end Token

namespace Expr

/-- The text is a way to write the tree. -/
def WrittenAs (e : Expr) (text : String) : Prop :=
  ∃ gap cs, Token.Blank gap ∧ Token.Written e.tokens cs ∧ text.toList = gap ++ cs

/-- The tree with single spaces and single quotes. -/
def print (e : Expr) : String := String.ofList (Token.spellings e.tokens)

/-! ### Every tree can be written -/

theorem mem_group {needed : Bool} {ts : List Token} {t : Token} (h : t ∈ Token.group needed ts) :
    t = .lparen ∨ t = .rparen ∨ t ∈ ts := by
  cases needed with
  | false => exact .inr (.inr h)
  | true =>
    rw [Token.group, if_pos rfl, List.mem_cons, List.mem_append, List.mem_singleton] at h
    tauto

theorem mem_itemTokens {es : List Expr} {t : Token} (h : t ∈ itemTokens es) :
    t = .comma ∨ ∃ e ∈ es, t ∈ e.tokens := by
  induction es with
  | nil => cases h
  | cons e es ih =>
    rw [itemTokens, List.mem_append] at h
    obtain h | h := h
    · exact .inr ⟨e, by simp, h⟩
    · split at h
      · cases h
      · obtain rfl | h := List.mem_cons.1 h
        · exact .inl rfl
        · exact (ih h).imp_right fun ⟨e', he', ht⟩ => ⟨e', by simp [he'], ht⟩

/-- The decimal digits of an integer without a sign. -/
theorem int_text {n : Int64} (h : 0 ≤ n.toInt) :
    (Value.int n).text = String.ofList (Nat.toDigits 10 n.toInt.toNat) := by
  obtain ⟨m, hm⟩ := Int.eq_ofNat_of_zero_le h
  rw [Value.text, hm, ← Nat.toList_repr, String.ofList_toList]
  rfl

theorem IsName.spelled {name : String} (h : IsName name) : (Token.ident name).Spelled name.toList := by
  obtain ⟨c, rest, hname, hc, hrest⟩ := h.starts
  obtain rfl : name = String.ofList (c :: rest) := by rw [← hname, String.ofList_toList]
  rw [hname]
  exact .ident hc hrest

theorem spelled_literal {v : Value} (h : ∀ n, v = .int n → 0 ≤ n.toInt) :
    ∃ word, v.token.Spelled word := by
  have hword : ∀ (c : Char) (rest : String), Token.isIdentStart c = true →
      rest.toList.all Token.isIdentRest = true →
      (Token.ident (String.ofList (c :: rest.toList))).Spelled (c :: rest.toList) :=
    fun c rest hc hrest => .ident hc (List.all_eq_true.1 hrest)
  cases v with
  | null => exact ⟨_, hword 'n' "ull" rfl rfl⟩
  | bool b =>
    cases b with
    | false => exact ⟨_, hword 'f' "alse" rfl rfl⟩
    | true => exact ⟨_, hword 't' "rue" rfl rfl⟩
  | int n =>
    rw [Value.token, int_text (h n rfl)]
    exact ⟨_, .number Nat.toDigits_ne_nil fun c hc =>
      Nat.isDigit_of_mem_toDigits (by omega) (by omega) hc⟩
  | str s =>
    have hquoted := Token.spelled_quote s.toList
    rw [String.ofList_toList] at hquoted
    exact ⟨_, hquoted⟩

theorem Printable.spelled {e : Expr} (h : e.Printable) : ∀ t ∈ e.tokens, ∃ word, t.Spelled word := by
  have hmark : ∀ t : Token, t.isMark = true → ∃ word, t.Spelled word := fun t ht => ⟨_, .mark ht⟩
  have hgroup : ∀ {needed : Bool} {ts : List Token}, (∀ t ∈ ts, ∃ word, t.Spelled word) →
      ∀ t ∈ Token.group needed ts, ∃ word, t.Spelled word := by
    intro needed ts hts t ht
    obtain rfl | rfl | ht := mem_group ht
    · exact hmark _ rfl
    · exact hmark _ rfl
    · exact hts t ht
  have hitems : ∀ {es : List Expr} {close : Token}, close.isMark = true →
      (∀ e ∈ es, ∀ t ∈ e.tokens, ∃ word, t.Spelled word) →
      ∀ t ∈ itemTokens es ++ [close], ∃ word, t.Spelled word := by
    intro es close hclose hes t ht
    obtain ht | ht := List.mem_append.1 ht
    · obtain rfl | ⟨e, he, ht⟩ := mem_itemTokens ht
      · exact hmark _ rfl
      · exact hes e he t ht
    · rw [List.mem_singleton.1 ht]
      exact hmark close hclose
  induction h with
  | literal hv => simpa [tokens] using spelled_literal hv
  | var hname => simpa [tokens] using ⟨_, hname.spelled⟩
  | @unary op e _ ih =>
    rw [tokens, List.forall_mem_cons]
    exact ⟨hmark _ (by cases op <;> rfl), hgroup ih⟩
  | @binary op a b _ _ iha ihb =>
    rw [tokens, List.forall_mem_append, List.forall_mem_cons]
    exact ⟨hgroup iha, hmark _ (by cases op <;> rfl), hgroup ihb⟩
  | conditional _ _ _ ihc iha ihb =>
    rw [tokens, List.forall_mem_append, List.forall_mem_cons, List.forall_mem_append,
      List.forall_mem_cons]
    exact ⟨hgroup ihc, hmark _ rfl, iha, hmark _ rfl, ihb⟩
  | call hname _ ih =>
    rw [tokens, List.forall_mem_cons, List.forall_mem_cons]
    exact ⟨⟨_, hname.spelled⟩, hmark _ rfl, hitems rfl ih⟩
  | range _ _ iha ihb =>
    rw [tokens, List.forall_mem_append, List.forall_mem_cons]
    exact ⟨hgroup iha, hmark _ rfl, hgroup ihb⟩
  | list _ ih =>
    rw [tokens, List.forall_mem_cons]
    exact ⟨hmark _ rfl, hitems rfl ih⟩

theorem tokens_ne_nil (e : Expr) : e.tokens ≠ [] := by
  cases e <;> simp [tokens]

/-- A tree is written as it is printed. -/
theorem Printable.writtenAs {e : Expr} (h : e.Printable) : e.WrittenAs e.print :=
  ⟨[], _, by simp [Token.Blank], Token.written_spellings e.tokens_ne_nil h.spelled,
    String.toList_ofList⟩

end Expr

end ShardedSql
