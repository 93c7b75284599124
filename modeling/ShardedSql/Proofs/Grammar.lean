import ShardedSql.Proofs.Numerals
import ShardedSql.Proofs.Scanning

/-!
The parser inverts printing. The readers of the table's rows stand one on the other; a tree is read
by the reader of its own row, from there by every looser one, and in parentheses by all of them. -/

namespace ShardedSql

namespace Parser

/-! ### Readers that may run out of depth -/

/-- What a reader gives with `left` levels of nesting left, at a text that nests `needed` levels deep:
the answer or the refusal. -/
structure Within {α : Type} (left needed : Nat) (r answer : Except ExprError α) : Prop where
  reads : needed ≤ left → r = answer
  refuses : left < needed → ∃ position, r = .error (.tooDeep maxDepth position)

section Within

variable {α β : Type} {d m m' : Nat}

theorem Within.refl (r : Except ExprError α) : Within d 0 r r :=
  ⟨fun _ => rfl, fun h => absurd h (by omega)⟩

theorem Within.trans {r r' r'' : Except ExprError α} (h : Within d m r r') (h' : Within d m' r' r'') :
    Within d (max m m') r r'' := by
  constructor
  · intro hle
    rw [h.reads (by omega), h'.reads (by omega)]
  · intro hlt
    by_cases hm : m ≤ d
    · rw [h.reads hm]
      exact h'.refuses (by omega)
    · exact h.refuses (by omega)

theorem Within.bind {r : Except ExprError α} {a : α} {k : α → Except ExprError β}
    {s : Except ExprError β} (h : Within d m r (.ok a)) (h' : Within d m' (k a) s) :
    Within d (max m m') (r >>= k) s := by
  have hk : Within d m (r >>= k) (k a) := by
    refine ⟨fun hle => ?_, fun hlt => ?_⟩
    · rw [h.reads hle]
      rfl
    · obtain ⟨position, hr⟩ := h.refuses hlt
      exact ⟨position, by rw [hr]; rfl⟩
  exact hk.trans h'

/-- The answer is taken over by what comes behind. -/
theorem Within.map {r : Except ExprError α} {a : α} {k : α → Except ExprError β}
    {s : Except ExprError β} (h : Within d m r (.ok a)) (hk : k a = s) : Within d m (r >>= k) s := by
  have hthen := h.bind (k := k) (Within.refl (k a))
  rwa [Nat.max_zero, hk] at hthen

end Within

/-- The reader of unary operands one level deeper, or the refusal. -/
def deeper (x : Extent) : Nat → Nat → Except ExprError (Reader Expr)
  | 0, position => .error (.tooDeep maxDepth position)
  | d + 1, _ => .ok (unary x d)

theorem unary_eq (x : Extent) (d : Nat) : unary x d = operand x (deeper x d) := by
  cases d <;> rfl

section Deeper

variable {α : Type} {x : Extent} {d m : Nat} {answer : Except ExprError α}

theorem Within.deeper {k : Reader Expr → Except ExprError α}
    (h : ∀ d, Within d m (k (unary x d)) answer) (position : Nat) :
    Within d (m + 1) (deeper x d position >>= k) answer := by
  cases d with
  | zero => exact ⟨fun hle => absurd hle (by omega), fun _ => ⟨position, rfl⟩⟩
  | succ d => exact ⟨fun hle => (h d).reads (by omega), fun hlt => (h d).refuses (by omega)⟩

theorem Within.nested {k : Reader Expr → Except ExprError α}
    (h : ∀ d, Within d m (k (expression x (unary x d))) answer) (position : Nat) :
    Within d (m + 1) ((Parser.deeper x d position).map (expression x) >>= k) answer := by
  have hmap : (Parser.deeper x d position).map (expression x) >>= k =
      Parser.deeper x d position >>= fun u => k (expression x u) := by
    cases Parser.deeper x d position <;> rfl
  rw [hmap]
  exact .deeper h position

end Deeper

/-! ### The readers of the table -/

def levelOf : Nat → Level
  | 1 => multiplicativeLevel
  | 2 => additiveLevel
  | 4 => comparisonLevel
  | 5 => equalityLevel
  | 6 => andLevel
  | 7 => orLevel
  | _ => fun _ => none

/-- The reader of what stands in a row of the table, or in a tighter one. -/
def readerAt (x : Extent) (unary : Reader Expr) : Nat → Reader Expr
  | 0 => unary
  | 3 => range (readerAt x unary 2)
  | n + 1 => chain x (levelOf (n + 1)) (readerAt x unary n)

theorem condition_eq (x : Extent) (unary : Reader Expr) : condition x unary = readerAt x unary 7 := rfl

theorem readerAt_succ (x : Extent) (unary : Reader Expr) {n : Nat} (h : n + 1 ≠ 3) :
    readerAt x unary (n + 1) = chain x (levelOf (n + 1)) (readerAt x unary n) := by
  rw [readerAt]
  omega

theorem levelOf_token (op : BinaryOp) : levelOf op.looseness op.token = some op := by
  cases op <;> rfl

/-- The row in which the token would go on with the expression before it, or 9 where it never does. A
parenthesis goes on with a name. -/
def joins : Token → Nat
  | .lparen => 0
  | .star | .slash | .percent => 1
  | .plus | .minus => 2
  | .dotDot => 3
  | .lt | .le | .gt | .ge => 4
  | .eqEq | .notEq => 5
  | .andAnd => 6
  | .orOr => 7
  | .question => 8
  | _ => 9

theorem joins_token (op : BinaryOp) : joins op.token = op.looseness := by
  cases op <;> rfl

theorem levelOf_eq_none {n : Nat} {t : Token} (h : n < joins t) : levelOf n t = none := by
  unfold levelOf
  split <;> first | rfl | (cases t <;> first | rfl | (simp only [joins] at h; omega))

/-- What follows does not go on with an expression of the row. -/
def Stops (n : Nat) (rest : List Token.Placed) : Prop := ∀ t ∈ rest.head?, n < joins t.token

theorem Stops.mono {n n' : Nat} {rest : List Token.Placed} (h : Stops n rest) (hle : n' ≤ n) :
    Stops n' rest := fun t ht => lt_of_le_of_lt hle (h t ht)

theorem stops_cons {n : Nat} {t : Token.Placed} {rest : List Token.Placed} (h : n < joins t.token) :
    Stops n (t :: rest) := by
  intro u hu
  obtain rfl : t = u := by simpa using hu
  exact h

theorem chainFrom_of_stops {n : Nat} {rest : List Token.Placed} (h : Stops n rest)
    (reader : Reader Expr) (fuel : Nat) (e : Expr) :
    chainFrom (levelOf n) reader fuel e rest = .ok (e, rest) := by
  cases fuel with
  | zero => rfl
  | succ fuel =>
    cases rest with
    | nil => rfl
    | cons t rest => rw [chainFrom, levelOf_eq_none (h t rfl)]

theorem placed_cons {ts : List Token.Placed} {t : Token} {behind : List Token}
    (h : ts.map (·.token) = t :: behind) :
    ∃ position rest, ts = ⟨t, position⟩ :: rest ∧ rest.map (·.token) = behind := by
  obtain ⟨⟨_, position⟩, rest, rfl, rfl, hrest⟩ := List.map_eq_cons_iff.1 h
  exact ⟨position, rest, rfl, hrest⟩

/-- Placed tokens are parted around one of them. -/
theorem placed_append_cons {ts : List Token.Placed} {front behind : List Token} {t : Token}
    (h : ts.map (·.token) = front ++ t :: behind) :
    ∃ ts₁ position ts₂, ts = ts₁ ++ ⟨t, position⟩ :: ts₂ ∧ ts₁.map (·.token) = front ∧
      ts₂.map (·.token) = behind := by
  obtain ⟨ts₁, rest, rfl, h₁, hrest⟩ := List.map_eq_append_iff.1 h
  obtain ⟨position, ts₂, rfl, h₂⟩ := placed_cons hrest
  exact ⟨ts₁, position, ts₂, rfl, h₁, h₂⟩

/-! ### Reading one tree -/

/-- The tokens are read as the tree in a place that is open to a row. -/
def ReadsAt (x : Extent) (n : Nat) (e : Expr) (tokens : List Token) (depth : Nat) : Prop :=
  ∀ d ts rest, ts.map (·.token) = tokens → (ts ++ rest).length ≤ x.count → Stops n rest →
    Within d depth (readerAt x (unary x d) n (ts ++ rest)) (.ok (e, rest))

/-- The tokens are read as the tree at the left end of a chain of a row, whatever goes on with it. -/
def ChainsAt (x : Extent) (n : Nat) (e : Expr) (tokens : List Token) (depth : Nat) : Prop :=
  ∀ d ts rest, ts.map (·.token) = tokens → (ts ++ rest).length ≤ x.count → Stops n rest →
    ∃ fuel, rest.length ≤ fuel ∧ Within d depth (readerAt x (unary x d) (n + 1) (ts ++ rest))
      (chainFrom (levelOf (n + 1)) (readerAt x (unary x d) n) fuel e rest)

/-- The tokens are read as the tree where any expression may stand. -/
def ReadsWhole (x : Extent) (e : Expr) (tokens : List Token) (depth : Nat) : Prop :=
  ∀ d ts rest fuel, ts.map (·.token) = tokens → (ts ++ rest).length ≤ x.count → ts.length ≤ fuel →
    Stops 8 rest → Within d depth (conditionalFrom x (unary x d) fuel (ts ++ rest)) (.ok (e, rest))

section Places

variable {x : Extent} {n n' depth : Nat} {e : Expr} {tokens : List Token}

theorem ReadsAt.chains (h : ReadsAt x n e tokens depth) (hn : n + 1 ≠ 3) :
    ChainsAt x n e tokens depth := by
  intro d ts rest hts hcount hstops
  refine ⟨x.count, by simp at hcount; omega, ?_⟩
  rw [readerAt_succ x (unary x d) hn]
  exact (h d ts rest hts hcount hstops).map rfl

theorem ChainsAt.reads (h : ChainsAt x n e tokens depth) : ReadsAt x (n + 1) e tokens depth := by
  intro d ts rest hts hcount hstops
  obtain ⟨fuel, -, hreads⟩ := h d ts rest hts hcount (hstops.mono (by omega))
  rwa [chainFrom_of_stops hstops] at hreads

theorem ReadsAt.range (h : ReadsAt x 2 e tokens depth) : ReadsAt x 3 e tokens depth := by
  intro d ts rest hts hcount hstops
  refine (h d ts rest hts hcount (hstops.mono (by omega))).map ?_
  cases rest with
  | nil => rfl
  | cons t rest =>
    obtain ⟨token, position⟩ := t
    have hjoins : 3 < joins token := hstops _ rfl
    cases token <;> first | rfl | (simp only [joins] at hjoins; omega)

/-- What is read in a place is read in every place that is open to more. -/
theorem ReadsAt.mono (h : ReadsAt x n e tokens depth) (hle : n ≤ n') : ReadsAt x n' e tokens depth := by
  induction n', hle using Nat.le_induction with
  | base => exact h
  | succ n' _ ih =>
    -- The range does not group; every other row is a chain.
    by_cases hrow : n' + 1 = 3
    · obtain rfl : n' = 2 := by omega
      exact ih.range
    · exact (ih.chains hrow).reads

theorem ReadsAt.whole (h : ReadsAt x 7 e tokens depth) : ReadsWhole x e tokens depth := by
  intro d ts rest fuel hts hcount _ hstops
  have hread := h d ts rest hts hcount (hstops.mono (by omega))
  rw [← condition_eq] at hread
  cases fuel with
  | zero => exact hread
  | succ fuel =>
    refine hread.map ?_
    cases rest with
    | nil => rfl
    | cons t rest =>
      obtain ⟨token, position⟩ := t
      have hjoins : 8 < joins token := hstops _ rfl
      cases token <;> first | rfl | (simp only [joins] at hjoins; omega)

/-- An expression in parentheses is read where an operand may stand. -/
theorem ReadsWhole.group (h : ReadsWhole x e tokens depth) :
    ReadsAt x 0 e (.lparen :: (tokens ++ [.rparen])) (depth + 1) := by
  intro d ts rest hts hcount _
  obtain ⟨position, inner, rfl, hinner⟩ := placed_cons hts
  obtain ⟨ts, last, behind, rfl, hbody, hbehind⟩ := placed_append_cons hinner
  obtain rfl := List.map_eq_nil_iff.1 hbehind
  simp only [List.cons_append, List.append_assoc, List.nil_append, List.length_append,
    List.length_cons] at hcount ⊢
  change Within d (depth + 1) (unary x d _) _
  rw [unary_eq]
  refine Within.nested (fun d => ?_) position
  have hstops : Stops 8 (⟨.rparen, last⟩ :: rest) := stops_cons (by simp [joins])
  refine (h d ts (⟨.rparen, last⟩ :: rest) x.count hbody ?_ (by omega) hstops).map rfl
  simp only [List.length_append, List.length_cons]
  omega

/-- The tokens of a tree are read as the tree wherever they may stand. -/
structure Reads (x : Extent) (e : Expr) : Prop where
  whole : ReadsWhole x e e.tokens e.depth
  place : ∀ n ≤ 7, ReadsAt x n e (e.tokensAt n) (e.depthAt n)
  chains : ∀ n < 7, n + 1 ≠ 3 → ChainsAt x n e (e.tokensAt (n + 1)) (e.depthAt (n + 1))

/-- A tree is read everywhere when it is read without parentheses in its own row and in the looser
ones. -/
theorem Reads.of_own (hwhole : ReadsWhole x e e.tokens e.depth)
    (hplace : e.looseness ≤ 7 → ReadsAt x e.looseness e e.tokens e.depth)
    (hchains : ∀ n, e.looseness = n + 1 → n < 7 → n + 1 ≠ 3 → ChainsAt x n e e.tokens e.depth) :
    Reads x e := by
  have hwrapped : ∀ n m, n < e.looseness → ReadsAt x m e (e.tokensAt n) (e.depthAt n) := by
    intro n m hn
    rw [Expr.tokensAt_of_lt hn, Expr.depthAt_of_lt hn]
    exact hwhole.group.mono (by omega)
  constructor
  case whole => exact hwhole
  case place =>
    intro n hn
    by_cases hrow : n < e.looseness
    · exact hwrapped n n hrow
    · rw [Expr.tokensAt_of_le (by omega), Expr.depthAt_of_le (by omega)]
      exact (hplace (by omega)).mono (by omega)
  case chains =>
    intro n hn hrow
    by_cases hlooser : n + 1 < e.looseness
    · exact (hwrapped (n + 1) n hlooser).chains hrow
    rw [Expr.tokensAt_of_le (by omega), Expr.depthAt_of_le (by omega)]
    -- In its own row the tree is a chain itself, whose last link is not the end.
    by_cases hown : e.looseness = n + 1
    · exact hchains n hown hn hrow
    · exact ((hplace (by omega)).mono (by omega)).chains hrow

end Places

/-! ### Each kind of tree -/

section Trees

variable {x : Extent}

/-- What stands in the tightest row is read everywhere when it is read as an operand. -/
theorem Reads.of_operand {e : Expr} (htight : e.looseness = 0)
    (h : ∀ d ts rest, ts.map (·.token) = e.tokens → (ts ++ rest).length ≤ x.count → Stops 0 rest →
      Within d e.depth (operand x (deeper x d) (ts ++ rest)) (.ok (e, rest))) : Reads x e := by
  have hplace : ReadsAt x 0 e e.tokens e.depth := by
    intro d ts rest hts hcount hstops
    change Within d e.depth (unary x d (ts ++ rest)) _
    rw [unary_eq]
    exact h d ts rest hts hcount hstops
  refine .of_own (hplace.mono (by omega)).whole (fun _ => by rw [htight]; exact hplace) ?_
  intro n hn
  omega

theorem number_text {n : Int64} (h : 0 ≤ n.toInt) (position : Nat) :
    number (Value.int n).text position = .ok (.literal (.int n)) := by
  rw [number, Expr.int_text h, String.toList_ofList, Text.digits?_toDigits, Option.bind_some,
    Int.toNat_of_nonneg h, Text.fit64_toInt]

theorem reads_literal {v : Value} (h : ∀ n, v = .int n → 0 ≤ n.toInt) : Reads x (.literal v) := by
  refine .of_operand rfl fun d ts rest hts _ _ => ?_
  obtain ⟨⟨_, position⟩, rfl, rfl⟩ := List.map_eq_singleton_iff.1 hts
  have hread : operand x (deeper x d) ([⟨v.token, position⟩] ++ rest) = .ok (.literal v, rest) := by
    cases v with
    | null => rfl
    | bool b => cases b <;> rfl
    | str s => rfl
    | int n =>
      change (do .ok (← number (Value.int n).text position, rest)) = _
      rw [number_text (h n rfl)]
      rfl
  rw [hread]
  exact .refl _

section Names

variable {name : String} (h : Expr.IsName name) (deeper : Nat → Except ExprError (Reader Expr))
  (position : Nat)
include h

theorem operand_var {rest : List Token.Placed} (hstops : Stops 0 rest) :
    operand x deeper (⟨.ident name, position⟩ :: rest) = .ok (.var name, rest) := by
  change primary x (fun p => (deeper p).map (expression x)) (⟨.ident name, position⟩ :: rest) = _
  unfold primary
  dsimp only
  rw [h.free]
  cases rest with
  | nil => rfl
  | cons t rest =>
    obtain ⟨token, _⟩ := t
    have hjoins : 0 < joins token := hstops _ rfl
    cases token <;> first | rfl | exact absurd hjoins (by simp [joins])

theorem operand_call (opened : Nat) (ts : List Token.Placed) :
    operand x deeper (⟨.ident name, position⟩ :: ⟨.lparen, opened⟩ :: ts) =
      (deeper position).map (expression x) >>= fun item =>
        arguments x .rparen .argumentsEnd item ts >>= fun p => .ok (.call name p.1, p.2) := by
  change primary x (fun p => (deeper p).map (expression x))
    (⟨.ident name, position⟩ :: ⟨.lparen, opened⟩ :: ts) = _
  unfold primary
  dsimp only
  rw [h.free]

end Names

theorem reads_var {name : String} (h : Expr.IsName name) : Reads x (.var name) := by
  refine .of_operand rfl fun d ts rest hts _ hstops => ?_
  obtain ⟨⟨_, position⟩, rfl, rfl⟩ := List.map_eq_singleton_iff.1 hts
  rw [List.singleton_append, operand_var h (deeper x d) position hstops]
  exact .refl _

theorem reads_unary {op : UnaryOp} {e : Expr} (h : Reads x e) : Reads x (.unary op e) := by
  refine .of_operand rfl fun d ts rest hts hcount hstops => ?_
  obtain ⟨position, ts, rfl, hbody⟩ := placed_cons hts
  have hop : unaryOp? op.token = some op := by cases op <;> rfl
  rw [List.cons_append, operand]
  dsimp only
  rw [hop]
  refine Within.deeper (fun d => ?_) position
  exact (h.place 0 (by omega) d ts rest hbody (by simp at hcount ⊢; omega) hstops).map rfl

theorem reads_range {a b : Expr} (ha : Reads x a) (hb : Reads x b) : Reads x (.range a b) := by
  have hplace : ReadsAt x 3 (.range a b) (Expr.range a b).tokens (Expr.range a b).depth := by
    intro d ts rest hts hcount hstops
    obtain ⟨tsa, position, tsb, rfl, htsa, htsb⟩ := placed_append_cons hts
    rw [List.append_assoc]
    have hdots : Stops 2 (⟨.dotDot, position⟩ :: tsb ++ rest) := stops_cons (by simp [joins])
    refine (ha.place 2 (by omega) d tsa _ htsa (by simpa using hcount) hdots).bind ?_
    have hcountb : (tsb ++ rest).length ≤ x.count := by simp at hcount ⊢; omega
    exact (hb.place 2 (by omega) d tsb rest htsb hcountb (hstops.mono (by omega))).map rfl
  refine .of_own (hplace.mono (by omega)).whole (fun _ => hplace) ?_
  intro n hn _ hrow
  exact absurd hn (by change ¬ 3 = n + 1; omega)

theorem reads_binary {op : BinaryOp} {a b : Expr} (ha : Reads x a) (hb : Reads x b) :
    Reads x (.binary op a b) := by
  obtain ⟨n, hn, hlt, hrow⟩ : ∃ n, op.looseness = n + 1 ∧ n < 7 ∧ n + 1 ≠ 3 := by
    cases op <;> exact ⟨_, rfl, by decide, by decide⟩
  have hlevel : levelOf (n + 1) op.token = some op := by rw [← hn, levelOf_token]
  have hchain : ChainsAt x n (.binary op a b) (Expr.binary op a b).tokens (Expr.binary op a b).depth := by
    intro d ts rest hts hcount hstops
    rw [Expr.tokens, hn] at hts
    rw [Expr.depth, hn]
    obtain ⟨tsa, position, tsb, rfl, htsa, htsb⟩ := placed_append_cons hts
    rw [List.append_assoc]
    obtain ⟨fuel, hfuel, hleft⟩ := ha.chains n hlt hrow d tsa (⟨op.token, position⟩ :: tsb ++ rest) htsa
      (by simpa using hcount) (stops_cons (by rw [joins_token]; omega))
    -- The fuel left covers the operator, so that one more link is taken.
    cases fuel with
    | zero => cases hfuel
    | succ fuel =>
      refine ⟨fuel, by simp at hfuel; omega, hleft.trans ?_⟩
      rw [List.cons_append, chainFrom, hlevel]
      exact (hb.place n (by omega) d tsb rest htsb (by simp at hcount ⊢; omega) hstops).map rfl
  have hplace := hchain.reads
  refine .of_own (hplace.mono (by omega)).whole (fun _ => ?_) ?_
  · change ReadsAt x op.looseness _ _ _
    rw [hn]
    exact hplace
  · intro n' hn' _ _
    obtain rfl : n = n' := by
      have : op.looseness = n' + 1 := hn'
      omega
    exact hchain

theorem reads_conditional {c a b : Expr} (hc : Reads x c) (ha : Reads x a) (hb : Reads x b) :
    Reads x (.conditional c a b) := by
  refine .of_own ?_ (fun hle => absurd hle (by change ¬ 8 ≤ 7; omega)) fun n hn hlt _ => ?_
  · intro d ts rest fuel hts hcount hfuel hstops
    obtain ⟨tsc, question, branches, rfl, htsc, hbranches⟩ := placed_append_cons hts
    obtain ⟨tsa, colon, tsb, rfl, htsa, htsb⟩ := placed_append_cons hbranches
    simp only [List.length_append, List.length_cons] at hcount hfuel
    cases fuel with
    | zero => omega
    | succ fuel =>
      rw [List.append_assoc]
      refine (hc.place 7 (by omega) d tsc _ htsc ?_ (stops_cons (by simp [joins]))).bind ?_
      · simp; omega
      · change Within d (max a.depth b.depth)
          (conditionalFrom x (unary x d) fuel (tsa ++ ⟨.colon, colon⟩ :: tsb ++ rest) >>= _) _
        rw [List.append_assoc]
        refine (ha.whole d tsa _ fuel htsa ?_ (by omega) (stops_cons (by simp [joins]))).bind ?_
        · simp; omega
        · refine (hb.whole d tsb rest fuel htsb ?_ (by omega) hstops).map rfl
          simp; omega
  · have : 8 = n + 1 := hn
    omega

/-- No expression begins with what ends a list. -/
theorem tokens_head : ∀ e : Expr, ∃ t ts, e.tokens = t :: ts ∧ t ≠ .rparen ∧ t ≠ .rbracket
  | .literal v => by cases v <;> exact ⟨_, _, rfl, by simp [Value.token]⟩
  | .var _ | .call _ _ | .list _ => ⟨_, _, rfl, by simp⟩
  | .unary op _ => ⟨_, _, rfl, by cases op <;> simp [UnaryOp.token]⟩
  | .binary _ a _ | .conditional a _ _ | .range a _ => by
    obtain ⟨t, ts, ha, ht⟩ := tokens_head a
    rw [Expr.tokens, Token.group, ha]
    split
    · exact ⟨_, _, rfl, by simp⟩
    · exact ⟨_, _, rfl, ht⟩

/-- One item after another is read up to the closing mark: no item goes on behind a comma or a closing
mark. -/
theorem argumentsFrom_reads {close : Token} (hclose : close = .rparen ∨ close = .rbracket)
    (expected : Expectation) {es : List Expr} (hne : es ≠ []) (h : ∀ e ∈ es, Reads x e) {d : Nat}
    {ts rest : List Token.Placed} {last fuel : Nat} (hts : ts.map (·.token) = Expr.itemTokens es)
    (hcount : (ts ++ ⟨close, last⟩ :: rest).length ≤ x.count) (hfuel : ts.length < fuel) :
    Within d (Expr.itemDepth es)
      (argumentsFrom x close expected (expression x (unary x d)) fuel (ts ++ ⟨close, last⟩ :: rest))
      (.ok (es, rest)) := by
  induction es generalizing ts fuel with
  | nil => exact absurd rfl hne
  | cons e es ih =>
    have he := h e (by simp)
    cases fuel with
    | zero => omega
    | succ fuel =>
      cases es with
      | nil =>
        have htse : ts.map (·.token) = e.tokens := by simpa [Expr.itemTokens] using hts
        rw [Expr.itemDepth, Expr.itemDepth, Nat.max_zero]
        refine (he.whole d ts (⟨close, last⟩ :: rest) x.count htse hcount ?_ (stops_cons ?_)).map ?_
        · simp at hcount; omega
        · obtain rfl | rfl := hclose <;> simp [joins]
        · obtain rfl | rfl := hclose <;> rfl
      | cons e' es =>
        obtain ⟨tse, comma, behind, rfl, htse, hbehind⟩ := placed_append_cons hts
        simp only [List.append_assoc, List.cons_append, List.length_append, List.length_cons]
          at hcount hfuel ⊢
        refine (he.whole d tse _ x.count htse ?_ (by omega) (stops_cons (by simp [joins]))).bind ?_
        · simp; omega
        · exact (ih (by simp) (fun a ha => h a (by simp [ha])) hbehind (by simp; omega) (by omega)).map rfl

/-- Items between commas are read up to the mark that closes them, also when there are none. -/
theorem arguments_reads {close : Token} (hclose : close = .rparen ∨ close = .rbracket)
    (expected : Expectation) {es : List Expr} (h : ∀ e ∈ es, Reads x e) (d : Nat)
    {ts rest : List Token.Placed} {last : Nat} (hts : ts.map (·.token) = Expr.itemTokens es)
    (hcount : (ts ++ ⟨close, last⟩ :: rest).length ≤ x.count) :
    Within d (Expr.itemDepth es)
      (arguments x close expected (expression x (unary x d)) (ts ++ ⟨close, last⟩ :: rest))
      (.ok (es, rest)) := by
  cases es with
  | nil =>
    obtain rfl := List.map_eq_nil_iff.1 hts
    rw [List.nil_append, arguments, if_pos rfl]
    exact .refl _
  | cons e es =>
    obtain ⟨t, tokens, he, hparen, hbracket⟩ := tokens_head e
    have hts' := hts
    rw [Expr.itemTokens, he] at hts'
    obtain ⟨position, ts, rfl, -⟩ := placed_cons hts'
    have hopen : t ≠ close := by obtain rfl | rfl := hclose <;> assumption
    rw [List.cons_append, arguments, if_neg hopen, ← List.cons_append]
    refine argumentsFrom_reads hclose expected (by simp) h hts hcount ?_
    simp at hcount ⊢
    omega

theorem reads_call {name : String} (hname : Expr.IsName name) {es : List Expr}
    (h : ∀ e ∈ es, Reads x e) : Reads x (.call name es) := by
  refine .of_operand rfl fun d ts rest hts hcount _ => ?_
  obtain ⟨position, inner, rfl, hinner⟩ := placed_cons hts
  obtain ⟨_, body, rfl, hbody⟩ := placed_cons hinner
  obtain ⟨ts, last, behind, rfl, hitems, hbehind⟩ := placed_append_cons hbody
  obtain rfl := List.map_eq_nil_iff.1 hbehind
  simp only [List.cons_append, List.append_assoc, List.nil_append, List.length_append,
    List.length_cons] at hcount ⊢
  rw [operand_call hname]
  refine Within.nested (fun d => ?_) position
  refine (arguments_reads (.inl rfl) .argumentsEnd h d hitems ?_).map rfl
  simp; omega

theorem reads_list {es : List Expr} (h : ∀ e ∈ es, Reads x e) : Reads x (.list es) := by
  refine .of_operand rfl fun d ts rest hts hcount _ => ?_
  obtain ⟨position, body, rfl, hbody⟩ := placed_cons hts
  obtain ⟨ts, last, behind, rfl, hitems, hbehind⟩ := placed_append_cons hbody
  obtain rfl := List.map_eq_nil_iff.1 hbehind
  simp only [List.cons_append, List.append_assoc, List.nil_append, List.length_append,
    List.length_cons] at hcount ⊢
  refine Within.nested (fun d => ?_) position
  refine (arguments_reads (.inr rfl) .listEnd h d hitems ?_).map rfl
  simp; omega

end Trees

/-- A tree that can be written is read wherever it may stand, by induction on the tree. -/
theorem reads (x : Extent) {e : Expr} (h : e.Printable) : Reads x e := by
  induction h with
  | literal hv => exact reads_literal hv
  | var hname => exact reads_var hname
  | unary _ ih => exact reads_unary ih
  | binary _ _ iha ihb => exact reads_binary iha ihb
  | conditional _ _ _ ihc iha ihb => exact reads_conditional ihc iha ihb
  | call hname _ ih => exact reads_call hname ih
  | range _ _ iha ihb => exact reads_range iha ihb
  | list _ ih => exact reads_list ih

end Parser

namespace Expr

open ShardedSql.Parser (Within maxDepth reads Stops)

theorem parse_written {e : Expr} (h : e.Printable) {text : String} (hw : e.WrittenAs text)
    (base : Nat) : Within maxDepth e.depth (Expr.parse text base) (.ok e) := by
  obtain ⟨gap, cs, hgap, hwritten, htext⟩ := hw
  obtain ⟨s, hs, htokens⟩ := Token.scan_written e.tokens_ne_nil hgap hwritten htext base
  rw [Expr.parse, hs]
  have hread := (reads ⟨s.stop, s.tokens.length⟩ h).whole maxDepth s.tokens [] s.tokens.length htokens
    (by simp) le_rfl (by simp [Stops])
  rw [List.append_nil] at hread
  exact hread.map rfl

/-- Every tree that can be written is written as it is printed; and however it is written, and at
every offset, it is read back as itself when its parentheses, calls, lists and unary operators nest
no deeper than the limit, and refused for its depth otherwise. -/
theorem parse_inverts_print {e : Expr} (h : e.Printable) :
    e.WrittenAs e.print ∧ ∀ text base, e.WrittenAs text →
      (e.depth ≤ maxDepth → Expr.parse text base = .ok e) ∧
        (maxDepth < e.depth →
          ∃ position, Expr.parse text base = .error (.tooDeep maxDepth position)) :=
  ⟨h.writtenAs, fun _ base hw => ⟨(parse_written h hw base).reads, (parse_written h hw base).refuses⟩⟩

/-- A tree that uses most rows of the table, with a quote and a letter of two bytes. -/
def tangled : Expr :=
  .conditional
    (.binary .or
      (.range (.literal (.int 1))
        (.unary .negate
          (.binary .sub (.var "n") (.binary .sub (.literal (.int 2)) (.literal (.int 3))))))
      (.literal (.bool true)))
    (.call "f" [.literal (.str "it's \u00e9"), .list []])
    (.conditional (.literal .null) (.var "x") (.literal (.int Int64.maxValue)))

theorem printable_tangled : tangled.Printable := by
  have hdifference : Printable (.binary .sub (.literal (.int 2)) (.literal (.int 3))) :=
    .binary (.int (by decide)) (.int (by decide))
  have htest : Printable (.binary .or
      (.range (.literal (.int 1)) (.unary .negate
        (.binary .sub (.var "n") (.binary .sub (.literal (.int 2)) (.literal (.int 3))))))
      (.literal (.bool true))) :=
    .binary (.range (.int (by decide)) (.unary (.binary (.var (.of_char rfl rfl)) hdifference)))
      (.literal fun _ h => nomatch h)
  have hcall : Printable (.call "f" [.literal (.str "it's \u00e9"), .list []]) := by
    refine .call (.of_char rfl rfl) fun e he => ?_
    simp only [List.mem_cons, List.not_mem_nil, or_false] at he
    obtain rfl | rfl := he
    · exact .str _
    · exact .list (by simp)
  exact .conditional htest hcall
    (.conditional (.literal fun _ h => nomatch h) (.var (.of_char rfl rfl)) (.int (by decide)))

def negations : Nat → Expr
  | 0 => .literal (.int 1)
  | n + 1 => .unary .negate (negations n)

theorem printable_negations (n : Nat) : (negations n).Printable := by
  induction n with
  | zero => exact .int (by decide)
  | succ n ih => exact .unary ih

/-- The tangled tree is read back, and 33 negations are too many. -/
theorem parse_inverts_print_tangled :
    tangled.print = "1 .. - ( n - ( 2 - 3 ) ) || true ? f ( 'it\\'s \u00e9' , [ ] ) : " ++
        "null ? x : 9223372036854775807" ∧
      Expr.parse tangled.print 7 = .ok tangled ∧
      ∃ position, Expr.parse (negations 33).print 0 = .error (.tooDeep 32 position) := by
  have hread := parse_inverts_print printable_tangled
  have hdeep := parse_inverts_print (printable_negations 33)
  exact ⟨by decide, (hread.2 _ 7 hread.1).1 (by decide), (hdeep.2 _ 0 hdeep.1).2 (by decide)⟩

end Expr

end ShardedSql
