import ShardedSql.Proofs.Faults

/-! How deep the trees nest that are read. The reader counts the unary operators, the calls and the lists around a
place, and the parentheses, and goes no deeper than the limit; it does not count conditionals, and of these it reads
as many as there are question marks. -/

namespace ShardedSql

namespace Expr

/-! ### Paths -/

def children : Expr → List Expr
  | .literal _ | .var _ => []
  | .unary _ e => [e]
  | .binary _ a b | .range a b => [a, b]
  | .conditional c a b => [c, a, b]
  | .call _ es | .list es => es

/-- The nodes from the root to a leaf. -/
inductive Path : Expr → List Expr → Prop
  | leaf {e : Expr} (h : e.children = []) : Path e [e]
  | step {e c : Expr} {path : List Expr} (h : c ∈ e.children) (hpath : Path c path) : Path e (e :: path)

/-- What the reader counts. -/
def isCounted : Expr → Bool
  | .unary _ _ | .call _ _ | .list _ => true
  | _ => false

def isConditional : Expr → Bool
  | .conditional _ _ _ => true
  | _ => false

/-- The constructs that nest. -/
def nests (e : Expr) : Bool := e.isCounted || e.isConditional

/-- No path goes through more constructs than these. -/
structure NestsWithin (e : Expr) (counted conditionals : Nat) : Prop where
  counted : ∀ path, e.Path path → path.countP isCounted ≤ counted
  conditionals : ∀ path, e.Path path → path.countP isConditional ≤ conditionals

section NestsWithin

variable {e : Expr} {d d' q q' : Nat}

theorem NestsWithin.mono (h : e.NestsWithin d q) (hd : d ≤ d') (hq : q ≤ q') : e.NestsWithin d' q' :=
  ⟨fun path hpath => (h.counted path hpath).trans hd, fun path hpath => (h.conditionals path hpath).trans hq⟩

/-- A path goes through the root and on through a child. -/
theorem nestsWithin_of_children (h : ∀ c ∈ e.children, c.NestsWithin d q) :
    e.NestsWithin (d + if e.isCounted then 1 else 0) (q + if e.isConditional then 1 else 0) := by
  constructor
  · intro path hpath
    cases hpath with
    | leaf => rw [List.countP_singleton]; omega
    | step hc hpath =>
      rw [List.countP_cons]
      exact Nat.add_le_add_right ((h _ hc).counted _ hpath) _
  · intro path hpath
    cases hpath with
    | leaf => rw [List.countP_singleton]; omega
    | step hc hpath =>
      rw [List.countP_cons]
      exact Nat.add_le_add_right ((h _ hc).conditionals _ hpath) _

theorem nestsWithin_leaf (hchildren : e.children = []) (hcounted : e.isCounted = false)
    (hconditional : e.isConditional = false) : e.NestsWithin d q := by
  have h := nestsWithin_of_children (e := e) (d := 0) (q := 0) (by simp [hchildren])
  rw [hcounted, hconditional] at h
  exact h.mono (Nat.zero_le d) (Nat.zero_le q)

theorem nests_countP_le (path : List Expr) :
    path.countP nests ≤ path.countP isCounted + path.countP isConditional := by
  induction path with
  | nil => exact le_rfl
  | cons e path ih =>
    rw [List.countP_cons, List.countP_cons, List.countP_cons, nests]
    cases e.isCounted <;> cases e.isConditional <;> simp <;> omega

end NestsWithin

end Expr

namespace Parser

open ShardedSql.Expr (NestsWithin nestsWithin_of_children nestsWithin_leaf)

/-! ### Readers -/

def questions (ts : List Token.Placed) : Nat := ts.countP (·.token = .question)

theorem questions_le_cons (t : Token.Placed) (ts : List Token.Placed) : questions ts ≤ questions (t :: ts) := by
  rw [questions, questions, List.countP_cons]
  exact Nat.le_add_right _ _

theorem questions_cons_question {t : Token.Placed} (h : t.token = .question) (ts : List Token.Placed) :
    questions (t :: ts) = questions ts + 1 :=
  List.countP_cons_of_pos (by simpa using h)

/-- Between these places a tree stands that nests within the depth, and its conditionals within the question marks
there. -/
structure Between (d : Nat) (ts : List Token.Placed) (e : Expr) (rest : List Token.Placed) : Prop where
  le : questions rest ≤ questions ts
  nests : e.NestsWithin d (questions ts - questions rest)

section Between

variable {d d' : Nat} {ts ts' rest rest' : List Token.Placed} {a b e : Expr}

theorem Between.widen (h : Between d ts e rest) (hd : d ≤ d') (hts : questions ts ≤ questions ts')
    (hrest : questions rest' ≤ questions rest) : Between d' ts' e rest' :=
  ⟨hrest.trans (h.le.trans hts), h.nests.mono hd (by omega)⟩

theorem between_leaf (hchildren : e.children = []) (hcounted : e.isCounted = false)
    (hconditional : e.isConditional = false) (h : questions rest ≤ questions ts) : Between d ts e rest :=
  ⟨h, nestsWithin_leaf hchildren hcounted hconditional⟩

theorem Between.binary (ha : Between d ts a rest) (hb : Between d ts b rest) (op : BinaryOp) :
    Between d ts (.binary op a b) rest :=
  ⟨ha.le, nestsWithin_of_children (e := .binary op a b) (by simp [Expr.children, ha.nests, hb.nests])⟩

theorem Between.range (ha : Between d ts a rest) (hb : Between d ts b rest) : Between d ts (.range a b) rest :=
  ⟨ha.le, nestsWithin_of_children (e := .range a b) (by simp [Expr.children, ha.nests, hb.nests])⟩

/-- A construct that is counted uses up a level. -/
theorem between_counted (hcounted : e.isCounted = true) (hle : questions rest ≤ questions ts)
    (h : ∀ c ∈ e.children, Between d ts c rest) : Between (d + 1) ts e rest := by
  have hconditional : e.isConditional = false := by
    cases e <;> first | rfl | cases hcounted
  have hwhole := nestsWithin_of_children fun c hc => (h c hc).nests
  rw [hcounted, hconditional] at hwhole
  exact ⟨hle, hwhole⟩

end Between

section Readers

variable {x : Extent} {d : Nat} {R : Reader Expr}

def Shallow (d : Nat) (R : Reader Expr) : Prop := ∀ ts e rest, R ts = .ok (e, rest) → Between d ts e rest

theorem expect_questions {token : Token} {expected : Expectation} {ts rest : List Token.Placed} {u : Unit}
    (h : expect x token expected ts = .ok (u, rest)) : questions rest ≤ questions ts := by
  cases ts with
  | nil => cases h
  | cons t ts =>
    rw [expect] at h
    split at h
    · cases h
      exact questions_le_cons t _
    · cases h

theorem chainFrom_shallow (level : Level) (h : Shallow d R) (fuel : Nat) {left e : Expr}
    {start ts rest : List Token.Placed} (hleft : Between d start left ts)
    (hrun : chainFrom level R fuel left ts = .ok (e, rest)) : Between d start e rest := by
  induction fuel generalizing left ts with
  | zero =>
    cases hrun
    exact hleft
  | succ fuel ih =>
    rw [chainFrom_succ] at hrun
    obtain hnone | ⟨t, behind, op, rfl, hop⟩ := head_cases level ts
    · rw [branch_leave hnone] at hrun
      cases hrun
      exact hleft
    · rw [branch_take hop] at hrun
      obtain ⟨⟨right, middle⟩, hright, hrun⟩ := bind_eq_ok.1 hrun
      have hmark := questions_le_cons t behind
      have hbetween := h _ _ _ hright
      exact ih ((hleft.widen le_rfl le_rfl (hbetween.le.trans hmark)).binary
        (hbetween.widen le_rfl (hmark.trans hleft.le) le_rfl) op) hrun

theorem chain_shallow (level : Level) (h : Shallow d R) : Shallow d (chain x level R) := by
  intro ts e rest hrun
  obtain ⟨⟨left, middle⟩, hleft, hrun⟩ := bind_eq_ok.1 hrun
  exact chainFrom_shallow level h x.count (h _ _ _ hleft) hrun

theorem range_shallow (h : Shallow d R) : Shallow d (range R) := by
  intro ts e rest hrun
  rw [range_eq] at hrun
  obtain ⟨⟨first, middle⟩, hfirst, hrun⟩ := bind_eq_ok.1 hrun
  obtain hnone | ⟨t, behind, _, rfl, hdots⟩ := head_cases (only .dotDot) middle
  · rw [branch_leave hnone] at hrun
    cases hrun
    exact h _ _ _ hfirst
  · rw [branch_take hdots] at hrun
    obtain ⟨⟨last, rest'⟩, hlast, hrun⟩ := bind_eq_ok.1 hrun
    cases hrun
    have hmark := questions_le_cons t behind
    have hbefore := h _ _ _ hfirst
    have hbehind := h _ _ _ hlast
    exact (hbefore.widen le_rfl le_rfl (hbehind.le.trans hmark)).range
      (hbehind.widen le_rfl (hmark.trans hbefore.le) le_rfl)

theorem condition_shallow (h : Shallow d R) : Shallow d (condition x R) :=
  chain_shallow _ (chain_shallow _ (chain_shallow _ (chain_shallow _ (range_shallow
    (chain_shallow _ (chain_shallow _ h))))))

/-- A conditional takes the question mark that it is counted for. -/
theorem conditionalFrom_shallow (h : Shallow d R) (fuel : Nat) : Shallow d (conditionalFrom x R fuel) := by
  induction fuel with
  | zero => exact condition_shallow h
  | succ fuel ih =>
    intro ts e rest hrun
    rw [conditionalFrom_succ] at hrun
    obtain ⟨⟨test, middle⟩, htest, hrun⟩ := bind_eq_ok.1 hrun
    obtain hnone | ⟨t, behind, _, rfl, ht⟩ := head_cases (only .question) middle
    · rw [branch_leave hnone] at hrun
      cases hrun
      exact condition_shallow h _ _ _ htest
    · rw [branch_take ht] at hrun
      obtain ⟨⟨yes, before⟩, hyes, hrun⟩ := bind_eq_ok.1 hrun
      obtain ⟨⟨_, after⟩, hcolon, hrun⟩ := bind_eq_ok.1 hrun
      obtain ⟨⟨no, rest'⟩, hno, hrun⟩ := bind_eq_ok.1 hrun
      cases hrun
      have hmark := questions_cons_question (eq_of_only ht) behind
      have htest : Between d ts test (t :: behind) := condition_shallow h _ _ _ htest
      have hyes : Between d behind yes before := ih _ _ _ hyes
      have hcolon : questions after ≤ questions before := expect_questions hcolon
      have hno : Between d after no rest' := ih _ _ _ hno
      have hle := htest.le
      have hle' := hyes.le
      have hle'' := hno.le
      have hparts : ∀ c ∈ [test, yes, no], c.NestsWithin d (questions ts - questions rest' - 1) := by
        simp only [List.forall_mem_cons, List.not_mem_nil, false_imp_iff, implies_true, and_true]
        exact ⟨htest.nests.mono le_rfl (by omega), hyes.nests.mono le_rfl (by omega),
          hno.nests.mono le_rfl (by omega)⟩
      have hwhole := nestsWithin_of_children (e := .conditional test yes no) hparts
      have hbetween : Between d ts (.conditional test yes no) rest' :=
        ⟨by omega, hwhole.mono le_rfl (by simp only [Expr.isConditional, if_true]; omega)⟩
      exact hbetween

theorem expression_shallow (h : Shallow d R) : Shallow d (expression x R) := conditionalFrom_shallow h x.count

theorem argumentsFrom_shallow {close : Token} {expected : Expectation} (h : Shallow d R) {fuel : Nat}
    {ts rest : List Token.Placed} {es : List Expr}
    (hrun : argumentsFrom x close expected R fuel ts = .ok (es, rest)) :
    questions rest ≤ questions ts ∧ ∀ e ∈ es, Between d ts e rest := by
  induction fuel generalizing ts es with
  | zero => cases hrun
  | succ fuel ih =>
    rw [argumentsFrom_succ] at hrun
    obtain ⟨⟨e, middle⟩, he, hrun⟩ := bind_eq_ok.1 hrun
    have he := h _ _ _ he
    obtain hnone | ⟨t, behind, _, rfl, hcomma⟩ := head_cases (only .comma) middle
    · rw [branch_leave hnone] at hrun
      obtain ⟨⟨_, rest'⟩, hclose, hrun⟩ := bind_eq_ok.1 hrun
      cases hrun
      have hclose := expect_questions hclose
      exact ⟨hclose.trans he.le, List.forall_mem_singleton.2 (he.widen le_rfl le_rfl hclose)⟩
    · rw [branch_take hcomma] at hrun
      obtain ⟨⟨es, rest'⟩, hes, hrun⟩ := bind_eq_ok.1 hrun
      cases hrun
      have hmark := questions_le_cons t behind
      obtain ⟨hle, hes⟩ := ih hes
      refine ⟨hle.trans (hmark.trans he.le), List.forall_mem_cons.2 ⟨?_, fun e' he' => ?_⟩⟩
      · exact he.widen le_rfl le_rfl (hle.trans hmark)
      · exact (hes e' he').widen le_rfl (hmark.trans he.le) le_rfl

theorem arguments_shallow {close : Token} {expected : Expectation} (h : Shallow d R)
    {ts rest : List Token.Placed} {es : List Expr} (hrun : arguments x close expected R ts = .ok (es, rest)) :
    questions rest ≤ questions ts ∧ ∀ e ∈ es, Between d ts e rest := by
  rw [arguments_eq] at hrun
  obtain hnone | ⟨t, behind, _, rfl, hclose⟩ := head_cases (only close) ts
  · rw [branch_leave hnone] at hrun
    exact argumentsFrom_shallow h hrun
  · rw [branch_take hclose] at hrun
    cases hrun
    exact ⟨questions_le_cons t _, by simp⟩

/-- A reader one level deeper is there only when a level is left. -/
def DeeperShallow (d : Nat) (nested : Nat → Except ExprError (Reader Expr)) : Prop :=
  ∀ position R, nested position = .ok R → ∃ d', d = d' + 1 ∧ Shallow d' R

variable {nested deeper : Nat → Except ExprError (Reader Expr)}

theorem DeeperShallow.map (h : DeeperShallow d deeper) :
    DeeperShallow d fun position => (deeper position).map (expression x) := by
  intro position R hR
  obtain ⟨R', hR', rfl⟩ := map_eq_ok.1 hR
  obtain ⟨d', hd, hshallow⟩ := h position R' hR'
  exact ⟨d', hd, expression_shallow hshallow⟩

/-- The items of a call or a list are read one level deeper. -/
theorem items_shallow (h : DeeperShallow d nested) {position : Nat} {close : Token} {expected : Expectation}
    {e : Expr} {ts rest : List Token.Placed} (hcounted : e.isCounted = true)
    (hrun : (nested position >>= fun item => arguments x close expected item ts) = .ok (e.children, rest)) :
    Between d ts e rest := by
  obtain ⟨item, hitem, hrun⟩ := bind_eq_ok.1 hrun
  obtain ⟨d', rfl, hshallow⟩ := h position item hitem
  obtain ⟨hle, hitems⟩ := arguments_shallow hshallow hrun
  exact between_counted hcounted hle hitems

theorem primary_shallow (h : DeeperShallow d nested) : Shallow d (primary x nested) := by
  intro ts e rest hrun
  obtain _ | ⟨⟨token, position⟩, ts⟩ := ts
  · cases hrun
  have hmark := questions_le_cons ⟨token, position⟩ ts
  cases token with
  | number digits =>
    obtain ⟨e, he, hrun⟩ := bind_eq_ok.1 hrun
    cases hrun
    rw [number] at he
    split at he <;> cases he
    exact between_leaf rfl rfl rfl hmark
  | str text =>
    cases hrun
    exact between_leaf rfl rfl rfl hmark
  | ident name =>
    cases hname : keyword? name with
    | some v =>
      simp only [primary, hname] at hrun
      cases hrun
      exact between_leaf rfl rfl rfl hmark
    | none =>
      rw [name_eq position hname] at hrun
      obtain hnone | ⟨t, behind, _, rfl, hopen⟩ := head_cases (only .lparen) ts
      · rw [branch_leave hnone] at hrun
        cases hrun
        exact between_leaf rfl rfl rfl hmark
      · rw [branch_take hopen] at hrun
        obtain ⟨item, hitem, hrun⟩ := bind_eq_ok.1 hrun
        obtain ⟨⟨es, rest'⟩, hes, hrun⟩ := bind_eq_ok.1 hrun
        cases hrun
        have hitems := items_shallow h (e := .call name es) rfl (bind_eq_ok.2 ⟨item, hitem, hes⟩)
        exact hitems.widen le_rfl ((questions_le_cons t behind).trans hmark) le_rfl
  | lparen =>
    obtain ⟨inner, hinner, hrun⟩ := bind_eq_ok.1 hrun
    obtain ⟨⟨e, middle⟩, he, hrun⟩ := bind_eq_ok.1 hrun
    obtain ⟨⟨_, rest'⟩, hclose, hrun⟩ := bind_eq_ok.1 hrun
    cases hrun
    obtain ⟨d', rfl, hshallow⟩ := h _ inner hinner
    exact (hshallow _ _ _ he).widen (Nat.le_succ d') hmark (expect_questions hclose)
  | lbracket =>
    obtain ⟨item, hitem, hrun⟩ := bind_eq_ok.1 hrun
    obtain ⟨⟨es, rest'⟩, hes, hrun⟩ := bind_eq_ok.1 hrun
    cases hrun
    have hitems := items_shallow h (e := .list es) rfl (bind_eq_ok.2 ⟨item, hitem, hes⟩)
    exact hitems.widen le_rfl hmark le_rfl
  | _ => cases hrun

theorem operand_shallow (h : DeeperShallow d deeper) : Shallow d (operand x deeper) := by
  intro ts e rest hrun
  obtain _ | ⟨t, ts⟩ := ts
  · cases hrun
  cases hop : unaryOp? t.token with
  | none =>
    simp only [operand, hop] at hrun
    exact primary_shallow h.map _ e rest hrun
  | some op =>
    simp only [operand, hop] at hrun
    obtain ⟨inner, hinner, hrun⟩ := bind_eq_ok.1 hrun
    obtain ⟨⟨e, rest'⟩, he, hrun⟩ := bind_eq_ok.1 hrun
    cases hrun
    obtain ⟨d', rfl, hshallow⟩ := h _ inner hinner
    have hoperand := (hshallow _ _ _ he).widen le_rfl (questions_le_cons t ts) le_rfl
    exact between_counted rfl hoperand.le (List.forall_mem_singleton.2 hoperand)

theorem unary_shallow (d : Nat) : Shallow d (unary x d) := by
  induction d with
  | zero => exact operand_shallow fun position R hR => nomatch hR
  | succ d ih =>
    refine operand_shallow fun position R hR => ⟨d, rfl, ?_⟩
    cases hR
    exact ih

end Readers

/-! ### Texts -/

theorem questions_le_of_walks {p q : Nat} {cs cs' : List Char} {ts : List Token.Placed}
    (h : Token.Walks p cs ts q cs') : questions ts ≤ cs.count '?' := by
  induction h with
  | stay => exact Nat.zero_le _
  | space _ _ ih => exact ih.trans List.count_le_count_cons
  | @token p q n c r rest cs' t ts _ hnext _ ih =>
    obtain ⟨word, hword, hspelled, -⟩ := Token.next_word hnext
    rw [hword, List.count_append]
    by_cases ht : t = .question
    · subst ht
      have hmark : word = ['?'] := by
        cases hspelled
        rfl
      rw [questions_cons_question rfl, hmark, List.count_singleton_self]
      omega
    · have hother : questions (⟨t, p⟩ :: ts) = questions ts := List.countP_cons_of_neg (by simpa using ht)
      omega

theorem questions_le_of_scan {base : Nat} {text : String} {s : Token.Stream} (h : Token.scan base text = .ok s) :
    questions s.tokens ≤ text.toList.count '?' := by
  obtain ⟨s', hscan, hs⟩ := bind_eq_ok.1 h
  have hsame : s' = s := by
    split at hs <;> cases hs
    rfl
  subst hsame
  obtain ⟨ts, q, hwalks⟩ | ⟨_, _, _, _, _, _, _, _, herror⟩ :=
    Token.scanFrom_walks String.length_toList.le base []
  · rw [hwalks.scanFrom String.length_toList.le] at hscan
    cases hscan
    exact questions_le_of_walks hwalks
  · rw [herror] at hscan
    cases hscan

end Parser

namespace Expr

theorem nestsWithin_of_parse {text : String} {base : Nat} {e : Expr} (h : parse text base = .ok e) :
    e.NestsWithin Parser.maxDepth (text.toList.count '?') := by
  obtain ⟨s, hscan, h⟩ := bind_eq_ok.1 h
  obtain ⟨⟨e', rest⟩, hread, h⟩ := bind_eq_ok.1 h
  have hbetween := Parser.expression_shallow (Parser.unary_shallow Parser.maxDepth) _ _ _ hread
  cases rest with
  | cons t rest => cases h
  | nil =>
    cases h
    exact hbetween.nests.mono le_rfl ((Nat.sub_le _ _).trans (Parser.questions_le_of_scan hscan))

/-! ### The deepest trees -/

/-- Conditionals, each behind the colon of the one before. -/
def alternatives (last : Expr) : Nat → Expr
  | 0 => last
  | n + 1 => .conditional (.literal (.int 1)) (.literal (.int 1)) (alternatives last n)

section Alternatives

variable {last : Expr}

theorem printable_alternatives (h : last.Printable) (n : Nat) : (alternatives last n).Printable := by
  induction n with
  | zero => exact h
  | succ n ih => exact .conditional (.int (by decide)) (.int (by decide)) ih

theorem depth_alternatives (n : Nat) : (alternatives last n).depth = last.depth := by
  induction n with
  | zero => rfl
  | succ n ih => simpa [alternatives, depth, looseness, nesting] using ih

theorem depth_negations (n : Nat) : (negations n).depth = n := by
  induction n with
  | zero => rfl
  | succ n ih =>
    have htight : (negations n).looseness = 0 := by cases n <;> rfl
    simp [negations, depth, nesting, htight, ih]

theorem path_alternatives {path : List Expr} (h : last.Path path) (n : Nat) :
    ∃ path', (alternatives last n).Path path' ∧ path'.countP nests = path.countP nests + n := by
  induction n with
  | zero => exact ⟨path, h, rfl⟩
  | succ n ih =>
    obtain ⟨path', hpath', hcount⟩ := ih
    refine ⟨_ :: path', .step (by simp [alternatives, children]) hpath', ?_⟩
    rw [List.countP_cons_of_pos rfl, hcount, Nat.add_assoc]

theorem path_negations (n : Nat) : ∃ path, (negations n).Path path ∧ path.countP nests = n := by
  induction n with
  | zero => exact ⟨_, .leaf rfl, rfl⟩
  | succ n ih =>
    obtain ⟨path, hpath, hcount⟩ := ih
    refine ⟨_ :: path, .step (by simp [negations, children]) hpath, ?_⟩
    rw [List.countP_cons_of_pos rfl, hcount]

theorem count_spellings_cons (c : Char) (hc : c ≠ ' ') (t : Token) (ts : List Token) :
    (Token.spellings (t :: ts)).count c = t.spelling.count c + (Token.spellings ts).count c := by
  cases ts with
  | nil => rfl
  | cons t' ts =>
    rw [Token.spellings, List.count_append, List.count_cons_of_ne hc.symm]
    exact List.cons_ne_nil t' ts

theorem questions_negations (n : Nat) : (Token.spellings (negations n).tokens).count '?' = 0 := by
  induction n with
  | zero => decide
  | succ n ih =>
    have htight : (negations n).looseness = 0 := by cases n <;> rfl
    have htokens : (negations (n + 1)).tokens = .minus :: (negations n).tokens := by
      simp [negations, tokens, Token.group, htight, UnaryOp.token]
    rw [htokens, count_spellings_cons _ (by decide), ih]
    decide

theorem questions_alternatives (last : Expr) (n : Nat) : (Token.spellings (alternatives last n).tokens).count '?' =
    (Token.spellings last.tokens).count '?' + n := by
  induction n with
  | zero => rfl
  | succ n ih =>
    have htokens : (alternatives last (n + 1)).tokens =
        (Value.int 1).token :: .question :: (Value.int 1).token :: .colon :: (alternatives last n).tokens := by
      simp [alternatives, tokens, Token.group, looseness]
    rw [htokens]
    iterate 4 rw [count_spellings_cons _ (by decide)]
    rw [ih]
    have hone : (Value.int 1).token.spelling.count '?' = 0 := by decide
    have hquestion : Token.question.spelling.count '?' = 1 := by decide
    have hcolon : Token.colon.spelling.count '?' = 0 := by decide
    omega

end Alternatives

theorem parse_print {e : Expr} (h : e.Printable) (hdepth : e.depth ≤ Parser.maxDepth) (base : Nat) :
    parse e.print base = .ok e :=
  (parse_written h h.writtenAs base).reads hdepth

/-- The unary operators, calls and lists on a path are no more than the limit, and the conditionals no more than the
question marks in the text; and as deep as both together trees of such texts do nest. -/
theorem nesting_le_iff (questions bound : Nat) :
    (∀ text base e, text.toList.count '?' = questions → parse text base = .ok e →
      e.NestsWithin Parser.maxDepth questions) ∧
    ((∀ text base e path, text.toList.count '?' = questions → parse text base = .ok e → e.Path path →
      path.countP nests ≤ bound) ↔ Parser.maxDepth + questions ≤ bound) := by
  refine ⟨?_, fun h => ?_, fun h => ?_⟩
  · rintro text base e rfl
    exact nestsWithin_of_parse
  · -- As many negations as are allowed, in the last branch of as many conditionals as there may be.
    obtain ⟨path, hpath, hcount⟩ := path_negations Parser.maxDepth
    obtain ⟨path', hpath', hcount'⟩ := path_alternatives hpath questions
    have hdepth : (alternatives (negations Parser.maxDepth) questions).depth ≤ Parser.maxDepth := by
      rw [depth_alternatives, depth_negations]
    have hmarks := questions_alternatives (negations Parser.maxDepth) questions
    rw [questions_negations, Nat.zero_add] at hmarks
    have hparse := parse_print (printable_alternatives (printable_negations _) questions) hdepth 0
    have hle := h _ 0 _ path' (by rw [print, String.toList_ofList, hmarks]) hparse hpath'
    rwa [hcount', hcount] at hle
  · intro text base e path hmarks hparse hpath
    have hwithin := nestsWithin_of_parse hparse
    have hcounted := hwithin.counted path hpath
    have hconditionals := hwithin.conditionals path hpath
    have hboth := nests_countP_le path
    omega

/-- 33 conditionals in a row are read, one more than the limit. -/
theorem conditionals_not_counted :
    parse (String.join (List.replicate 33 "1 ? 1 : ") ++ "1") 0 = .ok (alternatives (.literal (.int 1)) 33) ∧
      ∃ path, (alternatives (.literal (.int 1)) 33).Path path ∧ Parser.maxDepth < path.countP nests := by
  have hone : (Expr.literal (.int 1)).Printable := .int (by decide)
  have hleaf : (Expr.literal (.int 1)).Path [.literal (.int 1)] := .leaf rfl
  obtain ⟨path, hpath, hcount⟩ := path_alternatives hleaf 33
  have htext : String.join (List.replicate 33 "1 ? 1 : ") ++ "1" = (alternatives (.literal (.int 1)) 33).print := by
    decide +kernel
  refine ⟨?_, path, hpath, by rw [hcount]; decide⟩
  rw [htext]
  exact parse_print (printable_alternatives hone 33) (by rw [depth_alternatives]; decide) 0

end Expr

end ShardedSql
