import ShardedSql.Proofs.ByteTokens
import ShardedSql.Proofs.Faults

/-! The reader of expressions as an index that moves over the tokens. It looks up no token behind the end, which it
never goes beyond, and whatever it does again, a round of a loop or a reader within itself, it does farther on. -/

namespace ShardedSql

/-- A place among the tokens, and how deep it is nested. -/
structure Cursor where
  index : Nat
  nesting : Nat

namespace Cursor

open ShardedSql.Parser (Level Extent maxDepth only)

abbrev Reader (α : Type) := Cursor → Attempt (α × Cursor)

/-! ### Readers -/

section Readers

variable {α β : Type} (s : Token.Stream)

/-- The token at the place; none at the end of the text. -/
def current (c : Cursor) : Attempt (Option Token.Placed) :=
  match s.tokens[c.index]? with
  | some t => .ok (some t)
  | none => if c.index = s.tokens.length then .ok none else .error (.mishap (.token c.index))

def advance (c : Cursor) : Cursor :=
  if c.index < s.tokens.length then { c with index := c.index + 1 } else c

/-- A reader that is used again may only stand farther on, and not behind the end. -/
def again (c : Cursor) (R : (c' : Cursor) → c.index < c'.index ∧ c'.index ≤ s.tokens.length → Attempt α)
    (c' : Cursor) : Attempt α :=
  if h : c.index < c'.index ∧ c'.index ≤ s.tokens.length then R c' h else .error (.mishap .stuck)

abbrev extent : Extent := ⟨s.stop, s.tokens.length⟩

def refuse (expected : Expectation) : Reader α := fun c => do
  let t ← c.current s
  .error (.refused (Parser.unexpected (extent s) expected t.toList))

/-- Takes the current token or leaves it. -/
def branch (f : Token → Option β) (take : β → Reader α) (leave : Reader α) : Reader α := fun c => do
  let t ← c.current s
  match t.bind (f ·.token) with
  | some b => take b (c.advance s)
  | none => leave c

def expect (token : Token) (expected : Expectation) : Reader Unit :=
  branch s (only token) (fun _ c => .ok ((), c)) (refuse s expected)

/-- Reads one level deeper. -/
def nested (position : Nat) (R : Reader α) : Reader α := fun c =>
  if maxDepth < c.nesting + 1 then .error (.refused (.tooDeep maxDepth position))
  else do
    let (a, c') ← R { c with nesting := c.nesting + 1 }
    .ok (a, { c' with nesting := c'.nesting - 1 })

def chainFrom (level : Level) (R : Reader Expr) (left : Expr) (c : Cursor) : Attempt (Expr × Cursor) :=
  branch s level (fun op c₁ => R c₁ >>= fun p =>
    again s c (fun c₂ _ => chainFrom level R (.binary op left p.1) c₂) p.2) (fun c => .ok (left, c)) c
termination_by s.tokens.length - c.index

def chain (level : Level) (R : Reader Expr) : Reader Expr := fun c => do
  let (left, c₁) ← R c
  chainFrom s level R left c₁

def range (R : Reader Expr) : Reader Expr := fun c => R c >>= fun p =>
  branch s (only .dotDot) (fun _ c₁ => R c₁ >>= fun q => .ok (.range p.1 q.1, q.2))
    (fun c₁ => .ok (p.1, c₁)) p.2

def condition (R : Reader Expr) : Reader Expr :=
  chain s Parser.orLevel <| chain s Parser.andLevel <| chain s Parser.equalityLevel <|
    chain s Parser.comparisonLevel <| range s <| chain s Parser.additiveLevel <| chain s Parser.multiplicativeLevel R

def expression (R : Reader Expr) (c : Cursor) : Attempt (Expr × Cursor) :=
  condition s R c >>= fun p =>
    branch s (only .question) (fun _ c₁ => again s c (fun c' _ => expression R c') c₁ >>= fun q =>
      expect s .colon .colon q.2 >>= fun u => again s c (fun c' _ => expression R c') u.2 >>= fun v =>
        .ok (.conditional p.1 q.1 v.1, v.2)) (fun c₁ => .ok (p.1, c₁)) p.2
termination_by s.tokens.length - c.index

def argumentsFrom (close : Token) (expected : Expectation) (R : Reader Expr) (c : Cursor) :
    Attempt (List Expr × Cursor) :=
  R c >>= fun p => branch s (only .comma)
    (fun _ c₁ => again s c (fun c' _ => argumentsFrom close expected R c') c₁ >>= fun q => .ok (p.1 :: q.1, q.2))
    (fun c₁ => expect s close expected c₁ >>= fun q => .ok ([p.1], q.2)) p.2
termination_by s.tokens.length - c.index

def arguments (close : Token) (expected : Expectation) (R : Reader Expr) : Reader (List Expr) :=
  branch s (only close) (fun _ c => .ok ([], c)) (argumentsFrom s close expected R)

/-- An operand without a unary operator, given the reader of operands farther on. -/
def primary (R : Reader Expr) : Reader Expr := fun c => c.current s >>= fun t =>
  match t with
  | some ⟨.number digits, position⟩ => safe (Parser.number digits position) >>= fun e => .ok (e, c.advance s)
  | some ⟨.str text, _⟩ => .ok (.literal (.str text), c.advance s)
  | some ⟨.ident name, position⟩ =>
    match Parser.keyword? name with
    | some value => .ok (.literal value, c.advance s)
    | none => branch s (only .lparen)
        (fun _ => nested position fun c₁ => arguments s .rparen .argumentsEnd (expression s R) c₁ >>= fun q =>
          .ok (.call name q.1, q.2))
        (fun c₁ => .ok (.var name, c₁)) (c.advance s)
  | some ⟨.lparen, position⟩ => nested position (fun c₁ => expression s R c₁ >>= fun p =>
      expect s .rparen .groupEnd p.2 >>= fun u => .ok (p.1, u.2)) (c.advance s)
  | some ⟨.lbracket, position⟩ => nested position (fun c₁ =>
      arguments s .rbracket .listEnd (expression s R) c₁ >>= fun q => .ok (.list q.1, q.2)) (c.advance s)
  | _ => refuse s .operand c

def operand (R : Reader Expr) : Reader Expr := fun c => c.current s >>= fun t =>
  match t.bind fun t => (Parser.unaryOp? t.token).map fun op => (t.position, op) with
  | some (position, op) => nested position (fun c₁ => R c₁ >>= fun p => .ok (.unary op p.1, p.2)) (c.advance s)
  | none => primary s R c

def unary (c : Cursor) : Attempt (Expr × Cursor) := operand s (again s c fun c' _ => unary c') c
termination_by s.tokens.length - c.index

/-- All tokens as one expression. -/
def whole : Attempt Expr := do
  let (e, c) ← expression s (unary s) ⟨0, 0⟩
  let t ← c.current s
  match t with
  | none => .ok e
  | some t => .error (.refused (.trailing t.position))

end Readers

/-! ### Both readers agree -/

section Agreement

variable {α β : Type} {s : Token.Stream} {n low low' i : Nat}

/-- Both refuse, or both give the same, and the cursor has come to where the other reader has, at the same depth. -/
inductive Agrees (s : Token.Stream) (n low : Nat) :
    Attempt (α × Cursor) → Except ExprError (α × List Token.Placed) → Prop
  | read (a : α) {i : Nat} (hlow : low ≤ i) (hi : i ≤ s.tokens.length) :
      Agrees s n low (.ok (a, ⟨i, n⟩)) (.ok (a, s.tokens.drop i))
  | refused (e : ExprError) : Agrees s n low (.error (.refused e)) (.error e)

theorem Agrees.mono {r' : Attempt (α × Cursor)} {r : Except ExprError (α × List Token.Placed)}
    (h : Agrees s n low r' r) (hle : low' ≤ low) : Agrees s n low' r' r := by
  cases h with
  | read a hlow hi => exact .read a (hle.trans hlow) hi
  | refused e => exact .refused e

theorem Agrees.bind {r' : Attempt (α × Cursor)} {r : Except ExprError (α × List Token.Placed)}
    {k' : α × Cursor → Attempt (β × Cursor)}
    {k : α × List Token.Placed → Except ExprError (β × List Token.Placed)}
    (h : Agrees s n low r' r) (hk : ∀ a i, low ≤ i → i ≤ s.tokens.length →
      Agrees s n low' (k' (a, ⟨i, n⟩)) (k (a, s.tokens.drop i))) : Agrees s n low' (r' >>= k') (r >>= k) := by
  cases h with
  | read a hlow hi => exact hk a _ hlow hi
  | refused e => exact .refused e

theorem Agrees.again {c c' : Cursor} {R : (c' : Cursor) → c.index < c'.index ∧ c'.index ≤ s.tokens.length →
      Attempt (α × Cursor)} {r : Except ExprError (α × List Token.Placed)}
    (h : c.index < c'.index ∧ c'.index ≤ s.tokens.length) (hR : Agrees s n low (R c' h) r) :
    Agrees s n low (again s c R c') r := by
  rw [Cursor.again, dif_pos h]
  exact hR

theorem current_drop (hi : i ≤ s.tokens.length) (n : Nat) :
    current s ⟨i, n⟩ = .ok (s.tokens.drop i).head? := by
  rw [current, List.head?_drop]
  cases hget : s.tokens[i]? with
  | some t => rfl
  | none => exact if_pos (Nat.le_antisymm hi (List.getElem?_eq_none_iff.1 hget))

theorem refuse_eq (hi : i ≤ s.tokens.length) (n : Nat) (expected : Expectation) :
    (refuse s expected : Reader α) ⟨i, n⟩ =
      .error (.refused (Parser.unexpected (extent s) expected (s.tokens.drop i))) := by
  rw [refuse, current_drop hi]
  cases s.tokens.drop i <;> rfl

theorem Agrees.branch {f : Token → Option β} {take' : β → Reader α} {leave' : Reader α}
    {take : β → Parser.Reader α} {leave : Parser.Reader α} (hi : i ≤ s.tokens.length)
    (htake : ∀ b, i < s.tokens.length → Agrees s n low (take' b ⟨i + 1, n⟩) (take b (s.tokens.drop (i + 1))))
    (hleave : Agrees s n low (leave' ⟨i, n⟩) (leave (s.tokens.drop i))) :
    Agrees s n low (Cursor.branch s f take' leave' ⟨i, n⟩) (Parser.branch f take leave (s.tokens.drop i)) := by
  rw [Cursor.branch, current_drop hi]
  obtain hlt | rfl := hi.lt_or_eq
  · rw [List.drop_eq_getElem_cons hlt] at hleave ⊢
    rw [Parser.branch, advance, if_pos hlt]
    change Agrees s n low (match f s.tokens[i].token with | some b => _ | none => _) _
    cases f s.tokens[i].token with
    | some b => exact htake b hlt
    | none => exact hleave
  · rw [List.drop_length] at hleave ⊢
    exact hleave

theorem expect_agrees (hi : i ≤ s.tokens.length) (token : Token) (expected : Expectation) :
    Agrees s n (i + 1) (expect s token expected ⟨i, n⟩)
      (Parser.expect (extent s) token expected (s.tokens.drop i)) := by
  have hexpect : Parser.expect (extent s) token expected = Parser.branch (only token)
      (fun _ ts => .ok ((), ts)) fun ts =>
        .error (Parser.unexpected (extent s) expected ts) := by
    funext ts
    cases ts with
    | nil => rfl
    | cons t ts =>
      rw [Parser.expect, Parser.branch, only]
      split <;> rfl
  rw [hexpect]
  refine .branch hi (fun _ hlt => .read () le_rfl hlt) ?_
  rw [refuse_eq hi]
  exact .refused _

end Agreement

section Readers

variable {s : Token.Stream} {n low : Nat} {R' : Reader Expr} {R : Parser.Reader Expr}

/-- From the place on the readers agree and take a token. -/
def ReadsFrom (s : Token.Stream) (n low : Nat) (R' : Reader Expr) (R : Parser.Reader Expr) : Prop :=
  ∀ i, low ≤ i → i ≤ s.tokens.length → Agrees s n (i + 1) (R' ⟨i, n⟩) (R (s.tokens.drop i))

theorem chainFrom_agrees (level : Level) (h : ReadsFrom s n low R' R) {fuel i : Nat} (left : Expr) (hlow : low ≤ i)
    (hi : i ≤ s.tokens.length) (hfuel : s.tokens.length - i ≤ fuel) :
    Agrees s n i (chainFrom s level R' left ⟨i, n⟩) (Parser.chainFrom level R fuel left (s.tokens.drop i)) := by
  induction fuel generalizing i left with
  | zero =>
    have hleave : Parser.chainFrom level R 0 left (s.tokens.drop i) = Parser.branch level
        (fun _ _ => .error .empty) (fun ts => .ok (left, ts)) (s.tokens.drop i) := by
      rw [List.drop_eq_nil_of_le (by omega)]
      rfl
    rw [chainFrom, hleave]
    exact .branch hi (fun _ hlt => absurd hlt (by omega)) (.read left le_rfl hi)
  | succ fuel ih =>
    rw [chainFrom, Parser.chainFrom_succ]
    refine .branch hi (fun op hlt => ?_) (.read left le_rfl hi)
    refine (h (i + 1) (by omega) hlt).bind fun right j hj hjn => ?_
    have hrest := ih (.binary op left right) (show low ≤ j by omega) hjn (by omega)
    exact .again ⟨show i < j by omega, hjn⟩ (hrest.mono (by omega))

theorem chain_agrees (level : Level) (h : ReadsFrom s n low R' R) : ReadsFrom s n low (chain s level R')
    (Parser.chain (extent s) level R) := by
  intro i hlow hi
  refine (h i hlow hi).bind fun left j hj hjn => ?_
  exact (chainFrom_agrees level h left (show low ≤ j by omega) hjn (Nat.sub_le _ _)).mono hj

theorem range_agrees (h : ReadsFrom s n low R' R) : ReadsFrom s n low (range s R') (Parser.range R) := by
  intro i hlow hi
  rw [Parser.range_eq]
  refine (h i hlow hi).bind fun first j hj hjn => ?_
  refine .branch hjn (fun _ hlt => ?_) (.read first hj hjn)
  refine (h (j + 1) (by omega) hlt).bind fun last k hk hkn => ?_
  exact .read _ (by omega) hkn

theorem condition_agrees (h : ReadsFrom s n low R' R) : ReadsFrom s n low (condition s R')
    (Parser.condition (extent s) R) :=
  chain_agrees _ (chain_agrees _ (chain_agrees _ (chain_agrees _ (range_agrees
    (chain_agrees _ (chain_agrees _ h))))))

theorem expression_agrees (h : ReadsFrom s n low R' R) {fuel : Nat} {i : Nat} (hlow : low ≤ i)
    (hi : i ≤ s.tokens.length) (hfuel : s.tokens.length - i ≤ fuel) :
    Agrees s n (i + 1) (expression s R' ⟨i, n⟩)
      (Parser.conditionalFrom (extent s) R fuel (s.tokens.drop i)) := by
  induction fuel generalizing i with
  | zero =>
    -- Without a token the condition is refused already.
    have hcondition := condition_agrees h i hlow hi
    rw [expression, Parser.conditionalFrom]
    generalize condition s R' ⟨i, n⟩ = r' at hcondition ⊢
    generalize Parser.condition (extent s) R (s.tokens.drop i) = r at hcondition ⊢
    cases hcondition with
    | read test hj hjn => omega
    | refused e => exact .refused e
  | succ fuel ih =>
    rw [expression, Parser.conditionalFrom_succ]
    refine (condition_agrees h i hlow hi).bind fun test j hj hjn => ?_
    refine .branch hjn (fun _ hlt => ?_) (.read test hj hjn)
    have hyes := ih (show low ≤ j + 1 by omega) hlt (by omega)
    refine .bind (.again ⟨show i < j + 1 by omega, hlt⟩ hyes) fun yes k hk hkn => ?_
    refine (expect_agrees hkn .colon .colon).bind fun _ m hm hmn => ?_
    have hno := ih (show low ≤ m by omega) hmn (by omega)
    refine .bind (.again ⟨show i < m by omega, hmn⟩ hno) fun no o ho hon => ?_
    exact .read _ (by omega) hon

theorem argumentsFrom_agrees (close : Token) (expected : Expectation) (h : ReadsFrom s n low R' R) {fuel i : Nat}
    (hlow : low ≤ i) (hi : i ≤ s.tokens.length) (hfuel : s.tokens.length - i < fuel) :
    Agrees s n (i + 1) (argumentsFrom s close expected R' ⟨i, n⟩)
      (Parser.argumentsFrom (extent s) close expected R fuel (s.tokens.drop i)) := by
  induction fuel generalizing i with
  | zero => omega
  | succ fuel ih =>
    rw [argumentsFrom, Parser.argumentsFrom_succ]
    refine (h i hlow hi).bind fun e j hj hjn => .branch hjn (fun _ hlt => ?_) ?_
    · have hmore := ih (show low ≤ j + 1 by omega) hlt (by omega)
      refine .bind (.again ⟨show i < j + 1 by omega, hlt⟩ hmore) fun es k hk hkn => ?_
      exact .read _ (by omega) hkn
    · refine (expect_agrees hjn close expected).bind fun _ k hk hkn => ?_
      exact .read _ (by omega) hkn

theorem arguments_agrees (close : Token) (expected : Expectation) (h : ReadsFrom s n low R' R) {i : Nat}
    (hlow : low ≤ i) (hi : i ≤ s.tokens.length) : Agrees s n (i + 1) (arguments s close expected R' ⟨i, n⟩)
      (Parser.arguments (extent s) close expected R (s.tokens.drop i)) := by
  rw [Parser.arguments_eq]
  refine .branch hi (fun _ hlt => .read [] le_rfl hlt) ?_
  exact argumentsFrom_agrees close expected h hlow hi (Nat.lt_succ_of_le (Nat.sub_le _ _))

/-- One level deeper both readers refuse, or they read with a level less. -/
theorem nested_agrees {α : Type} {x : Extent} {d i : Nat} (hd : n + d = maxDepth) (position : Nat)
    {deep : Reader α} {K : Parser.Reader Expr → Parser.Reader α}
    (hk : ∀ d', d = d' + 1 →
      Agrees s (n + 1) low (deep ⟨i, n + 1⟩) (K (Parser.unary x d') (s.tokens.drop i))) :
    Agrees s n low (nested position deep ⟨i, n⟩)
      (Parser.deeper x d position >>= fun R => K R (s.tokens.drop i)) := by
  cases d with
  | zero =>
    rw [nested, if_pos (show maxDepth < n + 1 by omega)]
    exact .refused _
  | succ d =>
    have hdeep := hk d rfl
    rw [nested, if_neg (show ¬ maxDepth < n + 1 by omega)]
    change Agrees s n low _ (K (Parser.unary x d) (s.tokens.drop i))
    generalize K (Parser.unary x d) (s.tokens.drop i) = r at hdeep ⊢
    change Agrees s n low (deep ⟨i, n + 1⟩ >>= _) r
    generalize deep ⟨i, n + 1⟩ = r' at hdeep ⊢
    cases hdeep with
    | read a hlow hi => exact .read a hlow hi
    | refused e => exact .refused e

end Readers

section Operands

variable {s : Token.Stream} {n d i : Nat} {R' : Reader Expr}

/-- The operand readers agree at every depth from the place on. -/
def OperandsFrom (s : Token.Stream) (low : Nat) (R' : Reader Expr) : Prop :=
  ∀ n d, n + d = maxDepth → ReadsFrom s n low R' (Parser.unary (extent s) d)

/-- One level deeper whole expressions are read alike. -/
theorem OperandsFrom.expression {low d' : Nat} (h : OperandsFrom s low R') (hd' : d = d' + 1)
    (hd : n + d = maxDepth) : ReadsFrom s (n + 1) low (Cursor.expression s R') (Parser.expression (extent s)
      (Parser.unary (extent s) d')) :=
  fun _ hlow hi => expression_agrees (h (n + 1) d' (by omega)) hlow hi (Nat.sub_le _ _)

theorem group_eq {x : Extent} (nested : Nat → Except ExprError (Parser.Reader Expr)) (position : Nat)
    (ts : List Token.Placed) : Parser.primary x nested (⟨.lparen, position⟩ :: ts) =
      nested position >>= fun inner => inner ts >>= fun p =>
        Parser.expect x .rparen .groupEnd p.2 >>= fun u => .ok (p.1, u.2) := rfl

theorem list_eq {x : Extent} (nested : Nat → Except ExprError (Parser.Reader Expr)) (position : Nat)
    (ts : List Token.Placed) : Parser.primary x nested (⟨.lbracket, position⟩ :: ts) =
      nested position >>= fun item => Parser.arguments x .rbracket .listEnd item ts >>= fun q =>
        .ok (.list q.1, q.2) := rfl

theorem map_bind {ε α β γ : Type} (r : Except ε α) (f : α → β) (k : β → Except ε γ) :
    (r.map f >>= k) = r >>= fun a => k (f a) := by
  cases r <;> rfl

theorem primary_agrees (h : OperandsFrom s (i + 1) R') (hd : n + d = maxDepth) (hi : i ≤ s.tokens.length) :
    Agrees s n (i + 1) (primary s R' ⟨i, n⟩) (Parser.primary (extent s)
      (fun position => (Parser.deeper (extent s) d position).map
        (Parser.expression (extent s))) (s.tokens.drop i)) := by
  have hcurrent := current_drop hi n
  obtain rfl | hlt := hi.eq_or_lt
  · rw [List.drop_length] at hcurrent ⊢
    rw [primary, hcurrent]
    change Agrees s n _ (refuse s .operand ⟨s.tokens.length, n⟩) _
    rw [refuse_eq hi, List.drop_length]
    exact .refused _
  have hadvance : advance s ⟨i, n⟩ = ⟨i + 1, n⟩ := if_pos hlt
  have hrefuse := refuse_eq (α := Expr) hi n .operand
  rw [List.drop_eq_getElem_cons hlt] at hcurrent hrefuse ⊢
  rw [primary, hcurrent, hadvance]
  generalize s.tokens[i] = t at hcurrent hrefuse ⊢
  obtain ⟨token, position⟩ := t
  cases token with
  | number digits =>
    change Agrees s n _ (safe (Parser.number digits position) >>= _) (Parser.number digits position >>= _)
    cases Parser.number digits position with
    | ok e => exact .read e le_rfl hlt
    | error e => exact .refused e
  | str text => exact .read _ le_rfl hlt
  | ident name =>
    cases hname : Parser.keyword? name with
    | some v =>
      simp only [Parser.primary, hname, List.head?_cons]
      change Agrees s n _ (match Parser.keyword? name with | some v => _ | none => _) _
      rw [hname]
      exact .read _ le_rfl hlt
    | none =>
      rw [Parser.name_eq position hname]
      change Agrees s n _ (match Parser.keyword? name with | some v => _ | none => _) _
      rw [hname]
      refine .branch hlt (fun _ hopen => ?_) (.read _ le_rfl hlt)
      rw [map_bind]
      refine nested_agrees hd position (K := fun R ts => Parser.arguments (extent s) .rparen .argumentsEnd
        (Parser.expression (extent s) R) ts >>= fun q => .ok (Expr.call name q.1, q.2)) fun d' hd' => ?_
      have hitems := h.expression hd' hd
      refine (arguments_agrees .rparen .argumentsEnd hitems (by omega) hopen).bind fun es k hk hkn => ?_
      exact .read _ (by omega) hkn
  | lparen =>
    rw [group_eq, map_bind]
    change Agrees s n _ (nested position (fun c => expression s R' c >>= fun p =>
      expect s .rparen .groupEnd p.2 >>= fun u => .ok (p.1, u.2)) ⟨i + 1, n⟩) _
    refine nested_agrees hd position (K := fun R ts => Parser.expression (extent s) R ts >>= fun p =>
      Parser.expect (extent s) .rparen .groupEnd p.2 >>= fun u => .ok (p.1, u.2)) fun d' hd' => ?_
    refine (h.expression hd' hd _ le_rfl hlt).bind fun e k hk hkn => ?_
    refine (expect_agrees hkn .rparen .groupEnd).bind fun _ m hm hmn => ?_
    exact .read _ (by omega) hmn
  | lbracket =>
    rw [list_eq, map_bind]
    change Agrees s n _ (nested position (fun c => arguments s .rbracket .listEnd (expression s R') c >>= fun q =>
      .ok (Expr.list q.1, q.2)) ⟨i + 1, n⟩) _
    refine nested_agrees hd position (K := fun R ts => Parser.arguments (extent s) .rbracket .listEnd
      (Parser.expression (extent s) R) ts >>= fun q => .ok (Expr.list q.1, q.2)) fun d' hd' => ?_
    refine (arguments_agrees .rbracket .listEnd (h.expression hd' hd) le_rfl hlt).bind fun es k hk hkn => ?_
    exact .read _ (by omega) hkn
  | _ =>
    change Agrees s n _ (refuse s .operand ⟨i, n⟩) _
    rw [hrefuse]
    exact .refused _

theorem operand_agrees (h : OperandsFrom s (i + 1) R') (hd : n + d = maxDepth) (hi : i ≤ s.tokens.length) :
    Agrees s n (i + 1) (operand s R' ⟨i, n⟩) (Parser.unary (extent s) d (s.tokens.drop i)) := by
  have hprimary := primary_agrees h hd hi
  have hcurrent := current_drop hi n
  rw [Parser.unary_eq, operand]
  obtain rfl | hlt := hi.eq_or_lt
  · rw [List.drop_length] at hcurrent hprimary ⊢
    rw [hcurrent]
    exact hprimary
  have hadvance : advance s ⟨i, n⟩ = ⟨i + 1, n⟩ := if_pos hlt
  rw [List.drop_eq_getElem_cons hlt] at hcurrent hprimary ⊢
  rw [hcurrent, hadvance]
  generalize s.tokens[i] = t at hprimary ⊢
  rw [Parser.operand]
  change Agrees s n _ (match (Parser.unaryOp? t.token).map fun op => (t.position, op) with
    | some (position, op) => _
    | none => _) _
  cases hop : Parser.unaryOp? t.token with
  | none => exact hprimary
  | some op =>
    refine nested_agrees hd t.position (K := fun R ts => R ts >>= fun p => .ok (Expr.unary op p.1, p.2))
      fun d' hd' => ?_
    refine (h (n + 1) d' (by omega) (i + 1) le_rfl hlt).bind fun e k hk hkn => ?_
    exact .read _ (by omega) hkn

theorem unary_agrees (hd : n + d = maxDepth) (hi : i ≤ s.tokens.length) :
    Agrees s n (i + 1) (unary s ⟨i, n⟩) (Parser.unary (extent s) d (s.tokens.drop i)) := by
  induction hm : s.tokens.length - i using Nat.strong_induction_on generalizing i n d with
  | h m ih =>
    rw [unary]
    refine operand_agrees (fun n' d' hd' j hj hjn => ?_) hd hi
    exact .again ⟨hj, hjn⟩ (ih _ (by omega) hd' hjn rfl)

end Operands

theorem whole_eq (s : Token.Stream) : whole s = safe (Parser.whole s.stop s.tokens) := by
  have hunary : OperandsFrom s 0 (unary s) := fun _ _ hd _ _ hi => unary_agrees hd hi
  have hagrees : Agrees s 0 1 (expression s (unary s) ⟨0, 0⟩) (Parser.expression (extent s)
      (Parser.unary (extent s) maxDepth) s.tokens) :=
    expression_agrees (hunary 0 maxDepth (Nat.zero_add _)) le_rfl (Nat.zero_le _) (Nat.sub_le _ _)
  rw [whole, Parser.whole]
  generalize expression s (unary s) ⟨0, 0⟩ = r' at hagrees ⊢
  generalize Parser.expression (extent s) (Parser.unary (extent s) maxDepth) s.tokens = r at hagrees ⊢
  cases hagrees with
  | refused e => rfl
  | @read e i _ hi =>
    change (current s ⟨i, 0⟩ >>= _) = safe (Parser.complete (e, s.tokens.drop i))
    rw [current_drop hi]
    cases s.tokens.drop i <;> rfl

end Cursor

/-- The whole text as one expression. -/
def Expr.parseBytes (text : String) (base : Nat) : Attempt Expr := do
  let s ← Token.scanBytes base text.toList
  Cursor.whole s

theorem Expr.parseBytes_eq (text : String) (base : Nat) : parseBytes text base = safe (parse text base) := by
  rw [parseBytes, parse, Token.scanBytes_eq, safe_bind]
  refine bind_congr fun s => ?_
  rw [Cursor.whole_eq, Parser.whole, safe_bind, safe_bind]
  refine bind_congr fun p => ?_
  obtain ⟨e, _ | ⟨t, rest⟩⟩ := p <;> rfl

end ShardedSql
