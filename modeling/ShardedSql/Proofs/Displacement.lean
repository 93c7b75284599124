import ShardedSql.Expr.Parser
import ShardedSql.Proofs.Success

/-!
Offsets are reported and nothing else: a text that is read as a tree at one offset is read as the same
tree at every offset. -/

namespace ShardedSql

namespace Parser

/-- Two lists of the same tokens, in perhaps other places. -/
def SameTokens (ts ts' : List Token.Placed) : Prop := ts.map (·.token) = ts'.map (·.token)

/-- Both lists are empty, or both begin with one token. -/
theorem SameTokens.cases {ts ts' : List Token.Placed} (h : SameTokens ts ts') :
    (ts = [] ∧ ts' = []) ∨ ∃ token position position' rest rest',
      ts = ⟨token, position⟩ :: rest ∧ ts' = ⟨token, position'⟩ :: rest' ∧ SameTokens rest rest' := by
  cases ts with
  | nil => exact .inl ⟨rfl, List.map_eq_nil_iff.1 (Eq.symm h)⟩
  | cons t rest =>
    obtain ⟨t', rest', rfl, ht, hrest⟩ := List.map_eq_cons_iff.1 (Eq.symm h)
    obtain ⟨token, position⟩ := t
    obtain ⟨_, position'⟩ := t'
    obtain rfl : _ = token := ht
    exact .inr ⟨_, position, position', rest, rest', rfl, rfl, hrest.symm⟩

section Agreement

variable {α β : Type}

/-- What the first result accepts, the second accepts as well, with the same tokens left. Refusals are
not compared: they name offsets. -/
def Alike (r r' : Except ExprError (α × List Token.Placed)) : Prop :=
  ∀ a rest, r = .ok (a, rest) → ∃ rest', r' = .ok (a, rest') ∧ SameTokens rest rest'

theorem Alike.ok (a : α) {rest rest' : List Token.Placed} (h : SameTokens rest rest') :
    Alike (.ok (a, rest)) (.ok (a, rest')) := by
  intro b rest₀ hok
  cases hok
  exact ⟨rest', rfl, h⟩

theorem Alike.error (e : ExprError) (r' : Except ExprError (α × List Token.Placed)) :
    Alike (.error e) r' := fun _ _ h => nomatch h

theorem Alike.bind {r r' : Except ExprError (α × List Token.Placed)}
    {k k' : α × List Token.Placed → Except ExprError (β × List Token.Placed)} (h : Alike r r')
    (hk : ∀ a rest rest', SameTokens rest rest' → Alike (k (a, rest)) (k' (a, rest'))) :
    Alike (r >>= k) (r' >>= k') := by
  cases r with
  | error e => exact .error e _
  | ok v =>
    obtain ⟨rest', rfl, hrest⟩ := h v.1 v.2 rfl
    exact hk v.1 v.2 rest' hrest

/-- The second reader accepts what the first one does, wherever the tokens stand. -/
def Agrees (reader reader' : Reader α) : Prop :=
  ∀ ts ts', SameTokens ts ts' → Alike (reader ts) (reader' ts')

end Agreement

section Readers

variable {x x' : Extent} {reader reader' unary unary' : Reader Expr}

theorem expect_agrees (x x' : Extent) (token : Token) (expected : Expectation) :
    Agrees (expect x token expected) (expect x' token expected) := by
  intro ts ts' h
  obtain ⟨rfl, rfl⟩ | ⟨_, _, _, rest, rest', rfl, rfl, hrest⟩ := h.cases
  · exact .error _ _
  · unfold expect
    dsimp only
    split
    · exact .ok () hrest
    · exact .error _ _

theorem chainFrom_agrees (level : Level) (h : Agrees reader reader') (fuel : Nat) (left : Expr) :
    Agrees (chainFrom level reader fuel left) (chainFrom level reader' fuel left) := by
  induction fuel generalizing left with
  | zero => exact fun ts ts' hts => .ok left hts
  | succ fuel ih =>
    intro ts ts' hts
    obtain ⟨rfl, rfl⟩ | ⟨token, _, _, rest, rest', rfl, rfl, hrest⟩ := hts.cases
    · exact .ok left rfl
    · rw [chainFrom, chainFrom]
      cases level token with
      | none => exact .ok left hts
      | some op => exact (h rest rest' hrest).bind fun right => ih (.binary op left right)

theorem chain_agrees (hx : x.count = x'.count) (level : Level) (h : Agrees reader reader') :
    Agrees (chain x level reader) (chain x' level reader') := by
  intro ts ts' hts
  rw [chain, chain, hx]
  exact (h ts ts' hts).bind fun left => chainFrom_agrees level h x'.count left

theorem range_agrees (h : Agrees reader reader') : Agrees (range reader) (range reader') := by
  intro ts ts' hts
  refine (h ts ts' hts).bind fun first rest rest' hrest => ?_
  obtain ⟨rfl, rfl⟩ | ⟨token, _, _, behind, behind', rfl, rfl, hbehind⟩ := hrest.cases
  · exact .ok first rfl
  · by_cases htoken : token = .dotDot
    · subst htoken
      exact (h behind behind' hbehind).bind fun last _ _ hlast => .ok _ hlast
    · cases token <;> first | exact absurd rfl htoken | exact .ok first hrest

theorem condition_agrees (hx : x.count = x'.count) (h : Agrees unary unary') :
    Agrees (condition x unary) (condition x' unary') :=
  chain_agrees hx _ <| chain_agrees hx _ <| chain_agrees hx _ <| chain_agrees hx _ <|
    range_agrees <| chain_agrees hx _ <| chain_agrees hx _ h

theorem conditionalFrom_agrees (hx : x.count = x'.count) (h : Agrees unary unary') (fuel : Nat) :
    Agrees (conditionalFrom x unary fuel) (conditionalFrom x' unary' fuel) := by
  induction fuel with
  | zero => exact condition_agrees hx h
  | succ fuel ih =>
    intro ts ts' hts
    refine (condition_agrees hx h ts ts' hts).bind fun test rest rest' hrest => ?_
    obtain ⟨rfl, rfl⟩ | ⟨token, _, _, behind, behind', rfl, rfl, hbehind⟩ := hrest.cases
    · exact .ok test rfl
    · by_cases htoken : token = .question
      · subst htoken
        refine (ih behind behind' hbehind).bind fun yes rest rest' hyes => ?_
        refine (expect_agrees x x' .colon .colon rest rest' hyes).bind fun _ rest rest' hcolon => ?_
        exact (ih rest rest' hcolon).bind fun no _ _ hno => .ok _ hno
      · cases token <;> first | exact absurd rfl htoken | exact .ok test hrest

theorem expression_agrees (hx : x.count = x'.count) (h : Agrees unary unary') :
    Agrees (expression x unary) (expression x' unary') := by
  rw [expression, expression, hx]
  exact conditionalFrom_agrees hx h x'.count

theorem argumentsFrom_agrees (x x' : Extent) (close : Token) (expected : Expectation)
    (h : Agrees reader reader') (fuel : Nat) :
    Agrees (argumentsFrom x close expected reader fuel) (argumentsFrom x' close expected reader' fuel) := by
  induction fuel with
  | zero => exact fun _ _ _ => .error _ _
  | succ fuel ih =>
    intro ts ts' hts
    refine (h ts ts' hts).bind fun e rest rest' hrest => ?_
    have hclose : Alike (expect x close expected rest >>= fun p => .ok ([e], p.2))
        (expect x' close expected rest' >>= fun p => .ok ([e], p.2)) :=
      (expect_agrees x x' close expected rest rest' hrest).bind fun _ _ _ h => .ok [e] h
    obtain ⟨rfl, rfl⟩ | ⟨token, _, _, behind, behind', rfl, rfl, hbehind⟩ := hrest.cases
    · exact hclose
    · by_cases htoken : token = .comma
      · subst htoken
        exact (ih behind behind' hbehind).bind fun es _ _ hes => .ok (e :: es) hes
      · cases token <;> first | exact absurd rfl htoken | exact hclose

theorem arguments_agrees (hx : x.count = x'.count) (close : Token) (expected : Expectation)
    (h : Agrees reader reader') :
    Agrees (arguments x close expected reader) (arguments x' close expected reader') := by
  intro ts ts' hts
  have hfrom := argumentsFrom_agrees x x' close expected h (x.count + 1) ts ts' hts
  obtain ⟨rfl, rfl⟩ | ⟨_, _, _, rest, rest', rfl, rfl, hrest⟩ := hts.cases
  · rwa [arguments, arguments, ← hx]
  · rw [arguments, arguments, ← hx]
    dsimp only
    split
    · exact .ok [] hrest
    · exact hfrom

/-- The deeper readers agree where there is one. -/
def DeeperAgrees (deeper deeper' : Nat → Except ExprError (Reader Expr)) : Prop :=
  ∀ position position' reader, deeper position = .ok reader →
    ∃ reader', deeper' position' = .ok reader' ∧ Agrees reader reader'

variable {nested nested' deeper deeper' : Nat → Except ExprError (Reader Expr)}

theorem DeeperAgrees.bind {α : Type} (h : DeeperAgrees deeper deeper') {position position' : Nat}
    {k k' : Reader Expr → Except ExprError (α × List Token.Placed)}
    (hk : ∀ reader reader', Agrees reader reader' → Alike (k reader) (k' reader')) :
    Alike (deeper position >>= k) (deeper' position' >>= k') := by
  cases hdeeper : deeper position with
  | error e => exact .error e _
  | ok reader =>
    obtain ⟨reader', hdeeper', hreader⟩ := h position position' reader hdeeper
    rw [hdeeper']
    exact hk reader reader' hreader

theorem primary_agrees (hx : x.count = x'.count) (h : DeeperAgrees nested nested') :
    Agrees (primary x nested) (primary x' nested') := by
  intro ts ts' hts
  obtain ⟨rfl, rfl⟩ | ⟨token, position, position', ts, ts', rfl, rfl, hrest⟩ := hts.cases
  · exact .error _ _
  cases token with
  | number digits =>
    rw [primary, primary, number, number]
    cases (Text.digits? digits.toList).bind fun n => Text.fit64 n with
    | none => exact .error _ _
    | some n => exact .ok _ hrest
  | str text => exact .ok _ hrest
  | ident name =>
    unfold primary
    dsimp only
    cases keyword? name with
    | some value => exact .ok _ hrest
    | none =>
      obtain ⟨rfl, rfl⟩ | ⟨token, _, _, behind, behind', rfl, rfl, hbehind⟩ := hrest.cases
      · exact .ok _ rfl
      · by_cases htoken : token = .lparen
        · subst htoken
          refine h.bind fun item item' hitem => ?_
          exact (arguments_agrees hx .rparen .argumentsEnd hitem behind behind' hbehind).bind
            fun es _ _ hes => .ok _ hes
        · cases token <;> first | exact absurd rfl htoken | exact .ok _ hrest
  | lparen =>
    refine h.bind fun inner inner' hinner => ?_
    refine (hinner ts ts' hrest).bind fun e rest rest' he => ?_
    exact (expect_agrees x x' .rparen .groupEnd rest rest' he).bind fun _ _ _ h => .ok _ h
  | lbracket =>
    refine h.bind fun item item' hitem => ?_
    exact (arguments_agrees hx .rbracket .listEnd hitem ts ts' hrest).bind fun es _ _ hes => .ok _ hes
  | _ => exact .error _ _

theorem operand_agrees (hx : x.count = x'.count) (h : DeeperAgrees deeper deeper') :
    Agrees (operand x deeper) (operand x' deeper') := by
  intro ts ts' hts
  have hnested : DeeperAgrees (fun position => (deeper position).map (expression x))
      (fun position => (deeper' position).map (expression x')) := by
    intro position position' reader hreader
    obtain ⟨u, hdeeper, rfl⟩ := map_eq_ok.1 hreader
    obtain ⟨u', hdeeper', hu⟩ := h position position' u hdeeper
    exact ⟨expression x' u', map_eq_ok.2 ⟨u', hdeeper', rfl⟩, expression_agrees hx hu⟩
  have hprimary := primary_agrees hx hnested ts ts' hts
  obtain ⟨rfl, rfl⟩ | ⟨token, _, _, rest, rest', rfl, rfl, hrest⟩ := hts.cases
  · exact hprimary
  · rw [operand, operand]
    dsimp only
    cases unaryOp? token with
    | none => exact hprimary
    | some op =>
      exact h.bind fun inner inner' hinner => (hinner rest rest' hrest).bind fun e _ _ he => .ok _ he

theorem unary_agrees (hx : x.count = x'.count) (depth : Nat) :
    Agrees (Parser.unary x depth) (Parser.unary x' depth) := by
  induction depth with
  | zero =>
    refine operand_agrees hx fun _ _ _ h => ?_
    cases h
  | succ depth ih =>
    refine operand_agrees hx fun _ _ _ h => ?_
    cases h
    exact ⟨_, rfl, ih⟩

end Readers

end Parser

/-! ### The whole text -/

namespace Token

open ShardedSql.Parser (SameTokens)

theorem next_displaced {position : Nat} {c : Char} {r : List Char} {found : Token × Nat × List Char}
    (h : next position c r = .ok found) (position' : Nat) : next position' c r = .ok found := by
  rw [next] at h ⊢
  by_cases hdigit : c.isDigit = true
  · rwa [if_pos hdigit] at h ⊢
  rw [if_neg hdigit] at h ⊢
  by_cases hident : isIdentStart c = true
  · rwa [if_pos hident] at h ⊢
  rw [if_neg hident] at h ⊢
  by_cases hquote : isQuote c = true
  · rw [if_pos hquote] at h ⊢
    cases hread : quotedFrom c [] c.utf8Size r with
    | none =>
      rw [hread] at h
      cases h
    | some read => rwa [hread] at h
  · rw [if_neg hquote] at h ⊢
    cases hread : operator? (c :: r) with
    | none =>
      rw [hread] at h
      cases h
    | some read => rwa [hread] at h

theorem scanFrom_displaced {fuel position : Nat} (position' : Nat) {seen seen' : List Placed}
    {cs : List Char} {s : Stream} (h : scanFrom fuel position seen cs = .ok s)
    (hseen : SameTokens seen seen') :
    ∃ s', scanFrom fuel position' seen' cs = .ok s' ∧ SameTokens s.tokens s'.tokens := by
  have hreverse : SameTokens seen.reverse seen'.reverse := by
    rw [SameTokens, List.map_reverse, List.map_reverse, hseen]
  induction fuel generalizing position position' seen seen' cs with
  | zero =>
    rw [scanFrom] at h ⊢
    · cases h
      exact ⟨_, rfl, hreverse⟩
    · simp
    · simp
  | succ fuel ih =>
    cases cs with
    | nil =>
      rw [scanFrom] at h ⊢
      · cases h
        exact ⟨_, rfl, hreverse⟩
      · simp
      · simp
    | cons c r =>
      rw [scanFrom] at h ⊢
      by_cases hspace : isSpace c = true
      · rw [if_pos hspace] at h ⊢
        exact ih _ h hseen hreverse
      · rw [if_neg hspace] at h ⊢
        obtain ⟨⟨t, n, rest⟩, hnext, h⟩ := bind_eq_ok.1 h
        rw [next_displaced hnext position']
        have hcons : SameTokens (⟨t, position⟩ :: seen) (⟨t, position'⟩ :: seen') :=
          congrArg (t :: ·) hseen
        refine ih _ h hcons ?_
        rw [SameTokens, List.map_reverse, List.map_reverse, hcons]

theorem scan_displaced {base : Nat} {text : String} {s : Stream} (h : scan base text = .ok s)
    (base' : Nat) : ∃ s', scan base' text = .ok s' ∧ SameTokens s.tokens s'.tokens := by
  obtain ⟨t, hscan, h⟩ := bind_eq_ok.1 h
  obtain ⟨t', hscan', htokens⟩ := scanFrom_displaced base' hscan (show SameTokens [] [] from rfl)
  have hempty : t'.tokens.isEmpty = t.tokens.isEmpty := by
    rw [← List.isEmpty_map (f := (·.token)), ← htokens, List.isEmpty_map]
  split at h
  · cases h
  · rename_i hfull
    cases h
    exact ⟨t', bind_eq_ok.2 ⟨t', hscan', by rw [hempty, if_neg hfull]⟩, htokens⟩

end Token

open ShardedSql.Parser in
/-- A text is the same tree at every offset. -/
theorem Expr.parse_displaced {text : String} {base : Nat} {e : Expr}
    (h : Expr.parse text base = .ok e) (base' : Nat) : Expr.parse text base' = .ok e := by
  obtain ⟨s, hscan, h⟩ := bind_eq_ok.1 h
  obtain ⟨⟨e', rest⟩, hread, h⟩ := bind_eq_ok.1 h
  obtain ⟨s', hscan', htokens⟩ := Token.scan_displaced hscan base'
  have hcount : s.tokens.length = s'.tokens.length := by
    simpa using congrArg List.length htokens
  let x : Extent := ⟨s.stop, s.tokens.length⟩
  let x' : Extent := ⟨s'.stop, s'.tokens.length⟩
  have hagrees : Agrees (expression x (Parser.unary x maxDepth)) (expression x' (Parser.unary x' maxDepth)) :=
    expression_agrees hcount (unary_agrees hcount maxDepth)
  obtain ⟨rest', hread', hrest⟩ := hagrees s.tokens s'.tokens htokens e' rest hread
  refine bind_eq_ok.2 ⟨s', hscan', bind_eq_ok.2 ⟨(e', rest'), hread', ?_⟩⟩
  obtain ⟨rfl, rfl⟩ | ⟨_, _, _, _, _, rfl, -, -⟩ := hrest.cases
  · exact h
  · cases h

end ShardedSql
