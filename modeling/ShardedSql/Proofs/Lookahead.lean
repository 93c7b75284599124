import ShardedSql.Proofs.Grammar
import ShardedSql.Proofs.Success

/-! Readers look at the tokens they take and at the one behind them, and no further. So what they give does not
depend on what stands farther behind, and where they refuse a token they refuse it whatever follows, while
without it they only miss the rest. Neither does it depend on the number of tokens that they are told, as long
as that is no smaller than what they read. -/

namespace ShardedSql.Parser

/-- The second list is empty or begins like the first one. -/
def Follows (rest rest' : List Token.Placed) : Prop := ∀ t ∈ rest'.head?, t ∈ rest.head?

/-- The tokens that an error is about. -/
inductive Refused : List Token.Placed → ExprError → Prop
  | unexpected (t : Token.Placed) (expected : Expectation) :
      Refused [t] (.unexpected expected t.token.text t.position)
  | number {digits : String} (position : Nat)
      (h : ((Text.digits? digits.toList).bind fun n => Text.fit64 n) = none) :
      Refused [⟨.number digits, position⟩] (.invalidNumber digits position)
  | unary {t : Token.Placed} {op : UnaryOp} (h : unaryOp? t.token = some op) :
      Refused [t] (.tooDeep maxDepth t.position)
  | group (position : Nat) : Refused [⟨.lparen, position⟩] (.tooDeep maxDepth position)
  | list (position : Nat) : Refused [⟨.lbracket, position⟩] (.tooDeep maxDepth position)
  | call {name : String} (position position' : Nat) (h : keyword? name = none) :
      Refused [⟨.ident name, position⟩, ⟨.lparen, position'⟩] (.tooDeep maxDepth position)
  | trailing (t : Token.Placed) : Refused [t] (.trailing t.position)

theorem Refused.ne_nil {word : List Token.Placed} {e : ExprError} (h : Refused word e) : word ≠ [] := by
  cases h <;> simp

/-- The refusal of a text that ends too early. -/
def ended (expected : Expectation) (stop : Nat) : ExprError := .unexpected expected "end of input" stop

section Follows

variable {rest rest' : List Token.Placed}

theorem Follows.append (h : Follows rest rest') (front : List Token.Placed) :
    Follows (front ++ rest) (front ++ rest') := by
  cases front with
  | nil => exact h
  | cons t front => exact fun u hu => hu

theorem Follows.refl (rest : List Token.Placed) : Follows rest rest := fun _ h => h

theorem follows_nil (rest : List Token.Placed) : Follows rest [] := by simp [Follows]

theorem follows_append {word : List Token.Placed} (hne : word ≠ []) (behind behind' : List Token.Placed) :
    Follows (word ++ behind) (word ++ behind') := by
  cases word with
  | nil => exact absurd rfl hne
  | cons t word => exact fun u hu => hu

end Follows

section Local

variable {α β : Type} {n k k' : Nat}

/-- Behind some tokens the reader needs more, and there it refuses the next ones, whatever follows them, or
there are none. It is told how many tokens more there are than the bound of its loops asks for, and the offset
of the end of the text. -/
def Refuses (R : Nat → Nat → Reader α) (stop : Nat) (ts : List Token.Placed) (e : ExprError) : Prop :=
  ∃ front expected, (∀ more stop', R more stop' front = .error (ended expected stop')) ∧
    (ts = front ∧ e = ended expected stop ∨ ∃ word behind, ts = front ++ (word ++ behind) ∧ Refused word e ∧
      ∀ more stop' behind', R more stop' (front ++ (word ++ behind')) = .error e)

/-- On up to `n` tokens the reader takes at least `k`, and those whatever stands behind them but for the next
token. -/
structure Local (n k : Nat) (R : Nat → Nat → Reader α) : Prop where
  reads : ∀ {stop ts a rest}, ts.length ≤ n → R 0 stop ts = .ok (a, rest) → ∃ front, ts = front ++ rest ∧
    k ≤ front.length ∧ ∀ more stop' rest', Follows rest rest' → R more stop' (front ++ rest') = .ok (a, rest')
  fails : ∀ {stop ts e}, ts.length ≤ n → R 0 stop ts = .error e → Refuses R stop ts e

/-- What a reader does behind its first token, which it may refuse together with the ones that follow. -/
structure Starts (n : Nat) (t : Token.Placed) (H : Nat → Nat → Reader α) : Prop where
  reads : ∀ {stop ts a rest}, ts.length ≤ n → H 0 stop ts = .ok (a, rest) → ∃ front, ts = front ++ rest ∧
    ∀ more stop' rest', Follows rest rest' → H more stop' (front ++ rest') = .ok (a, rest')
  fails : ∀ {stop ts e}, ts.length ≤ n → H 0 stop ts = .error e →
    (∃ word behind, ts = word ++ behind ∧ Refused (t :: word) e ∧
      ∀ more stop' behind', H more stop' (word ++ behind') = .error e) ∨ Refuses H stop ts e

theorem Local.mono {R : Nat → Nat → Reader α} (h : Local n k R) {n' k' : Nat} (hn : n' ≤ n) (hk : k' ≤ k) :
    Local n' k' R := by
  refine ⟨fun hts hrun => ?_, fun hts hrun => h.fails (hts.trans hn) hrun⟩
  obtain ⟨front, hfront, htaken, hall⟩ := h.reads (hts.trans hn) hrun
  exact ⟨front, hfront, hk.trans htaken, hall⟩

/-- A number of tokens that is larger than needed changes nothing. -/
theorem Local.same {R : Nat → Nat → Reader α} (h : Local n k R) {stop : Nat} {ts : List Token.Placed}
    (hts : ts.length ≤ n) (more : Nat) : R more stop ts = R 0 stop ts := by
  cases hrun : R 0 stop ts with
  | ok p =>
    obtain ⟨front, rfl, -, hall⟩ := h.reads hts hrun
    exact hall more stop p.2 (.refl _)
  | error e =>
    obtain ⟨front, expected, hshort, ⟨rfl, rfl⟩ | ⟨word, behind, rfl, -, hall⟩⟩ := h.fails hts hrun
    · exact hshort more stop
    · exact hall more stop behind

theorem Local.ok (n : Nat) (a : α) : Local n 0 fun _ _ ts => .ok (a, ts) := by
  constructor
  · intro stop ts b rest _ h
    cases h
    exact ⟨[], rfl, le_rfl, fun _ _ _ _ => rfl⟩
  · intro stop ts e _ h
    cases h

theorem Local.bind {R : Nat → Nat → Reader α} {K : α → Nat → Nat → Reader β} (h : Local n k R)
    (hk : ∀ a, Local (n - k) k' (K a)) :
    Local n (k + k') fun more stop ts => R more stop ts >>= fun p => K p.1 more stop p.2 := by
  constructor
  case reads =>
    intro stop ts b rest hts hrun
    obtain ⟨⟨a, middle⟩, ha, hb⟩ := bind_eq_ok.1 hrun
    obtain ⟨front, rfl, htaken, hfront⟩ := h.reads hts ha
    rw [List.length_append] at hts
    have hmiddle : middle.length ≤ n - k := by omega
    obtain ⟨front', rfl, htaken', hfront'⟩ := (hk a).reads hmiddle hb
    refine ⟨front ++ front', by rw [List.append_assoc], by rw [List.length_append]; omega,
      fun more stop' rest' hrest => ?_⟩
    rw [List.append_assoc]
    exact bind_eq_ok.2 ⟨_, hfront more stop' _ (hrest.append front'), hfront' more stop' rest' hrest⟩
  case fails =>
    intro stop ts e hts hrun
    obtain ha | ⟨⟨a, middle⟩, ha, hb⟩ := bind_eq_error.1 hrun
    · obtain ⟨front, expected, hshort, hcases⟩ := h.fails hts ha
      refine ⟨front, expected, fun more stop' => bind_eq_error.2 (.inl (hshort more stop')),
        hcases.imp_right ?_⟩
      rintro ⟨word, behind, hsplit, hword, hall⟩
      exact ⟨word, behind, hsplit, hword,
        fun more stop' behind' => bind_eq_error.2 (.inl (hall more stop' behind'))⟩
    · obtain ⟨front, rfl, htaken, hfront⟩ := h.reads hts ha
      rw [List.length_append] at hts
      have hmiddle : middle.length ≤ n - k := by omega
      obtain ⟨front', expected, hshort, hcases⟩ := (hk a).fails hmiddle hb
      refine ⟨front ++ front', expected, fun more stop' => ?_, ?_⟩
      · -- The first reader stops where it stopped, for what is left begins as it began.
        have hfollows : Follows middle front' := by
          obtain ⟨rfl, -⟩ | ⟨word, behind, rfl, -⟩ := hcases
          · exact .refl _
          · have hnil := (follows_nil (word ++ behind)).append front'
            rwa [List.append_nil] at hnil
        exact bind_eq_error.2 (.inr ⟨_, hfront more stop' front' hfollows, hshort more stop'⟩)
      · obtain ⟨rfl, rfl⟩ | ⟨word, behind, rfl, hword, hall⟩ := hcases
        · exact .inl ⟨rfl, rfl⟩
        · refine .inr ⟨word, behind, by rw [List.append_assoc], hword, fun more stop' behind' => ?_⟩
          have hfollows := (follows_append hword.ne_nil behind behind').append front'
          rw [List.append_assoc]
          exact bind_eq_error.2 (.inr ⟨_, hfront more stop' _ hfollows, hall more stop' behind'⟩)

/-- What a reader goes on with depends on the next token, which it takes or leaves. -/
def branch (f : Token → Option β) (take : β → Reader α) (leave : Reader α) : Reader α
  | [] => leave []
  | t :: rest =>
    match f t.token with
    | some b => take b rest
    | none => leave (t :: rest)

section Branch

variable {f : Token → Option β} {take : β → Reader α} {leave : Reader α}

theorem branch_take {t : Token.Placed} {b : β} (h : f t.token = some b) (rest : List Token.Placed) :
    branch f take leave (t :: rest) = take b rest := by
  rw [branch, h]

theorem branch_leave {ts : List Token.Placed} (h : ∀ t ∈ ts.head?, f t.token = none) :
    branch f take leave ts = leave ts := by
  cases ts with
  | nil => rfl
  | cons t rest => rw [branch, h t rfl]

/-- The next token is taken, or it is left or there is none. -/
theorem head_cases (f : Token → Option β) (ts : List Token.Placed) : (∀ t ∈ ts.head?, f t.token = none) ∨
    ∃ t rest b, ts = t :: rest ∧ f t.token = some b := by
  cases ts with
  | nil => exact .inl (by simp)
  | cons t rest =>
    cases hf : f t.token with
    | none => exact .inl (by simp [hf])
    | some b => exact .inr ⟨t, rest, b, rfl, hf⟩

theorem Follows.leaves {ts ts' : List Token.Placed} (h : Follows ts ts')
    (hnone : ∀ t ∈ ts.head?, f t.token = none) : ∀ t ∈ ts'.head?, f t.token = none :=
  fun t ht => hnone t (h t ht)

end Branch

theorem Local.branch {f : Token → Option β} {take : β → Nat → Nat → Reader α} {leave : Nat → Nat → Reader α}
    (htake : ∀ b, Local (n - 1) (k - 1) (take b)) (hleave : Local n k leave) :
    Local n k fun more stop => Parser.branch f (fun b => take b more stop) (leave more stop) := by
  constructor
  case reads =>
    intro stop ts a rest hts hrun
    obtain hnone | ⟨t, behind, b, rfl, hf⟩ := head_cases f ts
    · rw [branch_leave hnone] at hrun
      obtain ⟨front, rfl, htaken, hfront⟩ := hleave.reads hts hrun
      refine ⟨front, rfl, htaken, fun more stop' rest' hrest => ?_⟩
      rw [branch_leave ((hrest.append front).leaves hnone)]
      exact hfront more stop' rest' hrest
    · rw [branch_take hf] at hrun
      rw [List.length_cons] at hts
      obtain ⟨front, rfl, htaken, hfront⟩ := (htake b).reads (by omega) hrun
      refine ⟨t :: front, rfl, by rw [List.length_cons]; omega, fun more stop' rest' hrest => ?_⟩
      rw [List.cons_append, branch_take hf]
      exact hfront more stop' rest' hrest
  case fails =>
    intro stop ts e hts hrun
    obtain hnone | ⟨t, behind, b, rfl, hf⟩ := head_cases f ts
    · rw [branch_leave hnone] at hrun
      obtain ⟨front, expected, hshort, ⟨rfl, rfl⟩ | ⟨word, behind, rfl, hword, hall⟩⟩ := hleave.fails hts hrun
      · exact ⟨ts, expected, fun more stop' => (branch_leave hnone).trans (hshort more stop'), .inl ⟨rfl, rfl⟩⟩
      · have hfront := (follows_nil (word ++ behind)).append front
        rw [List.append_nil] at hfront
        refine ⟨front, expected, fun more stop' => ?_,
          .inr ⟨word, behind, rfl, hword, fun more stop' behind' => ?_⟩⟩
        · exact (branch_leave (hfront.leaves hnone)).trans (hshort more stop')
        · have hfollows := (follows_append hword.ne_nil behind behind').append front
          exact (branch_leave (hfollows.leaves hnone)).trans (hall more stop' behind')
    · rw [branch_take hf] at hrun
      rw [List.length_cons] at hts
      obtain ⟨front, expected, hshort, hcases⟩ := (htake b).fails (by omega) hrun
      refine ⟨t :: front, expected, fun more stop' => (branch_take hf front).trans (hshort more stop'), ?_⟩
      obtain ⟨rfl, rfl⟩ | ⟨word, behind, rfl, hword, hall⟩ := hcases
      · exact .inl ⟨rfl, rfl⟩
      · exact .inr ⟨word, behind, rfl, hword,
          fun more stop' behind' => (branch_take hf _).trans (hall more stop' behind')⟩

theorem Local.starts {H : Nat → Nat → Reader α} (h : Local n k H) (t : Token.Placed) : Starts n t H := by
  refine ⟨fun hts hrun => ?_, fun hts hrun => .inr (h.fails hts hrun)⟩
  obtain ⟨front, hfront, -, hall⟩ := h.reads hts hrun
  exact ⟨front, hfront, hall⟩

theorem Refused.starts {t : Token.Placed} {e : ExprError} (h : Refused [t] e) :
    Starts (α := α) n t fun _ _ _ => .error e := by
  constructor
  · intro stop ts a rest _ hrun
    cases hrun
  · intro stop ts e' _ hrun
    cases hrun
    exact .inl ⟨[], ts, rfl, h, fun _ _ _ => rfl⟩

/-- A reader that needs a token. -/
theorem Local.of_starts {R : Nat → Nat → Reader α} {expected : Expectation}
    (hnil : ∀ more stop, R more stop [] = .error (ended expected stop))
    (hcons : ∀ t, Starts (n - 1) t fun more stop rest => R more stop (t :: rest)) : Local n 1 R := by
  constructor
  case reads =>
    intro stop ts a rest hts hrun
    cases ts with
    | nil =>
      rw [hnil] at hrun
      cases hrun
    | cons t ts =>
      rw [List.length_cons] at hts
      obtain ⟨front, rfl, hfront⟩ := (hcons t).reads (by omega) hrun
      exact ⟨t :: front, rfl, by simp, hfront⟩
  case fails =>
    intro stop ts e hts hrun
    cases ts with
    | nil =>
      rw [hnil] at hrun
      cases hrun
      exact ⟨[], expected, hnil, .inl ⟨rfl, rfl⟩⟩
    | cons t ts =>
      rw [List.length_cons] at hts
      obtain ⟨word, behind, rfl, hword, hall⟩ | ⟨front, expected', hshort, hcases⟩ :=
        (hcons t).fails (by omega) hrun
      · exact ⟨[], expected, hnil, .inr ⟨t :: word, behind, rfl, hword, hall⟩⟩
      · refine ⟨t :: front, expected', hshort, ?_⟩
        obtain ⟨rfl, rfl⟩ | ⟨word, behind, rfl, hword, hall⟩ := hcases
        · exact .inl ⟨rfl, rfl⟩
        · exact .inr ⟨word, behind, rfl, hword, hall⟩

/-- Without a token a reader that takes some refuses, and so do the readers that begin with it. -/
theorem Local.of_nil {R : Nat → Nat → Reader α} (h : Local n (k + 1) R) {S : Nat → Nat → Reader β}
    (hfirst : ∀ more stop e, R more stop [] = .error e → S more stop [] = .error e) : Local 0 k' S := by
  obtain ⟨expected, hshort⟩ : ∃ expected, ∀ more stop, R more stop [] = .error (ended expected stop) := by
    cases hrun : R 0 0 [] with
    | ok p =>
      obtain ⟨front, hfront, htaken, -⟩ := h.reads (Nat.zero_le _) hrun
      rw [(List.append_eq_nil_iff.1 hfront.symm).1] at htaken
      cases htaken
    | error e =>
      obtain ⟨front, expected, hshort, hcases⟩ := h.fails (Nat.zero_le _) hrun
      have hnil : front = [] := by
        obtain ⟨rfl, -⟩ | ⟨word, behind, hsplit, -⟩ := hcases
        · rfl
        · exact (List.append_eq_nil_iff.1 hsplit.symm).1
      subst hnil
      exact ⟨expected, hshort⟩
  have hS : ∀ more stop, S more stop [] = .error (ended expected stop) :=
    fun more stop => hfirst more stop _ (hshort more stop)
  constructor
  · intro stop ts a rest hts hrun
    obtain rfl := List.length_eq_zero_iff.1 (Nat.le_zero.1 hts)
    rw [hS] at hrun
    cases hrun
  · intro stop ts e hts hrun
    obtain rfl := List.length_eq_zero_iff.1 (Nat.le_zero.1 hts)
    rw [hS] at hrun
    cases hrun
    exact ⟨[], expected, hS, .inl ⟨rfl, rfl⟩⟩

end Local

/-! ### The readers -/

section Branches

variable {x : Extent} {reader : Reader Expr}

/-- Takes just this token. -/
def only (token t : Token) : Option Unit := if t = token then some () else none

theorem eq_of_only {token t : Token} {u : Unit} (h : only token t = some u) : t = token := by
  by_contra hne
  rw [only, if_neg hne] at h
  cases h

theorem chainFrom_succ (level : Level) (fuel : Nat) (left : Expr) :
    chainFrom level reader (fuel + 1) left = branch level (fun op ts => reader ts >>= fun p =>
      chainFrom level reader fuel (.binary op left p.1) p.2) fun ts => .ok (left, ts) := by
  funext ts
  cases ts with
  | nil => rfl
  | cons t rest =>
    rw [chainFrom, branch]
    cases level t.token <;> rfl

theorem range_eq : range reader = fun ts => reader ts >>= fun p =>
    branch (only .dotDot) (fun _ ts => reader ts >>= fun q => .ok (.range p.1 q.1, q.2))
      (fun ts => .ok (p.1, ts)) p.2 := by
  funext ts
  refine bind_congr fun p => ?_
  obtain ⟨first, _ | ⟨⟨token, _⟩, rest⟩⟩ := p
  · rfl
  · cases token <;> rfl

theorem conditionalFrom_succ (fuel : Nat) : conditionalFrom x reader (fuel + 1) = fun ts =>
    condition x reader ts >>= fun p =>
      branch (only .question) (fun _ ts => conditionalFrom x reader fuel ts >>= fun q =>
        expect x .colon .colon q.2 >>= fun u => conditionalFrom x reader fuel u.2 >>= fun v =>
          .ok (.conditional p.1 q.1 v.1, v.2)) (fun ts => .ok (p.1, ts)) p.2 := by
  funext ts
  rw [conditionalFrom]
  refine bind_congr fun p => ?_
  obtain ⟨test, _ | ⟨⟨token, _⟩, rest⟩⟩ := p
  · rfl
  · cases token <;> rfl

theorem argumentsFrom_succ (close : Token) (expected : Expectation) (fuel : Nat) :
    argumentsFrom x close expected reader (fuel + 1) = fun ts => reader ts >>= fun p =>
      branch (only .comma) (fun _ ts => argumentsFrom x close expected reader fuel ts >>= fun q =>
        .ok (p.1 :: q.1, q.2))
        (fun ts => expect x close expected ts >>= fun q => .ok ([p.1], q.2)) p.2 := by
  funext ts
  rw [argumentsFrom]
  refine bind_congr fun p => ?_
  obtain ⟨e, _ | ⟨⟨token, _⟩, rest⟩⟩ := p
  · rfl
  · cases token <;> rfl

theorem arguments_eq (close : Token) (expected : Expectation) : arguments x close expected reader =
    branch (only close) (fun _ ts => .ok ([], ts)) (argumentsFrom x close expected reader (x.count + 1)) := by
  funext ts
  cases ts with
  | nil => rfl
  | cons t rest =>
    rw [arguments, branch, only]
    split <;> rfl

theorem name_eq {nested : Nat → Except ExprError (Reader Expr)} {name : String} (position : Nat)
    (hname : keyword? name = none) (ts : List Token.Placed) :
    primary x nested (⟨.ident name, position⟩ :: ts) =
      branch (only .lparen) (fun _ ts => nested position >>= fun item =>
        arguments x .rparen .argumentsEnd item ts >>= fun q => .ok (.call name q.1, q.2))
        (fun ts => .ok (.var name, ts)) ts := by
  simp only [primary, hname]
  obtain _ | ⟨⟨token, _⟩, rest⟩ := ts
  · rfl
  · cases token <;> rfl

end Branches

section Readers

variable {n : Nat} {R : Nat → Nat → Reader Expr}

theorem expect_local (n count : Nat) (token : Token) (expected : Expectation) :
    Local n 1 fun more stop => expect ⟨stop, count + more⟩ token expected := by
  refine .of_starts (fun more stop => rfl) fun t => ?_
  by_cases ht : t.token = token
  · simp only [expect, if_pos ht]
    exact (Local.ok _ ()).starts t
  · simp only [expect, if_neg ht]
    exact (Refused.unexpected t expected).starts

/-- Every round takes a token, so that as many rounds as there are tokens will do. -/
theorem chainFrom_local (level : Level) (h : Local n 1 R) {m fuel : Nat} (hm : m ≤ n) (hfuel : m ≤ fuel)
    (left : Expr) : Local m 0 fun more stop => chainFrom level (R more stop) (fuel + more) left := by
  induction m using Nat.strong_induction_on generalizing fuel left with
  | h m ih =>
    obtain _ | m := m
    · have hnil : ∀ (r : Reader Expr) fuel, chainFrom level r fuel left [] = .ok (left, []) := by
        intro r fuel
        cases fuel <;> rfl
      refine ⟨fun hts hrun => ?_, fun hts hrun => ?_⟩ <;>
        obtain rfl := List.length_eq_zero_iff.1 (Nat.le_zero.1 hts) <;> rw [hnil] at hrun <;> cases hrun
      refine ⟨[], rfl, le_rfl, fun more stop' rest' hrest => ?_⟩
      cases rest' with
      | nil => exact hnil _ _
      | cons t rest' => exact nomatch hrest t rfl
    · obtain _ | fuel := fuel
      · omega
      simp only [Nat.succ_add, chainFrom_succ]
      have hlink : Local m 1 R := h.mono (by omega) le_rfl
      refine .branch (fun op => ?_) (.ok _ left)
      exact (hlink.bind fun right => ih (m - 1) (by omega) (by omega) (by omega)
        (.binary op left right)).mono le_rfl (Nat.zero_le _)

theorem chain_local (level : Level) (h : Local n 1 R) {count : Nat} (hn : n ≤ count) :
    Local n 1 fun more stop => chain ⟨stop, count + more⟩ level (R more stop) :=
  h.bind fun left => chainFrom_local level h (Nat.sub_le n 1) (by omega) left

theorem range_local (h : Local n 1 R) : Local n 1 fun more stop => range (R more stop) := by
  have hsecond : ∀ first, Local (n - 1 - 1) 1 fun more stop ts => R more stop ts >>= fun q =>
      .ok (Expr.range first q.1, q.2) :=
    fun first => (h.mono (by omega) le_rfl).bind fun last => .ok _ (Expr.range first last)
  simp only [range_eq]
  exact h.bind fun first => .branch (fun _ => (hsecond first).mono le_rfl (Nat.zero_le _)) (.ok _ first)

theorem condition_local (h : Local n 1 R) {count : Nat} (hn : n ≤ count) :
    Local n 1 fun more stop => condition ⟨stop, count + more⟩ (R more stop) :=
  chain_local _ (chain_local _ (chain_local _ (chain_local _ (range_local (chain_local _ (chain_local _ h
    hn) hn)) hn) hn) hn) hn

theorem conditionalFrom_local (h : Local n 1 R) {count : Nat} (hn : n ≤ count) {m fuel : Nat} (hm : m ≤ n)
    (hfuel : m ≤ fuel) :
    Local m 1 fun more stop => conditionalFrom ⟨stop, count + more⟩ (R more stop) (fuel + more) := by
  induction m using Nat.strong_induction_on generalizing fuel with
  | h m ih =>
    have hcondition : Local m 1 fun more stop => condition ⟨stop, count + more⟩ (R more stop) :=
      (condition_local h hn).mono hm le_rfl
    obtain _ | m := m
    · refine hcondition.of_nil fun more stop e he => ?_
      generalize fuel + more = fuel'
      obtain _ | fuel' := fuel'
      · exact he
      · rw [conditionalFrom, he]
        rfl
    · obtain _ | fuel := fuel
      · omega
      have hbranch : ∀ m' ≤ m, Local m' 1 fun more stop =>
          conditionalFrom ⟨stop, count + more⟩ (R more stop) (fuel + more) :=
        fun m' hm' => ih m' (by omega) (by omega) (by omega)
      have hbehind : ∀ test yes, Local (m + 1 - 1 - 1 - 1) 1 fun more stop ts =>
          expect ⟨stop, count + more⟩ .colon .colon ts >>= fun u =>
            conditionalFrom ⟨stop, count + more⟩ (R more stop) (fuel + more) u.2 >>= fun v =>
              .ok (Expr.conditional test yes v.1, v.2) :=
        fun test yes => ((expect_local _ count .colon .colon).bind fun _ =>
          (hbranch _ (by omega)).bind fun no => .ok _ (Expr.conditional test yes no)).mono le_rfl (by omega)
      simp only [Nat.succ_add, conditionalFrom_succ]
      exact hcondition.bind fun test => .branch
        (fun _ => ((hbranch (m + 1 - 1 - 1) (by omega)).bind (hbehind test)).mono le_rfl (Nat.zero_le _))
        (.ok _ test)

theorem expression_local (h : Local n 1 R) {count : Nat} (hn : n ≤ count) :
    Local n 1 fun more stop => expression ⟨stop, count + more⟩ (R more stop) :=
  conditionalFrom_local h hn le_rfl hn

theorem argumentsFrom_local (close : Token) (expected : Expectation) (h : Local n 1 R) (count : Nat)
    {m fuel : Nat} (hm : m ≤ n) (hfuel : m < fuel) : Local m 1 fun more stop =>
      argumentsFrom ⟨stop, count + more⟩ close expected (R more stop) (fuel + more) := by
  induction m using Nat.strong_induction_on generalizing fuel with
  | h m ih =>
    obtain _ | fuel := fuel
    · omega
    have hitem : Local m 1 R := h.mono hm le_rfl
    simp only [Nat.succ_add, argumentsFrom_succ]
    obtain _ | m := m
    · refine hitem.of_nil fun more stop e he => ?_
      rw [he]
      rfl
    · have hlast : ∀ e : Expr, Local (m + 1 - 1) 0 fun more stop ts =>
          expect ⟨stop, count + more⟩ close expected ts >>= fun q => .ok ([e], q.2) :=
        fun e => ((expect_local _ count close expected).bind fun _ => .ok _ [e]).mono le_rfl (Nat.zero_le _)
      have hmore : Local (m + 1 - 1 - 1) 1 fun more stop =>
          argumentsFrom ⟨stop, count + more⟩ close expected (R more stop) (fuel + more) :=
        ih _ (by omega) (by omega) (by omega)
      exact hitem.bind fun e => .branch
        (fun _ => (hmore.bind fun es => .ok _ (e :: es)).mono le_rfl (Nat.zero_le _)) (hlast e)

theorem arguments_local (close : Token) (expected : Expectation) (h : Local n 1 R) {count : Nat}
    (hn : n ≤ count) :
    Local n 1 fun more stop => arguments ⟨stop, count + more⟩ close expected (R more stop) := by
  have hitems : Local n 1 fun more stop =>
      argumentsFrom ⟨stop, count + more⟩ close expected (R more stop) (count + more + 1) := by
    simp only [Nat.add_right_comm count _ 1]
    exact argumentsFrom_local close expected h count le_rfl (Nat.lt_succ_of_le hn)
  simp only [arguments_eq]
  exact .branch (fun _ => .ok _ []) hitems

/-- The readers one level deeper: there are none, or they look no farther than others. -/
def Deeper (n : Nat) (nested : Nat → Nat → Nat → Except ExprError (Reader Expr)) : Prop :=
  (∀ more stop position, nested more stop position = .error (.tooDeep maxDepth position)) ∨
    ∃ R : Nat → Nat → Reader Expr, Local n 1 R ∧
      ∀ more stop position, nested more stop position = .ok (R more stop)

variable {nested deeper : Nat → Nat → Nat → Except ExprError (Reader Expr)}

theorem Deeper.starts {α : Type} (h : Deeper n nested) {m k : Nat} {t : Token.Placed}
    (ht : Refused [t] (.tooDeep maxDepth t.position)) {K : Nat → Nat → Reader Expr → Reader α}
    (hk : ∀ R : Nat → Nat → Reader Expr, Local n 1 R → Local m k fun more stop => K more stop (R more stop)) :
    Starts m t fun more stop ts => nested more stop t.position >>= fun reader => K more stop reader ts := by
  obtain h | ⟨R, hR, h⟩ := h
  · simp only [h]
    exact ht.starts
  · simp only [h]
    exact (hk R hR).starts t

/-- A name is a call when a parenthesis follows. -/
theorem name_starts (h : Deeper n nested) {count : Nat} (hn : n ≤ count) {name : String} (position : Nat)
    (hname : keyword? name = none) : Starts (n - 1) ⟨.ident name, position⟩ fun more stop rest =>
      primary ⟨stop, count + more⟩ (nested more stop) (⟨.ident name, position⟩ :: rest) := by
  simp only [name_eq position hname]
  obtain h | ⟨R, hR, h⟩ := h
  · -- The parenthesis is refused together with the name before it.
    simp only [h]
    constructor
    case reads =>
      intro stop ts a rest _ hrun
      obtain hnone | ⟨t, behind, _, rfl, hf⟩ := head_cases (only .lparen) ts
      · rw [branch_leave hnone] at hrun
        cases hrun
        refine ⟨[], rfl, fun more stop' rest' hrest => ?_⟩
        rw [List.nil_append, branch_leave (hrest.leaves hnone)]
      · rw [branch_take hf] at hrun
        cases hrun
    case fails =>
      intro stop ts e _ hrun
      obtain hnone | ⟨⟨token, position'⟩, behind, _, rfl, hf⟩ := head_cases (only .lparen) ts
      · rw [branch_leave hnone] at hrun
        cases hrun
      · obtain rfl : token = .lparen := eq_of_only hf
        rw [branch_take hf] at hrun
        cases hrun
        exact .inl ⟨[⟨.lparen, position'⟩], behind, rfl, .call position position' hname, fun _ _ _ => rfl⟩
  · simp only [h]
    have harguments : Local (n - 1 - 1) 1 fun more stop ts =>
        arguments ⟨stop, count + more⟩ .rparen .argumentsEnd (R more stop) ts >>= fun q =>
          .ok (Expr.call name q.1, q.2) :=
      ((arguments_local .rparen .argumentsEnd hR hn).mono (by omega) le_rfl).bind fun es =>
        .ok _ (Expr.call name es)
    exact Local.starts (.branch (fun _ => harguments.mono le_rfl (Nat.zero_le _)) (.ok _ (Expr.var name))) _

theorem primary_starts (h : Deeper n nested) {count : Nat} (hn : n ≤ count) (t : Token.Placed) :
    Starts (n - 1) t fun more stop rest => primary ⟨stop, count + more⟩ (nested more stop) (t :: rest) := by
  obtain ⟨token, position⟩ := t
  cases token with
  | number digits =>
    simp only [primary, number]
    cases hfit : (Text.digits? digits.toList).bind fun n => Text.fit64 n with
    | none => exact (Refused.number position hfit).starts
    | some n => exact (Local.ok _ (Expr.literal (.int n))).starts _
  | str text => exact (Local.ok _ (Expr.literal (.str text))).starts _
  | ident name =>
    cases hname : keyword? name with
    | some v =>
      simp only [primary, hname]
      exact (Local.ok _ (Expr.literal v)).starts _
    | none => exact name_starts h hn position hname
  | lparen =>
    have hclose : ∀ e : Expr, Local (n - 1 - 1) 1 fun more stop ts =>
        expect ⟨stop, count + more⟩ .rparen .groupEnd ts >>= fun u => .ok (e, u.2) :=
      fun e => (expect_local _ count .rparen .groupEnd).bind fun _ => .ok _ e
    exact h.starts (.group position) fun R hR => (hR.mono (Nat.sub_le n 1) le_rfl).bind hclose
  | lbracket =>
    exact h.starts (.list position) fun R hR =>
      ((arguments_local .rbracket .listEnd hR hn).mono (Nat.sub_le n 1) le_rfl).bind fun es =>
        .ok _ (Expr.list es)
  | _ => exact (Refused.unexpected _ .operand).starts

theorem operand_local (h : Deeper n deeper) {count : Nat} (hn : n ≤ count) :
    Local n 1 fun more stop => operand ⟨stop, count + more⟩ (deeper more stop) := by
  have hnested : Deeper n fun more stop position =>
      (deeper more stop position).map (expression ⟨stop, count + more⟩) := by
    obtain h | ⟨R, hR, h⟩ := h
    · exact .inl fun more stop position => by simp only [h, Except.map]
    · exact .inr ⟨fun more stop => expression ⟨stop, count + more⟩ (R more stop), expression_local hR hn,
        fun more stop position => by simp only [h, Except.map]⟩
  refine .of_starts (fun more stop => rfl) fun t => ?_
  cases hop : unaryOp? t.token with
  | none =>
    simp only [operand, hop]
    exact primary_starts hnested hn t
  | some op =>
    simp only [operand, hop]
    exact h.starts (.unary hop) fun R hR => (hR.mono (Nat.sub_le n 1) le_rfl).bind fun e =>
      .ok _ (Expr.unary op e)

theorem unary_local {count : Nat} (hn : n ≤ count) (depth : Nat) :
    Local n 1 fun more stop => unary ⟨stop, count + more⟩ depth := by
  induction depth with
  | zero => exact operand_local (.inl fun _ _ _ => rfl) hn
  | succ depth ih => exact operand_local (.inr ⟨_, ih, fun _ _ _ => rfl⟩) hn

end Readers

end ShardedSql.Parser
