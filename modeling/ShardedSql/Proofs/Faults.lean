import ShardedSql.Proofs.Lookahead
import ShardedSql.Proofs.Walks

/-! An expression is refused for what stands at the offset that the error names: the text before it is an
expression or the beginning of one, and with the refused construct behind it the same error comes. -/

namespace ShardedSql

/-- The offset that an error names. -/
def ExprError.position? : ExprError → Option Nat
  | .tooDeep _ p | .unexpected _ _ p | .unterminatedString p | .unterminatedPlaceholder p
  | .invalidNumber _ p | .trailing p => some p
  | _ => none

namespace Parser

/-! ### Tokens -/

/-- All tokens as one expression. -/
def complete : Expr × List Token.Placed → Except ExprError Expr
  | (e, []) => .ok e
  | (_, t :: _) => .error (.trailing t.position)

/-- Reads the tokens of a text that ends at the offset. -/
def whole (stop : Nat) (ts : List Token.Placed) : Except ExprError Expr :=
  expression ⟨stop, ts.length⟩ (unary ⟨stop, ts.length⟩ maxDepth) ts >>= complete

/-- The tokens are an expression, or the beginning of one. -/
def BeginsWell (ts : List Token.Placed) : Prop :=
  (∃ e, ∀ stop, whole stop ts = .ok e) ∨ ∃ expected, ∀ stop, whole stop ts = .error (ended expected stop)

theorem expression_whole (n : Nat) : Local n 1 fun more stop =>
    expression ⟨stop, n + more⟩ (unary ⟨stop, n + more⟩ maxDepth) :=
  expression_local (unary_local le_rfl maxDepth) le_rfl

theorem whole_eq {ts : List Token.Placed} (n : Nat) (hn : ts.length ≤ n) (stop : Nat) :
    whole stop ts = expression ⟨stop, n⟩ (unary ⟨stop, n⟩ maxDepth) ts >>= complete := by
  obtain ⟨more, rfl⟩ := Nat.exists_eq_add_of_le hn
  exact congrArg (· >>= complete) ((expression_whole ts.length).same le_rfl more).symm

/-- Refused tokens are refused for the first ones that cannot stand where they stand. -/
theorem whole_error {stop : Nat} {ts : List Token.Placed} {e : ExprError} (h : whole stop ts = .error e) :
    ∃ front, BeginsWell front ∧ ((ts = front ∧ ∃ expected, e = ended expected stop) ∨
      ∃ word behind, ts = front ++ (word ++ behind) ∧ Refused word e ∧
        ∀ stop', whole stop' (front ++ word) = .error e) := by
  have hlocal := expression_whole ts.length
  obtain hread | ⟨⟨a, rest⟩, hread, hrest⟩ := bind_eq_error.1 h
  · obtain ⟨front, expected, hshort, hcases⟩ := hlocal.fails le_rfl hread
    have hbegins : front.length ≤ ts.length → BeginsWell front := by
      refine fun hlength => .inr ⟨expected, fun stop' => ?_⟩
      rw [whole_eq _ hlength]
      exact bind_eq_error.2 (.inl (hshort 0 stop'))
    obtain ⟨rfl, rfl⟩ | ⟨word, behind, rfl, hword, hall⟩ := hcases
    · exact ⟨ts, hbegins le_rfl, .inl ⟨rfl, expected, rfl⟩⟩
    · refine ⟨front, hbegins (by simp), .inr ⟨word, behind, rfl, hword, fun stop' => ?_⟩⟩
      have hrefused := hall 0 stop' []
      rw [List.append_nil] at hrefused
      rw [whole_eq (front ++ (word ++ behind)).length (by simp)]
      exact bind_eq_error.2 (.inl hrefused)
  · obtain ⟨front, rfl, -, hall⟩ := hlocal.reads le_rfl hread
    cases rest with
    | nil => cases hrest
    | cons t rest =>
      cases hrest
      refine ⟨front, .inl ⟨a, fun stop' => ?_⟩,
        .inr ⟨[t], rest, rfl, .trailing t, fun stop' => ?_⟩⟩
      · have hread' := hall 0 stop' [] (follows_nil _)
        rw [List.append_nil] at hread'
        rw [whole_eq (front ++ t :: rest).length (by simp)]
        exact bind_eq_ok.2 ⟨_, hread', rfl⟩
      · rw [whole_eq (front ++ t :: rest).length (by simp)]
        exact bind_eq_error.2 (.inr ⟨_, hall 0 stop' [t] fun u hu => hu, rfl⟩)

theorem Refused.position {word : List Token.Placed} {e : ExprError} (h : Refused word e) :
    e.position? = word.head?.map (·.position) := by
  cases h <;> rfl

end Parser

/-! ### Texts -/

open ShardedSql.Parser (ended Refused)

namespace Expr

/-- The text is an expression or the beginning of one, or it is blank. -/
def BeginsWell (base : Nat) (cs : List Char) : Prop :=
  (∃ e, parse (String.ofList cs) base = .ok e) ∨ parse (String.ofList cs) base = .error .empty ∨
    ∃ expected, parse (String.ofList cs) base = .error (ended expected (base + Text.byteLength cs))

/-- What is wrong with the text that is left, behind what was read from the offset `base` on. A construct is
refused behind an expression or the beginning of one, and the error comes also when nothing follows it; a
string or a character that is no token is found first, when all before it are tokens. -/
inductive Fault (base : Nat) (read : List Char) : List Char → ExprError → Prop
  | string {quote : Char} {r : List Char}
      (htokens : ∃ s, Token.scanFrom read.length base [] read = .ok s) (hquote : Token.isQuote quote = true)
      (hopen : ∀ text written behind, Token.Quoted quote text written → r ≠ written ++ quote :: behind) :
      Fault base read (quote :: r) (.unterminatedString (base + Text.byteLength read))
  | lexeme {c : Char} {r : List Char} (htokens : ∃ s, Token.scanFrom read.length base [] read = .ok s)
      (hspace : Token.isSpace c = false)
      (hnone : ∀ (t : Token) word, t.Spelled word → ¬ word <+: c :: r) :
      Fault base read (c :: r) (.unexpected .lexeme c.toString (base + Text.byteLength read))
  | ended {expected : Expectation}
      (h : parse (String.ofList read) base = .error (ended expected (base + Text.byteLength read))) :
      Fault base read [] (ended expected (base + Text.byteLength read))
  | refused {construct rest : List Char} {s : Token.Stream} {e : ExprError} (hbegins : BeginsWell base read)
      (hscan : Token.scan (base + Text.byteLength read) (String.ofList construct) = .ok s)
      (hrefused : Refused s.tokens e) (hposition : e.position? = some (base + Text.byteLength read))
      (h : parse (String.ofList (read ++ construct)) base = .error e) :
      Fault base read (construct ++ rest) e

theorem Fault.position {base : Nat} {read left : List Char} {e : ExprError} (h : Fault base read left e) :
    e.position? = some (base + Text.byteLength read) := by
  cases h with
  | refused _ _ _ hposition _ => exact hposition
  | _ => rfl

/-- A text that is read as tokens is not empty, and no brace begins it. -/
theorem head?_of_scan {base : Nat} {cs : List Char} {s : Token.Stream}
    (h : Token.scan base (String.ofList cs) = .ok s) : ∃ c r, cs = c :: r ∧ c ≠ '\x7b' := by
  cases cs with
  | nil => cases h
  | cons c r =>
    refine ⟨c, r, rfl, ?_⟩
    rintro rfl
    obtain ⟨s', hscan, -⟩ := bind_eq_ok.1 h
    rw [String.toList_ofList, String.length_ofList] at hscan
    cases hscan

section Walks

variable {base stop : Nat} {cs : List Char} {ts : List Token.Placed}

theorem scanFrom_of_walks (h : Token.Walks base cs ts stop []) :
    Token.scanFrom (String.ofList cs).length base [] (String.ofList cs).toList = .ok ⟨ts, stop⟩ := by
  rw [String.toList_ofList]
  exact h.scanFrom (by simp)

theorem scan_of_walks (h : Token.Walks base cs ts stop []) (hne : ts ≠ []) :
    Token.scan base (String.ofList cs) = .ok ⟨ts, stop⟩ := by
  rw [Token.scan, scanFrom_of_walks h]
  exact if_neg (by simpa using hne)

theorem parse_of_walks (h : Token.Walks base cs ts stop []) (hne : ts ≠ []) :
    parse (String.ofList cs) base = Parser.whole stop ts := by
  rw [parse, scan_of_walks h hne]
  change (Parser.expression _ _ _ >>= _) = (Parser.expression _ _ _ >>= _)
  refine bind_congr fun p => ?_
  obtain ⟨e, _ | ⟨t, rest⟩⟩ := p <;> rfl

theorem parse_of_walks_nil (h : Token.Walks base cs [] stop []) :
    parse (String.ofList cs) base = .error .empty := by
  rw [parse, Token.scan, scanFrom_of_walks h]
  rfl

theorem beginsWell_of_walks (h : Token.Walks base cs ts stop []) (hts : Parser.BeginsWell ts) :
    BeginsWell base cs := by
  by_cases hne : ts = []
  · subst hne
    exact .inr (.inl (parse_of_walks_nil h))
  · obtain ⟨walked, hwalked, rfl, -⟩ := h.walked
    rw [List.append_nil] at hwalked
    subst hwalked
    rw [BeginsWell, parse_of_walks h hne]
    obtain ⟨e, he⟩ | ⟨expected, he⟩ := hts
    · exact .inl ⟨e, he _⟩
    · exact .inr (.inr ⟨expected, he _⟩)

end Walks

/-- A text is refused for what stands at the named offset. -/
theorem parse_fault {cs : List Char} {base : Nat} {e : ExprError} {p : Nat}
    (h : parse (String.ofList cs) base = .error e) (hp : e.position? = some p) :
    ∃ read left, cs = read ++ left ∧ Fault base read left e := by
  have hfuel : cs.length ≤ (String.ofList cs).length := by simp
  obtain ⟨ts, stop, hwalks⟩ | ⟨ts, m, c, r, e', hwalks, hspace, hnext, hscan⟩ :=
    Token.scanFrom_walks hfuel base []
  · by_cases hne : ts = []
    · subst hne
      rw [parse_of_walks_nil hwalks] at h
      cases h
      cases hp
    · rw [parse_of_walks hwalks hne] at h
      obtain ⟨front, hfront, ⟨rfl, expected, rfl⟩ | ⟨word, behind, rfl, hword, hsame⟩⟩ := Parser.whole_error h
      · obtain ⟨walked, hwalked, rfl, -⟩ := hwalks.walked
        rw [List.append_nil] at hwalked
        subst hwalked
        refine ⟨cs, [], by simp, .ended ?_⟩
        rw [parse_of_walks hwalks hne, h]
      · obtain ⟨t, word, rfl⟩ := List.exists_cons_of_ne_nil hword.ne_nil
        obtain ⟨read, construct, rest, m, rfl, hposition, hread, hconstruct, hboth⟩ := hwalks.cut
        rw [hposition] at hconstruct
        refine ⟨read, construct ++ rest, rfl, .refused (beginsWell_of_walks hread hfront)
          (scan_of_walks hconstruct (by simp)) hword ?_ ?_⟩
        · rw [hword.position, ← hposition]
          rfl
        · rw [parse_of_walks hboth (by simp), hsame]
  · -- No token can be read at the offset.
    obtain ⟨read, rfl, rfl, hread⟩ := hwalks.walked
    have hbefore := hread [] (by simp [Token.Parts])
    rw [List.append_nil] at hbefore
    have htokens : ∃ s, Token.scanFrom read.length base [] read = .ok s := ⟨_, hbefore.scanFrom le_rfl⟩
    rw [parse, Token.scan, String.toList_ofList, hscan] at h
    cases h
    obtain ⟨hquote, rfl, hopen⟩ | ⟨rfl, hnone⟩ := Token.next_error hnext
    · exact ⟨read, c :: r, rfl, .string htokens hquote hopen⟩
    · exact ⟨read, c :: r, rfl, .lexeme htokens hspace hnone⟩

/-- What is wrong does not begin between a dollar and a brace. -/
theorem Fault.cut {base : Nat} {read left : List Char} {e : ExprError} (h : Fault base read left e)
    (hlast : read.getLast? = some '$') : left.head? ≠ some '\x7b' := by
  cases h with
  | string htokens => exact absurd hlast (Token.getLast?_ne_of_scanFrom htokens.choose_spec)
  | lexeme htokens => exact absurd hlast (Token.getLast?_ne_of_scanFrom htokens.choose_spec)
  | ended => simp
  | refused _ hscan =>
    obtain ⟨c, r, rfl, hc⟩ := head?_of_scan hscan
    simpa using hc

end Expr

end ShardedSql
