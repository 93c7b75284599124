import Mathlib.Data.List.TakeWhile
import ShardedSql.Proofs.Printing

/-!
The scanner reads written tokens: each word is cut off where it ends, and space is skipped. -/

namespace ShardedSql.Token

/-- The text ends or goes on with space. -/
def Separated (cs : List Char) : Prop := ∀ c ∈ cs.head?, isSpace c = true

theorem Blank.separated {gap cs : List Char} (h : Blank gap) (hgap : gap ≠ [] ∨ cs = []) :
    Separated (gap ++ cs) := by
  intro c hc
  cases gap with
  | nil =>
    obtain h' | rfl := hgap
    · exact absurd rfl h'
    · cases hc
  | cons d gap =>
    obtain rfl : d = c := by simpa using hc
    exact h d (by simp)

/-! ### Words -/

/-- No digit, letter or quote is space, and no letter is a digit. -/
theorem isSpace_of_isIdentRest {c : Char} (h : isIdentRest c = true) : isSpace c = false := by
  simp only [isSpace, Bool.or_eq_false_iff, beq_eq_false_iff_ne]
  refine ⟨⟨⟨?_, ?_⟩, ?_⟩, ?_⟩ <;> (rintro rfl; revert h; decide)

theorem isIdentRest_of_isDigit {c : Char} (h : c.isDigit = true) : isIdentRest c = true := by
  simp [isIdentRest, Char.isAlphanum, h]

theorem isIdentRest_of_isIdentStart {c : Char} (h : isIdentStart c = true) :
    isIdentRest c = true := by
  rcases Bool.or_eq_true_iff.1 h with h | h <;> simp [isIdentRest, Char.isAlphanum, h]

theorem isDigit_of_isIdentStart {c : Char} (h : isIdentStart c = true) : c.isDigit = false := by
  by_contra hdigit
  have hle : c.toNat ≤ 57 := (Char.isDigit_iff_toNat.1 (by simpa using hdigit)).2
  have hge : 65 ≤ c.toNat := by
    rcases Bool.or_eq_true_iff.1 h with h | h
    · rcases Bool.or_eq_true_iff.1 h with h | h
      · exact (of_decide_eq_true h).1
      · exact le_trans (by decide : 65 ≤ 97) (of_decide_eq_true (Bool.and_eq_true_iff.1 h).1)
    · obtain rfl : c = '_' := by simpa using h
      decide
  omega

theorem isQuote_iff {c : Char} : isQuote c = true ↔ c = '\'' ∨ c = '"' := by
  simp [isQuote]

/-- A run of characters of one class ends at a space. -/
theorem takeWhile_word {p : Char → Bool} (hp : ∀ c, p c = true → isSpace c = false)
    {word rest : List Char} (hword : ∀ c ∈ word, p c = true) (hrest : Separated rest) :
    (word ++ rest).takeWhile p = word ∧ (word ++ rest).dropWhile p = rest := by
  rw [List.takeWhile_append_of_pos hword, List.dropWhile_append_of_pos hword]
  cases rest with
  | nil => simp
  | cons c rest =>
    have hspace : isSpace c = true := hrest c rfl
    have hc : p c = false := by
      by_contra hc
      rw [hp c (by simpa using hc)] at hspace
      cases hspace
    simp [hc]

theorem quotedFrom_quote (quote : Char) (seen : List Char) (n : Nat) (rest : List Char) :
    quotedFrom quote seen n (quote :: rest) = some (seen.reverse, n + quote.utf8Size, rest) := by
  rw [quotedFrom.eq_def]
  simp

theorem quotedFrom_plain {quote c : Char} (hquote : c ≠ quote) (hescape : c ≠ '\\')
    (seen : List Char) (n : Nat) (rest : List Char) :
    quotedFrom quote seen n (c :: rest) = quotedFrom quote (c :: seen) (n + c.utf8Size) rest := by
  rw [quotedFrom.eq_def]
  simp [hquote, hescape]

theorem quotedFrom_escaped {quote : Char} (hquote : quote ≠ '\\') (seen : List Char) (n : Nat)
    (c : Char) (rest : List Char) : quotedFrom quote seen n ('\\' :: c :: rest) =
      quotedFrom quote (c :: seen) (n + '\\'.utf8Size + c.utf8Size) rest := by
  rw [quotedFrom.eq_def]
  simp [hquote.symm]

theorem quotedFrom_written {quote : Char} (hquote : quote ≠ '\\') {text written : List Char}
    (h : Quoted quote text written) (rest : List Char) (seen : List Char) (n : Nat) :
    ∃ m, quotedFrom quote seen n (written ++ quote :: rest) = some (seen.reverse ++ text, m, rest) := by
  induction h generalizing seen n with
  | nil => exact ⟨_, by simpa using quotedFrom_quote quote seen n rest⟩
  | @plain c text written hne hescape _ ih =>
    obtain ⟨m, hm⟩ := ih (c :: seen) (n + c.utf8Size)
    exact ⟨m, by simpa [quotedFrom_plain hne hescape] using hm⟩
  | @escaped text written c _ ih =>
    obtain ⟨m, hm⟩ := ih (c :: seen) (n + '\\'.utf8Size + c.utf8Size)
    exact ⟨m, by simpa [quotedFrom_escaped hquote] using hm⟩

/-- No mark begins like a number, a name, a string or space. -/
theorem mark_starts {t : Token} (h : t.isMark = true) :
    ∃ c rest, t.text.toList = c :: rest ∧ c.isDigit = false ∧ isIdentStart c = false ∧
      isQuote c = false ∧ isSpace c = false := by
  cases t <;> first | exact absurd h Bool.false_ne_true | exact ⟨_, _, rfl, by decide⟩

/-- The longest mark is read, but none is longer than what is followed by space. -/
theorem operator?_mark {t : Token} (h : t.isMark = true) {rest : List Char} (hrest : Separated rest) :
    operator? (t.text.toList ++ rest) = some (t, rest) := by
  cases rest with
  | nil => cases t <;> first | exact absurd h Bool.false_ne_true | rfl
  | cons c rest =>
    have hc : c ≠ '=' := by
      rintro rfl
      exact absurd (hrest '=' rfl) (by decide)
    cases t <;> first | exact absurd h Bool.false_ne_true | rfl | simp [text, operator?, hc]

theorem Spelled.ne_nil {t : Token} {word : List Char} (h : t.Spelled word) : word ≠ [] := by
  cases h with
  | number hne _ => exact hne
  | ident _ _ => simp
  | str _ _ => simp
  | mark hmark =>
    obtain ⟨c, rest, hword, -⟩ := mark_starts hmark
    simp [hword]

theorem Spelled.next {t : Token} {word rest : List Char} (h : t.Spelled word) (hrest : Separated rest)
    (position : Nat) : ∃ c r n, word ++ rest = c :: r ∧ isSpace c = false ∧
      Token.next position c r = .ok (t, n, rest) := by
  cases h with
  | number hne hdigits =>
    obtain ⟨c, digits, rfl⟩ := List.exists_cons_of_ne_nil hne
    have hc : c.isDigit = true := hdigits c (by simp)
    have hrun : (digits ++ rest).takeWhile Char.isDigit = digits ∧
        (digits ++ rest).dropWhile Char.isDigit = rest :=
      takeWhile_word (fun c hc => isSpace_of_isIdentRest (isIdentRest_of_isDigit hc))
        (fun d hd => hdigits d (by simp [hd])) hrest
    refine ⟨c, digits ++ rest, Text.byteLength (c :: digits), rfl,
      isSpace_of_isIdentRest (isIdentRest_of_isDigit hc), ?_⟩
    rw [Token.next, if_pos hc, hrun.1, hrun.2]
  | @ident c name hc hname =>
    have hrun := takeWhile_word (fun c hc => isSpace_of_isIdentRest hc) hname hrest
    refine ⟨c, name ++ rest, Text.byteLength (c :: name), rfl,
      isSpace_of_isIdentRest (isIdentRest_of_isIdentStart hc), ?_⟩
    rw [Token.next, if_neg (by simp [isDigit_of_isIdentStart hc]), if_pos hc, hrun.1, hrun.2]
  | @str quote text written hquote htext =>
    have hcases := isQuote_iff.1 hquote
    obtain ⟨m, hm⟩ := quotedFrom_written (by rcases hcases with rfl | rfl <;> decide) htext rest []
      quote.utf8Size
    refine ⟨quote, written ++ quote :: rest, m, by simp, by rcases hcases with rfl | rfl <;> decide, ?_⟩
    rw [Token.next, if_neg (by rcases hcases with rfl | rfl <;> decide),
      if_neg (by rcases hcases with rfl | rfl <;> decide), if_pos hquote, hm]
    rfl
  | mark hmark =>
    obtain ⟨c, r, hword, hdigit, hident, hquote, hspace⟩ := mark_starts hmark
    refine ⟨c, r ++ rest, t.text.utf8ByteSize, by rw [hword]; rfl, hspace, ?_⟩
    have hread := operator?_mark hmark hrest
    rw [hword] at hread
    rw [Token.next, if_neg (by simp [hdigit]), if_neg (by simp [hident]), if_neg (by simp [hquote]),
      ← List.cons_append, hread]

/-! ### Whole texts -/

/-- The scanner finds the tokens in the text, wherever it stands and whatever came before it. -/
def Finds (cs : List Char) (ts : List Token) : Prop :=
  ∀ fuel position seen, cs.length ≤ fuel → ∃ s, scanFrom fuel position seen cs = .ok s ∧
    s.tokens.map (·.token) = seen.reverse.map (·.token) ++ ts

theorem Finds.nil : Finds [] [] := by
  intro fuel position seen _
  exact ⟨⟨seen.reverse, position⟩, by cases fuel <;> rfl, by simp⟩

theorem Finds.gap {gap cs : List Char} {ts : List Token} (hgap : Blank gap) (h : Finds cs ts) :
    Finds (gap ++ cs) ts := by
  induction gap with
  | nil => exact h
  | cons c gap ih =>
    intro fuel position seen hfuel
    cases fuel with
    | zero => cases hfuel
    | succ fuel =>
      have hc : isSpace c = true := hgap c (by simp)
      rw [List.cons_append, scanFrom, if_pos hc]
      exact ih (fun d hd => hgap d (by simp [hd])) fuel _ seen (by simpa using hfuel)

theorem Finds.word {t : Token} {word rest : List Char} {ts : List Token} (hword : t.Spelled word)
    (hrest : Separated rest) (h : Finds rest ts) : Finds (word ++ rest) (t :: ts) := by
  intro fuel position seen hfuel
  obtain ⟨c, r, n, hcs, hspace, hnext⟩ := hword.next hrest position
  have hlt : rest.length < (word ++ rest).length := by
    simpa using List.length_pos_iff.2 hword.ne_nil
  cases fuel with
  | zero => omega
  | succ fuel =>
    obtain ⟨s, hs, htokens⟩ := h fuel (position + n) (⟨t, position⟩ :: seen) (by omega)
    refine ⟨s, ?_, by simpa using htokens⟩
    rw [hcs, scanFrom, if_neg (by simp [hspace]), hnext]
    exact hs

theorem Written.finds {ts : List Token} {cs : List Char} (h : Written ts cs) : Finds cs ts := by
  induction h with
  | @last t word gap hword hgap =>
    have hrest := Finds.gap hgap Finds.nil
    rw [List.append_nil] at hrest
    have hsep : Separated (gap ++ []) := hgap.separated (.inr rfl)
    rw [List.append_nil] at hsep
    exact .word hword hsep hrest
  | cons hword hgap hne _ ih => exact .word hword (hgap.separated (.inl hne)) (.gap hgap ih)

/-- A written text is scanned into its tokens, at every offset. -/
theorem scan_written {ts : List Token} (hne : ts ≠ []) {gap cs : List Char} (hgap : Blank gap)
    (h : Written ts cs) {text : String} (htext : text.toList = gap ++ cs) (base : Nat) :
    ∃ s, scan base text = .ok s ∧ s.tokens.map (·.token) = ts := by
  obtain ⟨s, hs, htokens⟩ := Finds.gap hgap h.finds text.length base [] (by
    rw [← htext, String.length_toList])
  have htokens : s.tokens.map (·.token) = ts := by simpa using htokens
  have hfull : s.tokens.isEmpty = false := by
    rw [← htokens] at hne
    simpa using hne
  refine ⟨s, ?_, htokens⟩
  rw [scan, htext, hs]
  change (if s.tokens.isEmpty then _ else _) = _
  rw [hfull]
  rfl

end ShardedSql.Token
