import ShardedSql.Proofs.Placeholders

/-! The body of a placeholder ends at the brace that closes it: what is before that brace is balanced, and a
text has no more than one balanced beginning with a closing brace behind it. -/

namespace ShardedSql.Template

/-- Outside of strings the braces match. -/
inductive Balanced : List Char → Prop
  | nil : Balanced []
  | plain {c : Char} {cs : List Char} (hc : isPlain c = true) (h : Balanced cs) : Balanced (c :: cs)
  | string {quote : Char} {text written cs : List Char} (hquote : Token.isQuote quote = true)
      (htext : Token.Quoted quote text written) (h : Balanced cs) :
      Balanced (quote :: (written ++ quote :: cs))
  | braces {inner cs : List Char} (hinner : Balanced inner) (h : Balanced cs) :
      Balanced ('\x7b' :: (inner ++ '\x7d' :: cs))

theorem Balanced.of_plain {c : Char} {cs : List Char} (h : Balanced (c :: cs)) (hc : isPlain c = true) :
    Balanced cs := by
  cases h with
  | plain _ h => exact h
  | string hquote => simp [isPlain, hquote] at hc
  | braces => cases hc

/-- The search for the closing brace goes over a balanced body, at every depth. -/
theorem Balanced.passes {body : List Char} (h : Balanced body) (depth : Nat) (seen tail : List Char) :
    splitBody depth none seen (body ++ tail) = splitBody depth none (body.reverse ++ seen) tail := by
  induction h generalizing depth seen tail with
  | nil => rfl
  | plain hc _ ih =>
    rw [List.cons_append, splitBody_plain hc, ih, List.reverse_cons, List.append_assoc]
    rfl
  | @string quote text written cs hquote htext _ ih =>
    have hescape : quote ≠ '\\' := by
      rintro rfl
      cases hquote
    obtain ⟨_, hread⟩ := Token.quotedFrom_written hescape htext (cs ++ tail) [] 0
    obtain ⟨word, hword, hpass⟩ := splitBody_quoted hescape hread
    have hword : word = written ++ [quote] := by
      rw [← List.append_left_inj (cs ++ tail), ← hword]
      simp
    have hopen : splitBody depth none seen (quote :: (written ++ quote :: cs) ++ tail) =
        splitBody depth (some quote) (quote :: seen) (word ++ (cs ++ tail)) := by
      rw [List.cons_append, splitBody.eq_def]
      simp [hquote, hword]
    rw [hopen, hpass, ih, hword]
    simp
  | @braces inner cs _ _ ihinner ih =>
    have hopen : splitBody depth none seen ('\x7b' :: (inner ++ '\x7d' :: cs) ++ tail) =
        splitBody (depth + 1) none ('\x7b' :: seen) (inner ++ '\x7d' :: (cs ++ tail)) := by
      rw [List.cons_append, splitBody.eq_def]
      simp [Token.isQuote]
    have hclose : ∀ seen, splitBody (depth + 1) none seen ('\x7d' :: (cs ++ tail)) =
        splitBody depth none ('\x7d' :: seen) (cs ++ tail) := by
      intro seen
      rw [splitBody.eq_def]
      simp [Token.isQuote]
    rw [hopen, ihinner, hclose, ih]
    simp

theorem Balanced.splitBody {body : List Char} (h : Balanced body) (rest : List Char) :
    Template.splitBody 0 none [] (body ++ '\x7d' :: rest) = some (body, rest) := by
  rw [h.passes, List.append_nil, splitBody.eq_def]
  simp [Token.isQuote]

/-! ### The closing brace -/

/-- So many braces more are closed than opened. -/
inductive Closes : Nat → List Char → Prop
  | last {cs : List Char} (h : Balanced cs) : Closes 0 cs
  | brace {depth : Nat} {inner cs : List Char} (hinner : Balanced inner) (h : Closes depth cs) :
      Closes (depth + 1) (inner ++ '\x7d' :: cs)

theorem Closes.prepend {word : List Char} (hword : ∀ cs, Balanced cs → Balanced (word ++ cs)) {depth : Nat}
    {cs : List Char} (h : Closes depth cs) : Closes depth (word ++ cs) := by
  cases h with
  | last h => exact .last (hword _ h)
  | brace hinner h =>
    rw [← List.append_assoc]
    exact .brace (hword _ hinner) h

theorem Closes.opened {depth : Nat} {cs : List Char} (h : Closes (depth + 1) cs) :
    Closes depth ('\x7b' :: cs) := by
  cases h with
  | @brace _ inner cs hinner h =>
    have hbraces : Closes depth (('\x7b' :: (inner ++ ['\x7d'])) ++ cs) := h.prepend fun cs hcs => by
      simpa using Balanced.braces hinner hcs
    simpa using hbraces

/-- In a string that is closed first. -/
def ClosesIn (depth : Nat) : Option Char → List Char → Prop
  | none, cs => Closes depth cs
  | some quote, cs => ∃ text written behind, Token.Quoted quote text written ∧ Closes depth behind ∧
      cs = written ++ quote :: behind

theorem splitBody_closes {depth : Nat} {quote : Option Char} {seen cs body rest : List Char}
    (h : splitBody depth quote seen cs = some (body, rest)) :
    ∃ w, cs = w ++ '\x7d' :: rest ∧ body = seen.reverse ++ w ∧ ClosesIn depth quote w := by
  fun_induction splitBody depth quote seen cs with
  | case1 => cases h
  | case2 => cases h
  | case3 depth seen c quote hescape d r ih =>
    obtain ⟨_, rfl, rfl, text, written, w, htext, hw, rfl⟩ := ih h
    obtain rfl : c = '\\' := by simpa using hescape
    exact ⟨_, rfl, by simp, d :: text, '\\' :: d :: written, w, .escaped d htext, hw, rfl⟩
  | case4 depth seen c r quote hescape ih =>
    obtain ⟨w, rfl, rfl, hw⟩ := ih h
    refine ⟨c :: w, rfl, by simp, ?_⟩
    by_cases hc : c = quote
    · rw [if_pos (by simpa using hc)] at hw
      exact ⟨[], [], w, .nil, hw, by rw [hc]; rfl⟩
    · rw [if_neg (by simpa using hc)] at hw
      obtain ⟨text, written, w, htext, hw, rfl⟩ := hw
      exact ⟨c :: text, c :: written, w, .plain hc (by simpa using hescape) htext, hw, rfl⟩
  | case5 depth seen c r hquote ih =>
    obtain ⟨_, rfl, rfl, text, written, w, htext, hw, rfl⟩ := ih h
    refine ⟨c :: (written ++ c :: w), rfl, by simp, ?_⟩
    have hstring : Closes depth ((c :: (written ++ [c])) ++ w) := hw.prepend fun cs hcs => by
      simpa using Balanced.string hquote htext hcs
    change Closes depth _
    simpa using hstring
  | case6 depth seen c r _ hopen ih =>
    obtain ⟨w, rfl, rfl, hw⟩ := ih h
    obtain rfl : c = '\x7b' := by simpa using hopen
    exact ⟨'\x7b' :: w, rfl, by simp, Closes.opened hw⟩
  | case7 seen c r _ _ hclose =>
    cases h
    obtain rfl : c = '\x7d' := by simpa using hclose
    exact ⟨[], rfl, by simp, .last .nil⟩
  | case8 seen c r _ _ hclose depth ih =>
    obtain ⟨w, rfl, rfl, hw⟩ := ih h
    obtain rfl : c = '\x7d' := by simpa using hclose
    exact ⟨'\x7d' :: w, rfl, by simp, Closes.brace .nil hw⟩
  | case9 depth seen c r hquote hopen hclose ih =>
    obtain ⟨w, rfl, rfl, hw⟩ := ih h
    have hc : isPlain c = true := by simp_all [isPlain]
    have hplain : Closes depth ([c] ++ w) := Closes.prepend (fun _ => .plain hc) hw
    exact ⟨c :: w, rfl, by simp, hplain⟩

/-- A text is cut at the closing brace behind a balanced beginning, and only there. -/
theorem splitBody_eq_some {cs body rest : List Char} :
    splitBody 0 none [] cs = some (body, rest) ↔ Balanced body ∧ cs = body ++ '\x7d' :: rest := by
  constructor
  · intro h
    obtain ⟨w, rfl, rfl, hw⟩ := splitBody_closes h
    cases hw with
    | last hw => exact ⟨hw, rfl⟩
  · rintro ⟨hbody, rfl⟩
    exact hbody.splitBody rest

end ShardedSql.Template
