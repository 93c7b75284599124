import ShardedSql.Proofs.Displacement
import ShardedSql.Proofs.Offsets
import ShardedSql.Proofs.Placeholders

/-! The scanner walks over a text, word by word. A word is the same whatever stands behind it, as long as that
does not go on with the word; so a walk can be cut where a word ends, and gone on with differently. -/

namespace ShardedSql.Token

/-- The second text is empty, goes on with space, or begins like the first one. -/
def Parts (rest rest' : List Char) : Prop := ∀ c ∈ rest'.head?, isSpace c = true ∨ c ∈ rest.head?

theorem Parts.append {rest rest' : List Char} (h : Parts rest rest') (front : List Char) :
    Parts (front ++ rest) (front ++ rest') := by
  cases front with
  | nil => exact h
  | cons c front => exact fun d hd => .inr hd

/-- A run of characters of one class ends where it ended, or at space. -/
theorem takeWhile_parts {p : Char → Bool} (hp : ∀ c, p c = true → isSpace c = false) {r rest' : List Char}
    (h : Parts (r.dropWhile p) rest') : (r.takeWhile p ++ rest').takeWhile p = r.takeWhile p ∧
      (r.takeWhile p ++ rest').dropWhile p = rest' := by
  have hall : ∀ c ∈ r.takeWhile p, p c = true := fun c hc => List.mem_takeWhile_imp hc
  rw [List.takeWhile_append_of_pos hall, List.dropWhile_append_of_pos hall]
  cases rest' with
  | nil => simp
  | cons c rest' =>
    have hc : p c = false := by
      obtain hspace | hhead := h c rfl
      · by_contra hc
        rw [hp c (by simpa using hc)] at hspace
        cases hspace
      · have hnot := List.head?_dropWhile_not p r
        rw [Option.mem_def.1 hhead] at hnot
        exact Bool.eq_false_iff.2 (by simpa using hnot)
    simp [hc]

theorem quotedFrom_word {quote : Char} {seen : List Char} {n : Nat} {cs text : List Char} {m : Nat}
    {rest : List Char} (h : quotedFrom quote seen n cs = some (text, m, rest)) :
    ∃ written text', cs = written ++ quote :: rest ∧ Quoted quote text' written ∧ text = seen.reverse ++ text' ∧
      m = n + Text.byteLength written + quote.utf8Size ∧
      ∀ rest', quotedFrom quote seen n (written ++ quote :: rest') = some (text, m, rest') := by
  fun_induction quotedFrom quote seen n cs with
  | case1 => cases h
  | case2 seen n c r hc =>
    cases h
    obtain rfl : c = quote := by simpa using hc
    exact ⟨[], [], rfl, .nil, by simp, by simp, fun rest' => quotedFrom_quote c seen n rest'⟩
  | case3 => cases h
  | case4 seen n c hc hescape d r ih =>
    obtain rfl : c = '\\' := by simpa using hescape
    obtain ⟨written, text', rfl, htext, rfl, rfl, hrest⟩ := ih h
    have hquote : quote ≠ '\\' := by
      rintro rfl
      exact hc rfl
    refine ⟨'\\' :: d :: written, d :: text', rfl, .escaped d htext, by simp, ?_, fun rest' => ?_⟩
    · simp only [Text.byteLength_cons]
      omega
    · rw [List.cons_append, List.cons_append, quotedFrom_escaped hquote, hrest]
  | case5 seen n c r hc hescape ih =>
    obtain ⟨written, text', rfl, htext, rfl, rfl, hrest⟩ := ih h
    have hquote : c ≠ quote := by simpa using hc
    have hplain : c ≠ '\\' := by simpa using hescape
    refine ⟨c :: written, c :: text', rfl, .plain hquote hplain htext, by simp, ?_, fun rest' => ?_⟩
    · simp only [Text.byteLength_cons]
      omega
    · rw [List.cons_append, quotedFrom_plain hquote hplain, hrest]

/-- An operator of one character is not read as a longer one in front of other text either. -/
theorem operator?_parts {t : Token} (ht : t.isMark = true) {rest rest' : List Char}
    (h : operator? (t.text.toList ++ rest) = some (t, rest))
    (hparts : t.text.length = 1 → '=' ∈ rest'.head? → '=' ∈ rest.head?) :
    operator? (t.text.toList ++ rest') = some (t, rest') := by
  cases rest' with
  | nil => cases t <;> first | exact absurd ht Bool.false_ne_true | rfl
  | cons c rest' =>
    by_cases hc : c = '='
    · subst hc
      cases t <;> first
        | exact absurd ht Bool.false_ne_true
        | rfl
        | obtain ⟨r, rfl⟩ := List.head?_eq_some_iff.1 (hparts rfl rfl)
          cases h
    · cases t <;> first | exact absurd ht Bool.false_ne_true | rfl | simp [text, operator?, hc]

/-- The word of a token is cut off, also where something else stands behind it that does not go on with it. -/
theorem next_word {p : Nat} {c : Char} {r : List Char} {t : Token} {n : Nat} {rest : List Char}
    (h : next p c r = .ok (t, n, rest)) : ∃ word, c :: r = word ++ rest ∧ t.Spelled word ∧
      n = Text.byteLength word ∧ ∀ rest', Parts rest rest' →
        ∃ r', word ++ rest' = c :: r' ∧ next p c r' = .ok (t, n, rest') := by
  rw [next] at h
  by_cases hdigit : c.isDigit = true
  · rw [if_pos hdigit] at h
    cases h
    refine ⟨c :: r.takeWhile Char.isDigit, by simp, ?_, rfl, fun rest' hparts => ?_⟩
    · refine .number (by simp) fun d hd => ?_
      obtain rfl | hd := List.mem_cons.1 hd
      · exact hdigit
      · exact List.mem_takeWhile_imp hd
    · have hrun := takeWhile_parts (fun c hc => isSpace_of_isIdentRest (isIdentRest_of_isDigit hc)) hparts
      exact ⟨r.takeWhile Char.isDigit ++ rest', rfl, by rw [next, if_pos hdigit, hrun.1, hrun.2]⟩
  rw [if_neg hdigit] at h
  by_cases hident : isIdentStart c = true
  · rw [if_pos hident] at h
    cases h
    refine ⟨c :: r.takeWhile isIdentRest, by simp, .ident hident fun d hd => List.mem_takeWhile_imp hd, rfl,
      fun rest' hparts => ?_⟩
    have hrun := takeWhile_parts (fun c hc => isSpace_of_isIdentRest hc) hparts
    exact ⟨r.takeWhile isIdentRest ++ rest', rfl, by rw [next, if_neg hdigit, if_pos hident, hrun.1, hrun.2]⟩
  rw [if_neg hident] at h
  by_cases hquote : isQuote c = true
  · rw [if_pos hquote] at h
    split at h
    · rename_i hread
      cases h
      obtain ⟨written, text, rfl, htext, rfl, rfl, hrest⟩ := quotedFrom_word hread
      refine ⟨c :: (written ++ [c]), by simp, ?_, ?_, fun rest' _ => ?_⟩
      · exact .str hquote htext
      · simp
        omega
      · refine ⟨written ++ c :: rest', by simp, ?_⟩
        rw [next, if_neg hdigit, if_neg hident, if_pos hquote, hrest]
    · cases h
  · rw [if_neg hquote] at h
    split at h
    · rename_i hread
      cases h
      obtain ⟨hcs, hmark⟩ := Template.operator?_eq_some hread
      refine ⟨t.text.toList, hcs, .mark hmark, Text.utf8ByteSize_eq _, fun rest' hparts => ?_⟩
      obtain ⟨d, w, hword, -⟩ := mark_starts hmark
      obtain rfl : c = d := by
        rw [hword] at hcs
        exact (List.cons.inj hcs).1
      refine ⟨w ++ rest', by rw [hword]; rfl, ?_⟩
      rw [hcs] at hread
      have hread' := operator?_parts hmark hread fun _ hhead => (hparts '=' hhead).resolve_left (by decide)
      rw [hword, List.cons_append] at hread'
      rw [next, if_neg hdigit, if_neg hident, if_neg hquote, hread']
    · cases h

/-! ### Walks -/

/-- From the text at the offset the scanner goes over space and these tokens, as far as the text at the other
offset. -/
inductive Walks : Nat → List Char → List Placed → Nat → List Char → Prop
  | stay (p : Nat) (cs : List Char) : Walks p cs [] p cs
  | space {p q : Nat} {c : Char} {cs cs' : List Char} {ts : List Placed} (hspace : isSpace c = true)
      (h : Walks (p + c.utf8Size) cs ts q cs') : Walks p (c :: cs) ts q cs'
  | token {p q n : Nat} {c : Char} {r rest cs' : List Char} {t : Token} {ts : List Placed}
      (hspace : isSpace c = false) (hnext : next p c r = .ok (t, n, rest)) (h : Walks (p + n) rest ts q cs') :
      Walks p (c :: r) (⟨t, p⟩ :: ts) q cs'

section Walks

variable {p q q' : Nat} {cs cs' cs'' : List Char} {ts ts' : List Placed}

theorem Walks.trans (h : Walks p cs ts q cs') (h' : Walks q cs' ts' q' cs'') :
    Walks p cs (ts ++ ts') q' cs'' := by
  induction h with
  | stay => exact h'
  | space hspace _ ih => exact .space hspace (ih h')
  | token hspace hnext _ ih => exact .token hspace hnext (ih h')

/-- A walk goes over a piece of text, whatever parts from it behind. -/
theorem Walks.walked (h : Walks p cs ts q cs') : ∃ walked, cs = walked ++ cs' ∧
    q = p + Text.byteLength walked ∧ ∀ rest', Parts cs' rest' → Walks p (walked ++ rest') ts q rest' := by
  induction h with
  | stay p cs => exact ⟨[], rfl, rfl, fun rest' _ => .stay p rest'⟩
  | @space p q c cs cs' ts hspace _ ih =>
    obtain ⟨walked, rfl, rfl, hrest⟩ := ih
    refine ⟨c :: walked, rfl, by rw [Text.byteLength_cons, Nat.add_assoc], fun rest' hparts => ?_⟩
    exact .space hspace (hrest rest' hparts)
  | @token p q n c r rest cs' t ts hspace hnext _ ih =>
    obtain ⟨walked, rfl, rfl, hrest⟩ := ih
    obtain ⟨word, hword, -, rfl, hnext'⟩ := next_word hnext
    refine ⟨word ++ walked, by rw [hword, List.append_assoc],
      by rw [Text.byteLength_append, Nat.add_assoc], fun rest' hparts => ?_⟩
    obtain ⟨r', hr', hnext'⟩ := hnext' (walked ++ rest') (hparts.append walked)
    rw [List.append_assoc, hr']
    exact .token hspace hnext' (hrest rest' hparts)

theorem Walks.split (h : Walks p cs (ts ++ ts') q cs') :
    ∃ m mid, Walks p cs ts m mid ∧ Walks m mid ts' q cs' := by
  generalize hall : ts ++ ts' = all at h
  induction h generalizing ts with
  | stay p cs =>
    obtain ⟨rfl, rfl⟩ := List.append_eq_nil_iff.1 hall
    exact ⟨p, cs, .stay p cs, .stay p cs⟩
  | space hspace _ ih =>
    obtain ⟨m, mid, hfirst, hsecond⟩ := ih hall
    exact ⟨m, mid, .space hspace hfirst, hsecond⟩
  | @token p q n c r rest cs' t ts₀ hspace hnext h ih =>
    cases ts with
    | nil =>
      rw [List.nil_append] at hall
      rw [hall]
      exact ⟨p, c :: r, .stay p _, .token hspace hnext h⟩
    | cons u ts =>
      obtain ⟨rfl, rfl⟩ := List.cons.inj hall
      obtain ⟨m, mid, hfirst, hsecond⟩ := ih rfl
      exact ⟨m, mid, .token hspace hnext hfirst, hsecond⟩

/-- Before its first token a walk only goes over space. -/
theorem Walks.cons_inv {t : Placed} (h : Walks p cs (t :: ts) q cs') : ∃ c r n rest,
    Walks p cs [] t.position (c :: r) ∧ isSpace c = false ∧ next t.position c r = .ok (t.token, n, rest) ∧
      Walks (t.position + n) rest ts q cs' := by
  generalize hall : t :: ts = all at h
  induction h with
  | stay => cases hall
  | space hspace _ ih =>
    obtain ⟨c, r, n, rest, hgap, hc, hnext, hrest⟩ := ih hall
    exact ⟨c, r, n, rest, .space hspace hgap, hc, hnext, hrest⟩
  | token hspace hnext h =>
    cases hall
    exact ⟨_, _, _, _, .stay _ _, hspace, hnext, h⟩

/-- The text of some of the tokens, without the space before them, can be cut out. -/
theorem Walks.cut {t : Placed} {word behind : List Placed}
    (h : Walks p cs (ts ++ (t :: word ++ behind)) q cs') : ∃ read construct rest m,
      cs = read ++ (construct ++ rest) ∧ t.position = p + Text.byteLength read ∧
      Walks p read ts t.position [] ∧ Walks t.position construct (t :: word) m [] ∧
      Walks p (read ++ construct) (ts ++ t :: word) m [] := by
  obtain ⟨m, mid, hfirst, hsecond⟩ := h.split
  obtain ⟨c, r, n, rest, hgap, hspace, hnext, hrest⟩ := hsecond.cons_inv
  have hbefore := hfirst.trans hgap
  rw [List.append_nil] at hbefore
  have hfrom : Walks t.position (c :: r) ((t :: word) ++ behind) q cs' := .token hspace hnext hrest
  obtain ⟨m, rest, hword, -⟩ := hfrom.split
  obtain ⟨read, rfl, hposition, hread⟩ := hbefore.walked
  obtain ⟨construct, hsplit, -, hconstruct⟩ := hword.walked
  have hparts : Parts (c :: r) construct := by
    intro d hd
    rw [hsplit, List.head?_append, Option.mem_def.1 hd]
    exact .inr rfl
  have halone := hconstruct [] (by simp [Parts])
  rw [List.append_nil] at halone
  have hnothing := hread [] (by simp [Parts])
  rw [List.append_nil] at hnothing
  exact ⟨read, construct, rest, m, by rw [hsplit], hposition, hnothing, halone,
    (hread construct hparts).trans halone⟩

theorem Walks.scanFrom {seen : List Placed} {fuel : Nat} (h : Walks p cs ts q []) (hfuel : cs.length ≤ fuel) :
    scanFrom fuel p seen cs = .ok ⟨seen.reverse ++ ts, q⟩ := by
  generalize hnil : ([] : List Char) = cs' at h
  induction h generalizing fuel seen with
  | stay p cs =>
    subst hnil
    rw [List.append_nil]
    cases fuel <;> rfl
  | space hspace _ ih =>
    cases fuel with
    | zero => cases hfuel
    | succ fuel =>
      rw [Token.scanFrom, if_pos hspace]
      exact ih (by simpa using hfuel) hnil
  | @token p q n c r rest cs' t ts hspace hnext _ ih =>
    obtain ⟨word, hword, hspelled, -⟩ := next_word hnext
    have hlength := congrArg List.length hword
    have hpos := List.length_pos_iff.2 hspelled.ne_nil
    rw [List.length_append] at hlength
    cases fuel with
    | zero => cases hfuel
    | succ fuel =>
      rw [Token.scanFrom, if_neg (by simp [hspace]), hnext]
      change Token.scanFrom fuel (p + n) (⟨t, p⟩ :: seen) rest = _
      rw [ih (by omega) hnil]
      simp

/-- The scanner walks to the end, or to where no token can be read. -/
theorem scanFrom_walks {fuel : Nat} (hfuel : cs.length ≤ fuel) (p : Nat) (seen : List Placed) :
    (∃ ts q, Walks p cs ts q []) ∨ ∃ ts q c r e, Walks p cs ts q (c :: r) ∧ isSpace c = false ∧
      next q c r = .error e ∧ scanFrom fuel p seen cs = .error e := by
  induction fuel generalizing cs p seen with
  | zero =>
    obtain rfl := List.length_eq_zero_iff.1 (Nat.le_zero.1 hfuel)
    exact .inl ⟨[], p, .stay p []⟩
  | succ fuel ih =>
    cases cs with
    | nil => exact .inl ⟨[], p, .stay p []⟩
    | cons c r =>
      by_cases hspace : isSpace c = true
      · rw [Token.scanFrom, if_pos hspace]
        obtain ⟨ts, q, h⟩ | ⟨ts, q, d, r', e, h, hd, hnext, hrun⟩ :=
          ih (by simpa using hfuel) (p + c.utf8Size) seen
        · exact .inl ⟨ts, q, .space hspace h⟩
        · exact .inr ⟨ts, q, d, r', e, .space hspace h, hd, hnext, hrun⟩
      · rw [Token.scanFrom, if_neg hspace]
        have hnot : isSpace c = false := Bool.eq_false_iff.2 hspace
        cases hnext : next p c r with
        | error e => exact .inr ⟨[], p, c, r, e, .stay p _, hnot, hnext, rfl⟩
        | ok found =>
          obtain ⟨t, n, rest⟩ := found
          obtain ⟨word, hword, hspelled, -⟩ := next_word hnext
          have hlength := congrArg List.length hword
          have hpos := List.length_pos_iff.2 hspelled.ne_nil
          rw [List.length_append] at hlength
          obtain ⟨ts, q, h⟩ | ⟨ts, q, d, r', e, h, hd, hnext', hrun⟩ :=
            ih (show rest.length ≤ fuel by simp only [List.length_cons] at hfuel hlength; omega) (p + n)
              (⟨t, p⟩ :: seen)
          · exact .inl ⟨_, q, .token hnot hnext h⟩
          · exact .inr ⟨_, q, d, r', e, .token hnot hnext h, hd, hnext', hrun⟩

end Walks

/-- No token ends in a dollar. -/
theorem Spelled.getLast?_ne {t : Token} {word : List Char} (h : t.Spelled word) : word.getLast? ≠ some '$' := by
  intro hlast
  have hmem := List.mem_of_getLast? hlast
  cases h with
  | number _ hdigits => exact absurd (hdigits _ hmem) (by decide)
  | ident hc hrest =>
    obtain rfl | hmem := List.mem_cons.1 hmem
    · cases hc
    · exact absurd (hrest _ hmem) (by decide)
  | @str quote _ written hquote _ =>
    rw [← List.cons_append, List.getLast?_concat] at hlast
    cases hlast
    cases hquote
  | @mark t hmark =>
    cases t <;> first | exact absurd hmark Bool.false_ne_true | exact absurd hmem (by decide)

theorem getLast?_append_ne {front rest : List Char} {c : Char} (hfront : front.getLast? ≠ some c)
    (hrest : rest.getLast? ≠ some c) : (front ++ rest).getLast? ≠ some c := by
  rw [List.getLast?_append]
  cases hlast : rest.getLast? with
  | none => exact hfront
  | some d => rwa [hlast] at hrest

theorem getLast?_ne_of_scanFrom {s : Stream} {cs : List Char} {p : Nat}
    (h : scanFrom cs.length p [] cs = .ok s) : cs.getLast? ≠ some '$' := by
  obtain ⟨ts, q, hwalks⟩ | ⟨_, _, _, _, _, _, _, _, hscan⟩ := scanFrom_walks (le_refl cs.length) p []
  · clear h
    generalize hnil : ([] : List Char) = cs' at hwalks
    induction hwalks with
    | stay => simp [← hnil]
    | @space p q c cs cs' ts hspace _ ih =>
      have hc : [c].getLast? ≠ some '$' := by
        intro hc
        cases hc
        cases hspace
      exact getLast?_append_ne hc (ih hnil)
    | @token p q n c r rest cs' t ts hspace hnext _ ih =>
      obtain ⟨word, hword, hspelled, -⟩ := next_word hnext
      rw [hword]
      exact getLast?_append_ne hspelled.getLast?_ne (ih hnil)
  · rw [hscan] at h
    cases h

/-! ### Where no token can be read -/

theorem operator?_mark_ne_none {t : Token} (ht : t.isMark = true) (rest : List Char) :
    operator? (t.text.toList ++ rest) ≠ none := by
  cases rest with
  | nil => cases t <;> first | exact absurd ht Bool.false_ne_true | exact Option.some_ne_none _
  | cons c rest =>
    by_cases hc : c = '='
    · subst hc
      cases t <;> first | exact absurd ht Bool.false_ne_true | exact Option.some_ne_none _
    · cases t <;> first
        | exact absurd ht Bool.false_ne_true
        | exact Option.some_ne_none _
        | simp [text, operator?, hc]

/-- No token is read in front of an unclosed string, and of what is no word of a token. -/
theorem next_error {p : Nat} {c : Char} {r : List Char} {e : ExprError} (h : next p c r = .error e) :
    (isQuote c = true ∧ e = .unterminatedString p ∧
      ∀ text written behind, Quoted c text written → r ≠ written ++ c :: behind) ∨
    e = .unexpected .lexeme c.toString p ∧ ∀ (t : Token) word, t.Spelled word → ¬ word <+: c :: r := by
  rw [next] at h
  by_cases hdigit : c.isDigit = true
  · rw [if_pos hdigit] at h
    cases h
  rw [if_neg hdigit] at h
  by_cases hident : isIdentStart c = true
  · rw [if_pos hident] at h
    cases h
  rw [if_neg hident] at h
  by_cases hquote : isQuote c = true
  · rw [if_pos hquote] at h
    split at h
    · cases h
    · rename_i hread
      cases h
      refine .inl ⟨hquote, rfl, ?_⟩
      rintro text written behind htext rfl
      have hescape : c ≠ '\\' := by
        rintro rfl
        cases hquote
      obtain ⟨m, hm⟩ := quotedFrom_written hescape htext behind [] c.utf8Size
      rw [hread] at hm
      cases hm
  · rw [if_neg hquote] at h
    split at h
    · cases h
    · rename_i hread
      cases h
      refine .inr ⟨rfl, fun t word hword hpre => ?_⟩
      cases hword with
      | number hne hdigits =>
        obtain ⟨d, digits, rfl⟩ := List.exists_cons_of_ne_nil hne
        obtain ⟨rfl, -⟩ := List.cons_prefix_cons.1 hpre
        exact hdigit (hdigits d (by simp))
      | ident hc _ =>
        obtain ⟨rfl, -⟩ := List.cons_prefix_cons.1 hpre
        exact hident hc
      | str hq _ =>
        obtain ⟨rfl, -⟩ := List.cons_prefix_cons.1 hpre
        exact hquote hq
      | mark hmark =>
        obtain ⟨rest, hrest⟩ := hpre
        rw [← hrest] at hread
        exact operator?_mark_ne_none hmark rest hread

end ShardedSql.Token
