import ShardedSql.Render.Conversion
import Mathlib.Tactic

/-! The reader of identifier quotes, one character at a time. Where it looks ahead for the second
character of `/*`, `--`, `*/`, an escape or a doubled quote, it can as well remember the first one: what
it writes for a character hangs on nothing but the characters before. -/

namespace ShardedSql

namespace IdentifierQuotes

/-- What the characters before say about the next one. -/
inductive Mode where
  | code
  /-- Code behind a slash. -/
  | slash
  /-- Code behind a dash. -/
  | dash
  | literal
  /-- A literal behind a backslash. -/
  | escape
  | lineComment
  | blockComment
  /-- A block comment behind an asterisk. -/
  | star
  deriving DecidableEq

namespace Mode

def inCode : Mode → Bool
  | code | slash | dash => true
  | _ => false

/-- Behind a character of code. -/
def afterCode (c : Char) : Mode :=
  if c = '\'' then literal else if c = '#' then lineComment
  else if c = '/' then slash else if c = '-' then dash else code

def next : Mode → Char → Mode
  | code, c => afterCode c
  | slash, c => if c = '*' then blockComment else afterCode c
  | dash, c => if c = '-' then lineComment else afterCode c
  | literal, c => if c = '\\' then escape else if c = '\'' then code else literal
  | escape, _ => literal
  | lineComment, c => if c = '\n' then code else lineComment
  | blockComment, c => if c = '*' then star else blockComment
  | star, c => if c = '/' then code else if c = '*' then star else blockComment

/-- Behind all these characters. -/
def after (m : Mode) (cs : List Char) : Mode := cs.foldl next m

/-- What is written for a character. -/
def written (m : Mode) (c : Char) : Char := if m.inCode ∧ c = '\x60' then '\x22' else c

def spelled : Mode → List Char → List Char
  | _, [] => []
  | m, c :: cs => m.written c :: spelled (m.next c) cs

/-- Whether a double quote stands in code. -/
def refuses : Mode → List Char → Bool
  | _, [] => false
  | m, c :: cs => m.inCode && c == '\x22' || refuses (m.next c) cs

variable {m : Mode} {c : Char} {cs ds : List Char}

theorem after_append : m.after (cs ++ ds) = (m.after cs).after ds := List.foldl_append

theorem spelled_append : m.spelled (cs ++ ds) = m.spelled cs ++ (m.after cs).spelled ds := by
  induction cs generalizing m with
  | nil => rfl
  | cons c cs ih => exact congrArg (m.written c :: ·) ih

theorem refuses_append : m.refuses (cs ++ ds) = (m.refuses cs || (m.after cs).refuses ds) := by
  induction cs generalizing m with
  | nil => rfl
  | cons c cs ih =>
    rw [List.cons_append, refuses, refuses, ih, Bool.or_assoc]
    rfl

/-- Nothing but back quotes is changed. -/
theorem spelled_eq_self (h : '\x60' ∉ cs) : m.spelled cs = cs := by
  induction cs generalizing m with
  | nil => rfl
  | cons c cs ih =>
    obtain ⟨hc, hcs⟩ := List.ne_and_not_mem_of_not_mem_cons h
    rw [spelled, written, if_neg fun hq => hc hq.2.symm, ih hcs]

/-- Nothing but double quotes is refused. -/
theorem refuses_eq_false (h : '\x22' ∉ cs) : m.refuses cs = false := by
  induction cs generalizing m with
  | nil => rfl
  | cons c cs ih =>
    obtain ⟨hc, hcs⟩ := List.ne_and_not_mem_of_not_mem_cons h
    rw [refuses, ih hcs, beq_eq_false_iff_ne.2 hc.symm, Bool.and_false, Bool.or_false]

end Mode

def Region.mode : Region → Mode
  | code => .code
  | literal => .literal
  | lineComment => .lineComment
  | blockComment => .blockComment

/-- What the reader comes to from one of its modes. -/
def read (target : Dialect) (m : Mode) (cs : List Char) : Except ConversionError (List Char) :=
  if m.refuses cs then .error (.doubleQuoted target) else .ok (m.spelled cs)

section Read

variable {target : Dialect} {m m' : Mode} {c : Char} {cs : List Char}

/-- The first character is written, and the others are read behind it. -/
theorem read_cons (hc : m.inCode = false ∨ c ≠ '\x22') :
    read target m (c :: cs) = (do .ok (m.written c :: (← read target (m.next c) cs))) := by
  have hfree : (m.inCode && c == '\x22') = false := by
    rw [Bool.and_eq_false_iff, beq_eq_false_iff_ne]
    exact hc
  unfold read
  rw [Mode.refuses, hfree, Bool.false_or, Mode.spelled]
  split <;> rfl

theorem read_two {c' : Char} (hc : m.inCode = false ∨ c ≠ '\x22')
    (hc' : (m.next c).inCode = false ∨ c' ≠ '\x22') :
    read target m (c :: c' :: cs) = (do
      .ok (m.written c :: (m.next c).written c' :: (← read target ((m.next c).next c') cs))) := by
  rw [read_cons hc, read_cons hc']
  cases read target ((m.next c).next c') cs <;> rfl

/-- Two modes read alike what begins with a character behind which they are the same. -/
theorem read_congr (hcode : m.inCode = m'.inCode) (hnext : ∀ c ∈ cs.head?, m.next c = m'.next c) :
    read target m cs = read target m' cs := by
  cases cs with
  | nil => rfl
  | cons c cs =>
    have hwritten : m.written c = m'.written c := by rw [Mode.written, Mode.written, hcode]
    rw [read, read, Mode.refuses, Mode.refuses, Mode.spelled, Mode.spelled, hcode, hwritten,
      hnext c rfl]

/-- A slash stays behind in code that does not go on with an asterisk. -/
theorem read_slash (h : ∀ rest, cs ≠ '*' :: rest) : read target .slash cs = read target .code cs := by
  refine read_congr rfl fun c hc => if_neg ?_
  rintro rfl
  exact h _ (List.eq_cons_of_mem_head? hc)

theorem read_dash (h : ∀ rest, cs ≠ '-' :: rest) : read target .dash cs = read target .code cs := by
  refine read_congr rfl fun c hc => if_neg ?_
  rintro rfl
  exact h _ (List.eq_cons_of_mem_head? hc)

theorem read_star (h : ∀ rest, cs ≠ '/' :: rest) :
    read target .star cs = read target .blockComment cs := by
  refine read_congr rfl fun c hc => if_neg ?_
  rintro rfl
  exact h _ (List.eq_cons_of_mem_head? hc)

end Read

/-- The reader reads as its modes say. -/
theorem requote_eq_read (target : Dialect) (region : Region) (cs : List Char) :
    requote target region cs = read target region.mode cs := by
  fun_induction requote target region cs with
  | case1 => rfl
  | case2 r ih =>
    rw [ih]
    exact Eq.symm (read_two (.inr (by decide)) (.inr (by decide)))
  | case3 r ih =>
    rw [ih]
    exact Eq.symm (read_two (.inr (by decide)) (.inr (by decide)))
  | case4 r ih =>
    rw [ih]
    exact Eq.symm (read_cons (.inr (by decide)))
  | case5 r => rfl
  | case6 c r hslash hdash hback hdouble region ih =>
    have hrest : read target region.mode r = read target (Mode.afterCode c) r := by
      simp only [region, Mode.afterCode, beq_iff_eq]
      split_ifs with _ _ hc hc
      · rfl
      · rfl
      · exact (read_slash fun rest => hslash rest hc).symm
      · exact (read_dash fun rest => hdash rest hc).symm
      · rfl
    have hwritten : Mode.code.written c = c := if_neg fun h => hback h.2
    rw [ih, hrest, Region.mode, read_cons (.inr hdouble), hwritten, Mode.next]
  | case7 c r ih =>
    rw [ih]
    exact Eq.symm (read_two (.inl rfl) (.inl rfl))
  | case8 r ih =>
    rw [ih]
    exact Eq.symm (read_two (.inl rfl) (.inr (by decide)))
  | case9 c r hescape hdoubled ih =>
    have hrest : read target (if c == '\'' then Region.code else .literal).mode r =
        read target (Mode.literal.next c) r := by
      by_cases hc : c = '\\'
      · cases r with
        | nil => simp only [hc]; rfl
        | cons d r => exact (hescape d r hc rfl).elim
      · simp only [Mode.next, if_neg hc, beq_iff_eq]
        split_ifs <;> rfl
    rw [ih, hrest, Region.mode, read_cons (.inl rfl)]
    rfl
  | case10 c r ih =>
    have hrest : read target (if c == '\n' then Region.code else .lineComment).mode r =
        read target (Mode.lineComment.next c) r := by
      simp only [Mode.next, beq_iff_eq]
      split_ifs <;> rfl
    rw [ih, hrest, Region.mode, read_cons (.inl rfl)]
    rfl
  | case11 r ih =>
    rw [ih]
    exact Eq.symm (read_two (.inl rfl) (.inl rfl))
  | case12 c r hstar ih =>
    have hrest : read target .blockComment r = read target (Mode.blockComment.next c) r := by
      rw [Mode.next]
      split_ifs with hc
      · exact (read_star fun rest => hstar rest hc).symm
      · rfl
    rw [ih, Region.mode, read_cons (.inl rfl), hrest]
    rfl

end IdentifierQuotes

/-- For a dialect that quotes as ANSI does a statement is read from its start; its parameters stay. -/
theorem Converter.identifierQuotes_eq {target : Dialect} (h : target.ansiQuotes = true)
    (unit : BoundSql) (query : Query) :
    identifierQuotes unit query target =
      if IdentifierQuotes.Mode.code.refuses unit.sql.toList then .error (.doubleQuoted target)
      else .ok ⟨String.ofList (IdentifierQuotes.Mode.code.spelled unit.sql.toList), unit.params⟩ := by
  unfold identifierQuotes
  rw [if_pos h, IdentifierQuotes.requote_eq_read, IdentifierQuotes.Region.mode, IdentifierQuotes.read]
  split <;> rfl

end ShardedSql
