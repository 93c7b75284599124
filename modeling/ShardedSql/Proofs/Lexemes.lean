import ShardedSql.Proofs.QuoteReader

/-! A statement as a sequence of lexemes, and what the reader of identifier quotes makes of it. The reader
does not know that it is inside an identifier: it reads the name as code, and where a name opens a literal
or a comment that it does not close, the back quote behind it is not seen. -/

namespace ShardedSql

namespace IdentifierQuotes

/-- A character of a literal, one behind a backslash, or a doubled quote. -/
inductive LiteralPart where
  | plain (c : Char)
  | escaped (c : Char)
  | doubled

namespace LiteralPart

def chars : LiteralPart → List Char
  | plain c => [c]
  | escaped c => ['\\', c]
  | doubled => ['\'', '\'']

def WellFormed : LiteralPart → Prop
  | plain c => c ≠ '\'' ∧ c ≠ '\\'
  | _ => True

instance : DecidablePred WellFormed
  | .plain _ => inferInstanceAs (Decidable (_ ∧ _))
  | .escaped _ | .doubled => inferInstanceAs (Decidable True)

end LiteralPart

/-- A line comment is ended by a line break, or else by the end of the statement. -/
inductive Lexeme where
  | identifier (name : List Char)
  | literal (parts : List LiteralPart)
  | dashComment (text : List Char) (ended : Bool)
  | hashComment (text : List Char) (ended : Bool)
  | blockComment (text : List Char)
  | code (text : List Char)

namespace Lexeme

def lineEnd (ended : Bool) : List Char := if ended then ['\n'] else []

/-- The lexeme as it is written with this quote around identifiers. -/
def chars (quote : Char) : Lexeme → List Char
  | identifier name => quote :: (name ++ [quote])
  | literal parts => '\'' :: (parts.flatMap LiteralPart.chars ++ ['\''])
  | dashComment text ended => '-' :: '-' :: ' ' :: (text ++ lineEnd ended)
  | hashComment text ended => '#' :: (text ++ lineEnd ended)
  | blockComment text => '/' :: '*' :: (text ++ ['*', '/'])
  | code text => text

/-- The text opens no literal and no comment, wherever it stands in code. -/
def OpensNothing (text : List Char) : Prop :=
  '\'' ∉ text ∧ '#' ∉ text ∧ ¬ ['-', '-'] <:+: text ∧ ¬ ['/', '*'] <:+: text

instance : DecidablePred OpensNothing := fun _ => inferInstanceAs (Decidable (_ ∧ _))

def WellFormed : Lexeme → Prop
  | identifier name => name ≠ [] ∧ '\x60' ∉ name ∧ '\x22' ∉ name
  | literal parts => ∀ p ∈ parts, p.WellFormed
  | dashComment text _ => '\n' ∉ text
  | hashComment text _ => '\n' ∉ text
  | blockComment text => ¬ ['*', '/'] <:+: text
  | code text => text ≠ [] ∧ '\x60' ∉ text ∧ '\x22' ∉ text ∧ OpensNothing text

instance : DecidablePred WellFormed
  | .identifier _ => inferInstanceAs (Decidable (_ ∧ _))
  | .literal parts => inferInstanceAs (Decidable (∀ p ∈ parts, p.WellFormed))
  | .dashComment _ _ | .hashComment _ _ | .blockComment _ => inferInstanceAs (Decidable (¬ _))
  | .code _ => inferInstanceAs (Decidable (_ ∧ _))

def isCode : Lexeme → Bool
  | code _ => true
  | _ => false

/-- Whether another lexeme can follow. -/
def isEnded : Lexeme → Bool
  | dashComment _ ended | hashComment _ ended => ended
  | _ => true

/-- The second lexeme can stand behind the first one. Code goes on as far as it can. -/
def Precedes (l l' : Lexeme) : Prop := l.isEnded = true ∧ ¬ (l.isCode = true ∧ l'.isCode = true)

instance (l l' : Lexeme) : Decidable (l.Precedes l') := inferInstanceAs (Decidable (_ ∧ _))

end Lexeme

/-- A statement as a sequence of lexemes. -/
structure IsStatement (ls : List Lexeme) : Prop where
  wellFormed : ∀ l ∈ ls, l.WellFormed
  apart : ls.IsChain Lexeme.Precedes

/-- The reader gets over the characters, writes these for them, and goes on in this mode. -/
structure Reads (m : Mode) (cs out : List Char) (m' : Mode) : Prop where
  spelled : m.spelled cs = out
  refuses : m.refuses cs = false
  after : m.after cs = m'

namespace Reads

variable {m m' m'' : Mode} {c : Char} {cs ds out out' : List Char}

theorem append (h : Reads m cs out m') (h' : Reads m' ds out' m'') :
    Reads m (cs ++ ds) (out ++ out') m'' := by
  obtain ⟨rfl, hr, rfl⟩ := h
  obtain ⟨rfl, hr', rfl⟩ := h'
  refine ⟨Mode.spelled_append, ?_, Mode.after_append⟩
  rw [Mode.refuses_append, hr, hr']
  rfl

/-- Inside a literal or a comment a character is copied, and in code if it is no quote of identifiers. -/
theorem copy (hc : m.inCode = false ∨ c ≠ '\x60' ∧ c ≠ '\x22') (h : Reads (m.next c) cs out m') :
    Reads m (c :: cs) (c :: out) m' := by
  obtain ⟨rfl, hr, rfl⟩ := h
  refine ⟨?_, ?_, rfl⟩
  · rw [Mode.spelled, Mode.written, if_neg]
    rintro ⟨hcode, hquote⟩
    rcases hc with hc | ⟨hc, -⟩
    · exact Bool.false_ne_true (hc.symm.trans hcode)
    · exact hc hquote
  · rw [Mode.refuses, hr, Bool.or_false, Bool.and_eq_false_iff, beq_eq_false_iff_ne]
    exact hc.imp_right And.right

/-- What has no quote of identifiers is copied. -/
theorem copies (hback : '\x60' ∉ cs) (hdouble : '\x22' ∉ cs) : Reads m cs cs (m.after cs) :=
  ⟨Mode.spelled_eq_self hback, Mode.refuses_eq_false hdouble, rfl⟩

theorem literalPart {p : LiteralPart} (hp : p.WellFormed) : Reads .literal p.chars p.chars .literal := by
  cases p with
  | plain c =>
    obtain ⟨hquote, hescape⟩ := hp
    refine copy (.inl rfl) ⟨rfl, rfl, ?_⟩
    rw [Mode.next, if_neg hescape, if_neg hquote]
    rfl
  | escaped c => exact copy (.inl rfl) (copy (.inl rfl) ⟨rfl, rfl, rfl⟩)
  | doubled => exact copy (.inl rfl) (copy (.inr (by decide)) ⟨rfl, rfl, rfl⟩)

theorem literalParts {parts : List LiteralPart} (h : ∀ p ∈ parts, p.WellFormed) :
    Reads .literal (parts.flatMap LiteralPart.chars) (parts.flatMap LiteralPart.chars) .literal := by
  induction parts with
  | nil => exact ⟨rfl, rfl, rfl⟩
  | cons p parts ih =>
    obtain ⟨hp, hparts⟩ := List.forall_mem_cons.1 h
    exact (literalPart hp).append (ih hparts)

theorem lineText {text : List Char} (h : '\n' ∉ text) : Reads .lineComment text text .lineComment := by
  induction text with
  | nil => exact ⟨rfl, rfl, rfl⟩
  | cons c text ih =>
    obtain ⟨hc, htext⟩ := List.ne_and_not_mem_of_not_mem_cons h
    refine copy (.inl rfl) ?_
    rw [Mode.next, if_neg hc.symm]
    exact ih htext

/-- The text of a block comment may end in an asterisk. -/
theorem blockText {text : List Char} (h : ¬ ['*', '/'] <:+: text)
    (hm : m = .blockComment ∨ m = .star ∧ ∀ rest, text ≠ '/' :: rest) :
    ∃ m', (m' = .blockComment ∨ m' = .star) ∧ Reads m text text m' := by
  induction text generalizing m with
  | nil => exact ⟨m, hm.imp_right And.left, rfl, rfl, rfl⟩
  | cons c text ih =>
    have htext : ¬ ['*', '/'] <:+: text := fun hin => h (hin.trans (List.suffix_cons c text).isInfix)
    have hnext : m.next c = .blockComment ∨ m.next c = .star ∧ ∀ rest, text ≠ '/' :: rest := by
      have hstar : c = '*' → ∀ rest, text ≠ '/' :: rest := by
        rintro rfl rest rfl
        exact h ⟨[], rest, rfl⟩
      by_cases hc : c = '*'
      · right
        refine ⟨?_, hstar hc⟩
        rcases hm with rfl | ⟨rfl, -⟩ <;> rw [hc] <;> rfl
      · left
        rcases hm with rfl | ⟨rfl, hslash⟩
        · exact if_neg hc
        · have hc' : c ≠ '/' := fun heq => hslash text (heq ▸ rfl)
          rw [Mode.next, if_neg hc', if_neg hc]
    obtain ⟨m', hm', hread⟩ := ih htext hnext
    refine ⟨m', hm', copy (.inl ?_) hread⟩
    rcases hm with rfl | ⟨rfl, -⟩ <;> rfl

end Reads

/-- In code a character is read as behind a character of code, unless it goes on as a comment. -/
theorem Mode.next_inCode {m : Mode} {c : Char} (hm : m.inCode = true) (hdash : m = .dash → c ≠ '-')
    (hslash : m = .slash → c ≠ '*') : m.next c = Mode.afterCode c := by
  cases m with
  | code => rfl
  | slash => exact if_neg (hslash rfl)
  | dash => exact if_neg (hdash rfl)
  | _ => cases hm

/-- Code that opens nothing stays code. -/
theorem Mode.inCode_after {m : Mode} {text : List Char} (h : Lexeme.OpensNothing text)
    (hm : m.inCode = true) (hdash : m = .dash → ∀ rest, text ≠ '-' :: rest)
    (hslash : m = .slash → ∀ rest, text ≠ '*' :: rest) : (m.after text).inCode = true := by
  induction text generalizing m with
  | nil => exact hm
  | cons c text ih =>
    obtain ⟨hquotes, hhashes, hdashes, hblocks⟩ := h
    obtain ⟨hquote, hquotes⟩ := List.ne_and_not_mem_of_not_mem_cons hquotes
    obtain ⟨hhash, hhashes⟩ := List.ne_and_not_mem_of_not_mem_cons hhashes
    have hsuffix := (List.suffix_cons c text).isInfix
    have hnext : m.next c = if c = '/' then .slash else if c = '-' then .dash else .code := by
      rw [Mode.next_inCode hm (fun hd hc => hdash hd text (by rw [hc]))
        fun hs hc => hslash hs text (by rw [hc]), Mode.afterCode, if_neg hquote.symm, if_neg hhash.symm]
    change ((m.next c).after text).inCode = true
    rw [hnext]
    refine ih ⟨hquotes, hhashes, fun hin => hdashes (hin.trans hsuffix),
      fun hin => hblocks (hin.trans hsuffix)⟩ ?_ ?_ ?_
    · split_ifs <;> rfl
    · split_ifs with hc hc'
      · rintro ⟨⟩
      · rintro - rest rfl
        exact hdashes ⟨[], rest, by rw [hc']; rfl⟩
      · rintro ⟨⟩
    · split_ifs with hc hc'
      · rintro - rest rfl
        exact hblocks ⟨[], rest, by rw [hc]; rfl⟩
      · rintro ⟨⟩
      · rintro ⟨⟩

namespace Reads

variable {m m' : Mode} {cs out : List Char}

/-- Behind a slash or a dash as in other code. -/
theorem ofCode (hcode : Reads .code cs out m') (hslash : Reads .slash cs out m')
    (hdash : Reads .dash cs out m') (hm : m.inCode = true) : Reads m cs out m' := by
  cases m with
  | code => exact hcode
  | slash => exact hslash
  | dash => exact hdash
  | _ => cases hm

/-- In code the quote of an identifier is replaced. -/
theorem quote (hm : m.inCode = true) : Reads m ['\x60'] ['\x22'] .code :=
  ofCode ⟨rfl, rfl, rfl⟩ ⟨rfl, rfl, rfl⟩ ⟨rfl, rfl, rfl⟩ hm

/-- A line comment up to its end, or open at the end of the statement. -/
theorem lineRest {text : List Char} (ended : Bool) (h : '\n' ∉ text) :
    Reads .lineComment (text ++ Lexeme.lineEnd ended) (text ++ Lexeme.lineEnd ended)
      (if ended then .code else .lineComment) := by
  refine (lineText h).append ?_
  cases ended <;> exact ⟨rfl, rfl, rfl⟩

end Reads

/-- Read as code, the name closes every literal and every comment that it opens. -/
def ClosesAgain (name : List Char) : Prop := (Mode.code.after name).inCode = true

instance : DecidablePred ClosesAgain := fun _ => inferInstanceAs (Decidable (_ = true))

/-- The reader gets over a lexeme as it should, except over a name that leaves something open. -/
theorem reads_lexeme {m : Mode} {l : Lexeme} (hl : l.WellFormed) (hm : m.inCode = true)
    (hcode : l.isCode = true → m = .code) (hname : ∀ name, l = .identifier name → ClosesAgain name) :
    ∃ m', Reads m (l.chars '\x60') (l.chars '\x22') m' ∧
      (l.isEnded = true → m'.inCode = true ∧ (l.isCode = false → m' = .code)) := by
  cases l with
  | identifier name =>
    obtain ⟨-, hback, hdouble⟩ := hl
    have hread := (Reads.copies hback hdouble).append (Reads.quote (hname name rfl))
    exact ⟨.code, (Reads.quote hm).append hread, fun _ => ⟨rfl, fun _ => rfl⟩⟩
  | literal parts =>
    have hopening : Reads m ['\''] ['\''] .literal :=
      .ofCode ⟨rfl, rfl, rfl⟩ ⟨rfl, rfl, rfl⟩ ⟨rfl, rfl, rfl⟩ hm
    have hclosing : Reads .literal ['\''] ['\''] .code := ⟨rfl, rfl, rfl⟩
    have hread := (Reads.literalParts hl).append hclosing
    exact ⟨.code, hopening.append hread, fun _ => ⟨rfl, fun _ => rfl⟩⟩
  | dashComment text ended =>
    have hopening : Reads m ['-', '-', ' '] ['-', '-', ' '] .lineComment :=
      .ofCode ⟨rfl, rfl, rfl⟩ ⟨rfl, rfl, rfl⟩ ⟨rfl, rfl, rfl⟩ hm
    refine ⟨_, hopening.append (Reads.lineRest ended hl), fun hended => ?_⟩
    obtain rfl : ended = true := hended
    exact ⟨rfl, fun _ => rfl⟩
  | hashComment text ended =>
    have hopening : Reads m ['#'] ['#'] .lineComment :=
      .ofCode ⟨rfl, rfl, rfl⟩ ⟨rfl, rfl, rfl⟩ ⟨rfl, rfl, rfl⟩ hm
    refine ⟨_, hopening.append (Reads.lineRest ended hl), fun hended => ?_⟩
    obtain rfl : ended = true := hended
    exact ⟨rfl, fun _ => rfl⟩
  | blockComment text =>
    have hopening : Reads m ['/', '*'] ['/', '*'] .blockComment :=
      .ofCode ⟨rfl, rfl, rfl⟩ ⟨rfl, rfl, rfl⟩ ⟨rfl, rfl, rfl⟩ hm
    obtain ⟨m', hm', htext⟩ := Reads.blockText hl (.inl rfl)
    have hclosing : Reads m' ['*', '/'] ['*', '/'] .code := by
      rcases hm' with rfl | rfl <;> exact ⟨rfl, rfl, rfl⟩
    exact ⟨.code, hopening.append (htext.append hclosing), fun _ => ⟨rfl, fun _ => rfl⟩⟩
  | code text =>
    obtain rfl := hcode rfl
    obtain ⟨-, hback, hdouble, hopens⟩ := hl
    refine ⟨_, Reads.copies hback hdouble, fun _ => ⟨?_, by rintro ⟨⟩⟩⟩
    exact Mode.inCode_after hopens rfl (by rintro ⟨⟩) (by rintro ⟨⟩)

/-- The characters of a statement that is written with this quote around identifiers. -/
def spell (quote : Char) (ls : List Lexeme) : List Char := ls.flatMap (Lexeme.chars quote)

/-- A name that leaves something open swallows the quote behind it. -/
theorem spelled_ne_of_open {m : Mode} {name rest rest' : List Char} (hback : '\x60' ∉ name)
    (hopen : ¬ ClosesAgain name) (hm : m.inCode = true) :
    m.spelled ('\x60' :: (name ++ ['\x60']) ++ rest) ≠ '\x22' :: (name ++ ['\x22']) ++ rest' := by
  intro h
  have hspelled : m.spelled ('\x60' :: (name ++ ['\x60']) ++ rest) =
      '\x22' :: (name ++ (Mode.code.after name).spelled ('\x60' :: rest)) := by
    obtain ⟨hquote, -, hcode⟩ := Reads.quote hm
    change m.spelled (['\x60'] ++ (name ++ ['\x60'] ++ rest)) = _
    rw [Mode.spelled_append, hquote, hcode, List.append_assoc, Mode.spelled_append,
      Mode.spelled_eq_self hback]
    rfl
  rw [hspelled, List.cons_append, List.append_assoc, List.cons_inj_right, List.append_cancel_left_eq]
    at h
  have hwritten : (Mode.code.after name).written '\x60' = '\x60' := if_neg fun hc => hopen hc.1
  have hhead := (List.cons.inj h).1
  rw [hwritten] at hhead
  exact absurd hhead (by decide)

/-- What is written for a statement is the statement as it should be just where all names close what they
open. -/
theorem spelled_statement_iff {m : Mode} {ls : List Lexeme} (hls : ∀ l ∈ ls, l.WellFormed)
    (hapart : ls.IsChain Lexeme.Precedes) (hm : m.inCode = true)
    (hcode : ∀ l ∈ ls.head?, l.isCode = true → m = .code) :
    (m.refuses (spell '\x60' ls) = false ∧ m.spelled (spell '\x60' ls) = spell '\x22' ls) ↔
      ∀ name, .identifier name ∈ ls → ClosesAgain name := by
  induction ls generalizing m with
  | nil => exact ⟨fun _ _ h => absurd h List.not_mem_nil, fun _ => ⟨rfl, rfl⟩⟩
  | cons l ls ih =>
    obtain ⟨hl, hls⟩ := List.forall_mem_cons.1 hls
    by_cases hname : ∀ name, l = .identifier name → ClosesAgain name
    · obtain ⟨m', ⟨hspelled, hrefuses, rfl⟩, hended⟩ := reads_lexeme hl hm (hcode l rfl) hname
      have hrest : ((m.after (l.chars '\x60')).refuses (spell '\x60' ls) = false ∧
          (m.after (l.chars '\x60')).spelled (spell '\x60' ls) = spell '\x22' ls) ↔
            ∀ name, .identifier name ∈ ls → ClosesAgain name := by
        cases ls with
        | nil => exact ⟨fun _ _ h => absurd h List.not_mem_nil, fun _ => ⟨rfl, rfl⟩⟩
        | cons l' ls =>
          obtain ⟨⟨hend, htwo⟩, hapart⟩ := List.isChain_cons_cons.1 hapart
          obtain ⟨hm', hcode'⟩ := hended hend
          refine ih hls hapart hm' fun k hk hkcode => hcode' ?_
          cases hk
          exact Bool.eq_false_iff.2 fun hlcode => htwo ⟨hlcode, hkcode⟩
      have hspell (quote : Char) : spell quote (l :: ls) = l.chars quote ++ spell quote ls := rfl
      rw [hspell, hspell, Mode.refuses_append, hrefuses, Bool.false_or, Mode.spelled_append, hspelled,
        List.append_cancel_left_eq, hrest]
      constructor
      · intro h name hmem
        rcases List.mem_cons.1 hmem with heq | hmem
        · exact hname name heq.symm
        · exact h name hmem
      · exact fun h name hmem => h name (List.mem_cons_of_mem _ hmem)
    · push Not at hname
      obtain ⟨name, rfl, hopen⟩ := hname
      constructor
      · rintro ⟨-, hspelled⟩
        exact absurd hspelled (spelled_ne_of_open hl.2.1 hopen hm)
      · exact fun h => absurd (h name List.mem_cons_self) hopen

end IdentifierQuotes

open IdentifierQuotes

/-- A sequence of lexemes reaches a dialect that quotes as ANSI does in the spelling of that dialect, with
its parameters, just where every name closes the literals and the comments that it would open as code;
and so does a name that opens none. -/
theorem identifiers_requoted_iff {target : Dialect} (hansi : target.ansiQuotes = true)
    {ls : List Lexeme} (h : IsStatement ls) (params : List Value) (query : Query) :
    (Converter.identifierQuotes ⟨String.ofList (spell '\x60' ls), params⟩ query target =
        .ok ⟨String.ofList (spell '\x22' ls), params⟩ ↔
      ∀ name, .identifier name ∈ ls → ClosesAgain name) ∧
    ∀ name, Lexeme.OpensNothing name → ClosesAgain name := by
  constructor
  · rw [Converter.identifierQuotes_eq hansi, ← spelled_statement_iff h.wellFormed h.apart rfl
      fun _ _ _ => rfl]
    dsimp only
    rw [String.toList_ofList]
    cases hrefuses : Mode.code.refuses (spell '\x60' ls) with
    | true => simp
    | false => simp [String.ofList_inj]
  · intro name hname
    exact Mode.inCode_after hname rfl (by rintro ⟨⟩) (by rintro ⟨⟩)

/-- A name with a doubled quote, quotes of identifiers in a literal, and three kinds of comments. -/
def annotated : List Lexeme :=
  [.code "SELECT ".toList, .identifier "it''s".toList, .blockComment " don't \x60touch\x60 *".toList,
    .code " FROM ".toList, .identifier "t_user".toList, .code " WHERE note = ".toList,
    .literal [.plain 'i', .plain 't', .escaped '\'', .plain '\x60', .doubled],
    .code " -".toList, .dashComment "\x22quoted\x22".toList true, .identifier "id".toList,
    .code " = ?".toList, .hashComment "'".toList false]

def readLexemes (ls : List Lexeme) (params : List Value) : Query :=
  ⟨String.ofList (spell '\x60' ls), .of .select ["t_user"], params, .none⟩

def annotatedInAnsi : String :=
  "SELECT \x22it''s\x22/* don't \x60touch\x60 **/ FROM \x22t_user\x22 WHERE note = 'it\\'\x60''' " ++
    "--- \x22quoted\x22\n\x22id\x22 = ?#'"

theorem identifiers_requoted_annotated :
    IsStatement annotated ∧
      Converter.identifierQuotes ⟨String.ofList (spell '\x60' annotated), [.int 7]⟩
          (readLexemes annotated [.int 7]) .postgreSql = .ok ⟨annotatedInAnsi, [.int 7]⟩ := by
  have hstatement : IsStatement annotated := ⟨by decide +kernel, by decide +kernel⟩
  have hclosed : ∀ name, .identifier name ∈ annotated → ClosesAgain name := by
    intro name hname
    simp only [annotated, List.mem_cons, reduceCtorEq, Lexeme.identifier.injEq, List.not_mem_nil,
      false_or, or_false] at hname
    rcases hname with rfl | rfl | rfl <;> decide +kernel
  have hansi : String.ofList (spell '\x22' annotated) = annotatedInAnsi := by decide +kernel
  rw [← hansi]
  exact ⟨hstatement, (identifiers_requoted_iff rfl hstatement _ _).1.2 hclosed⟩

/-- A column whose name begins a comment where it is read as code. -/
def hashedColumn : List Lexeme :=
  [.code "SELECT ".toList, .identifier "a#b".toList, .code " FROM t".toList]

theorem hashed_column_half_requoted :
    IsStatement hashedColumn ∧
      Converter.identifierQuotes ⟨String.ofList (spell '\x60' hashedColumn), []⟩
          (readLexemes hashedColumn []) .postgreSql = .ok ⟨"SELECT \x22a#b\x60 FROM t", []⟩ ∧
      String.ofList (spell '\x22' hashedColumn) = "SELECT \x22a#b\x22 FROM t" :=
  ⟨⟨by decide +kernel, by decide +kernel⟩, by decide +kernel, by decide +kernel⟩

end ShardedSql
