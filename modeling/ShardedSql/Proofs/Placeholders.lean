import Mathlib.Data.List.Chain
import Mathlib.Data.List.Infix
import ShardedSql.Proofs.Displacement
import ShardedSql.Proofs.Grammar
import ShardedSql.Template.Basic

/-!
Templates are cut where they were put together: the search for the closing brace and the scanner of
expressions agree on where each string begins and ends. -/

namespace ShardedSql.Template

/-! ### The body of a placeholder -/

/-- The search for the closing brace goes over the characters, in no string and at no depth before and
behind them. -/
def Passes (word : List Char) : Prop :=
  ∀ seen tail, splitBody 0 none seen (word ++ tail) = splitBody 0 none (word.reverse ++ seen) tail

theorem Passes.append {word word' : List Char} (h : Passes word) (h' : Passes word') :
    Passes (word ++ word') := by
  intro seen tail
  rw [List.append_assoc, h, h', List.reverse_append, List.append_assoc]

/-- Neither a quote nor a brace. -/
def isPlain (c : Char) : Bool := !Token.isQuote c && c != '\x7b' && c != '\x7d'

theorem splitBody_plain {c : Char} (hc : isPlain c = true) (depth : Nat) (seen r : List Char) :
    splitBody depth none seen (c :: r) = splitBody depth none (c :: seen) r := by
  simp only [isPlain, Bool.and_eq_true, Bool.not_eq_true', bne_iff_ne] at hc
  rw [splitBody.eq_def]
  simp [hc.1.1, hc.1.2, hc.2]

theorem passes_plain {word : List Char} (h : ∀ c ∈ word, isPlain c = true) : Passes word := by
  induction word with
  | nil => exact fun _ _ => rfl
  | cons c word ih =>
    intro seen tail
    rw [List.cons_append, splitBody_plain (h c (by simp)), ih fun d hd => h d (by simp [hd]),
      List.reverse_cons, List.append_assoc]
    rfl

theorem isPlain_of_isIdentRest {c : Char} (h : Token.isIdentRest c = true) : isPlain c = true := by
  simp only [isPlain, Token.isQuote, Bool.and_eq_true, Bool.not_eq_true', bne_iff_ne,
    Bool.or_eq_false_iff, beq_eq_false_iff_ne]
  refine ⟨⟨⟨?_, ?_⟩, ?_⟩, ?_⟩ <;> (rintro rfl; revert h; decide)

theorem isPlain_of_isSpace {c : Char} (h : Token.isSpace c = true) : isPlain c = true := by
  simp only [Token.isSpace, Bool.or_eq_true, beq_iff_eq] at h
  obtain ((rfl | rfl) | rfl) | rfl := h <;> rfl

theorem splitBody_inString {depth : Nat} {quote c : Char} (hescape : c ≠ '\\') (seen r : List Char) :
    splitBody depth (some quote) seen (c :: r) =
      splitBody depth (if c = quote then none else some quote) (c :: seen) r := by
  rw [splitBody.eq_def]
  simp [hescape]

theorem splitBody_escaped (depth : Nat) (quote c : Char) (seen r : List Char) :
    splitBody depth (some quote) seen ('\\' :: c :: r) =
      splitBody depth (some quote) (c :: '\\' :: seen) r := by
  rw [splitBody.eq_def]
  simp

/-- Behind its opening quote a string ends for the search where it ends for the scanner. -/
theorem splitBody_quoted {quote : Char} (hquote : quote ≠ '\\') {before : List Char} {n : Nat}
    {cs : List Char} {text : List Char} {m : Nat} {rest : List Char}
    (h : Token.quotedFrom quote before n cs = some (text, m, rest)) :
    ∃ word, cs = word ++ rest ∧ ∀ depth seen tail,
      splitBody depth (some quote) seen (word ++ tail) = splitBody depth none (word.reverse ++ seen) tail := by
  fun_induction Token.quotedFrom quote before n cs with
  | case1 => cases h
  | case2 before n c r hc =>
    cases h
    obtain rfl : c = quote := by simpa using hc
    refine ⟨[c], rfl, fun depth seen tail => ?_⟩
    rw [List.singleton_append, splitBody_inString hquote, if_pos rfl]
    rfl
  | case3 => cases h
  | case4 before n c hc hescape d r ih =>
    obtain rfl : c = '\\' := by simpa using hescape
    obtain ⟨word, rfl, hword⟩ := ih h
    refine ⟨'\\' :: d :: word, rfl, fun depth seen tail => ?_⟩
    rw [List.cons_append, List.cons_append, splitBody_escaped, hword]
    simp
  | case5 before n c r hc hescape ih =>
    obtain ⟨word, rfl, hword⟩ := ih h
    refine ⟨c :: word, rfl, fun depth seen tail => ?_⟩
    rw [List.cons_append, splitBody_inString (by simpa using hescape), if_neg (by simpa using hc), hword]
    simp

theorem operator?_eq_some {cs rest : List Char} {t : Token} (h : Token.operator? cs = some (t, rest)) :
    cs = t.text.toList ++ rest ∧ t.isMark = true := by
  unfold Token.operator? at h
  split at h <;> cases h <;> exact ⟨rfl, rfl⟩

/-- No mark is a quote or a brace. -/
theorem isPlain_mark {t : Token} (h : t.isMark = true) : ∀ c ∈ t.text.toList, isPlain c = true := by
  cases t <;> first | exact absurd h Bool.false_ne_true | exact List.all_eq_true.1 rfl

/-- The search goes over every token that the scanner finds. -/
theorem next_passes {position : Nat} {c : Char} {r : List Char} {t : Token} {n : Nat} {rest : List Char}
    (h : Token.next position c r = .ok (t, n, rest)) :
    ∃ word, c :: r = word ++ rest ∧ word ≠ [] ∧ Passes word := by
  rw [Token.next] at h
  by_cases hdigit : c.isDigit = true
  · rw [if_pos hdigit] at h
    cases h
    refine ⟨c :: r.takeWhile Char.isDigit, by simp, by simp, passes_plain fun d hd => ?_⟩
    obtain rfl | hd := List.mem_cons.1 hd
    · exact isPlain_of_isIdentRest (Token.isIdentRest_of_isDigit hdigit)
    · exact isPlain_of_isIdentRest (Token.isIdentRest_of_isDigit (List.mem_takeWhile_imp hd))
  rw [if_neg hdigit] at h
  by_cases hident : Token.isIdentStart c = true
  · rw [if_pos hident] at h
    cases h
    refine ⟨c :: r.takeWhile Token.isIdentRest, by simp, by simp, passes_plain fun d hd => ?_⟩
    obtain rfl | hd := List.mem_cons.1 hd
    · exact isPlain_of_isIdentRest (Token.isIdentRest_of_isIdentStart hident)
    · exact isPlain_of_isIdentRest (List.mem_takeWhile_imp hd)
  rw [if_neg hident] at h
  by_cases hquote : Token.isQuote c = true
  · rw [if_pos hquote] at h
    split at h
    · rename_i hread
      cases h
      have hc : c ≠ '\\' := by
        rintro rfl
        exact absurd hquote (by decide)
      obtain ⟨word, rfl, hword⟩ := splitBody_quoted hc hread
      refine ⟨c :: word, rfl, by simp, fun seen tail => ?_⟩
      rw [List.cons_append, splitBody.eq_def]
      simp only [hquote, if_true]
      rw [hword]
      simp
    · cases h
  · rw [if_neg hquote] at h
    split at h
    · rename_i hread
      cases h
      obtain ⟨hcs, hmark⟩ := operator?_eq_some hread
      refine ⟨t.text.toList, hcs, ?_, passes_plain (isPlain_mark hmark)⟩
      obtain ⟨_, _, hword, -⟩ := Token.mark_starts hmark
      simp [hword]
    · cases h

/-- The search goes over a text that the scanner accepts. -/
theorem scanFrom_passes {fuel position : Nat} {seen : List Token.Placed} {cs : List Char}
    {s : Token.Stream} (h : Token.scanFrom fuel position seen cs = .ok s) (hfuel : cs.length ≤ fuel) :
    Passes cs := by
  induction fuel generalizing position seen cs with
  | zero =>
    obtain rfl := List.length_eq_zero_iff.1 (Nat.le_zero.1 hfuel)
    exact fun _ _ => rfl
  | succ fuel ih =>
    cases cs with
    | nil => exact fun _ _ => rfl
    | cons c r =>
      rw [Token.scanFrom] at h
      by_cases hspace : Token.isSpace c = true
      · rw [if_pos hspace] at h
        have hc : Passes [c] := passes_plain fun d hd => by
          rw [List.mem_singleton.1 hd]
          exact isPlain_of_isSpace hspace
        exact hc.append (ih h (by simpa using hfuel))
      · rw [if_neg hspace] at h
        obtain ⟨⟨t, n, rest⟩, hnext, h⟩ := bind_eq_ok.1 h
        obtain ⟨word, hcs, hne, hword⟩ := next_passes hnext
        have hlength : (c :: r).length = word.length + rest.length := by rw [hcs, List.length_append]
        have hpos := List.length_pos_iff.2 hne
        rw [hcs]
        exact hword.append (ih h (by omega))

/-- A body that is an expression is cut off at the brace behind it. -/
theorem splitBody_of_parse {body : String} {base : Nat} {e : Expr}
    (h : Expr.parse body base = .ok e) (rest : List Char) :
    splitBody 0 none [] (body.toList ++ '\x7d' :: rest) = some (body.toList, rest) := by
  obtain ⟨s, hscan, -⟩ := bind_eq_ok.1 h
  obtain ⟨s', hscan, -⟩ := bind_eq_ok.1 hscan
  rw [scanFrom_passes hscan (by rw [String.length_toList]), List.append_nil]
  change some (body.toList.reverse.reverse, rest) = _
  rw [List.reverse_reverse]

/-! ### Openings -/

def opening : List Char := ['$', '\x7b']

/-- The other spelling of the opening. -/
def aliasOpening : List Char := ['$', '-', '>', '\x7b']

/-- A pattern that begins in a text lies within it, when what follows the text begins with none of the
pattern's later characters. -/
theorem prefix_of_crossing {pattern v r : List Char} (h : pattern <+: v ++ r) (hne : v ≠ [])
    (hr : ∀ c ∈ r.head?, c ∉ pattern.tail) : pattern <+: v := by
  obtain hv | ⟨behind, rfl⟩ := List.prefix_or_prefix_of_prefix h (List.prefix_append v r)
  · exact hv
  · cases behind with
    | nil => simp
    | cons c behind =>
      obtain ⟨rest, hrest⟩ := (List.prefix_append_right_inj v).1 h
      refine absurd ?_ (hr c (by simp [← hrest]))
      simp [List.tail_append_of_ne_nil hne]

theorem normalizeFrom_cons {c : Char} {r : List Char} (h : ¬ aliasOpening <+: c :: r)
    (seen : List Char) : normalizeFrom seen (c :: r) = normalizeFrom (c :: seen) r := by
  rw [normalizeFrom]
  rintro r' rfl rfl
  exact h ⟨r', rfl⟩

theorem splitOpening_cons {c : Char} {r : List Char} (h : ¬ opening <+: c :: r) (seen : List Char) :
    splitOpening seen (c :: r) = splitOpening (c :: seen) r := by
  rw [splitOpening]
  rintro r' rfl rfl
  exact h ⟨r', rfl⟩

/-- What has no opening in the other spelling is left as it is, also where a placeholder opens or
closes behind it. -/
theorem normalizeFrom_free {w r : List Char} (hfree : ¬ aliasOpening <:+: w)
    (hr : ∀ c ∈ r.head?, c = '$' ∨ c = '\x7d') (seen : List Char) :
    normalizeFrom seen (w ++ r) = normalizeFrom (w.reverse ++ seen) r := by
  have htail : ∀ c ∈ r.head?, c ∉ aliasOpening.tail := by
    intro c hc
    obtain rfl | rfl := hr c hc <;> decide
  induction w generalizing seen with
  | nil => rfl
  | cons c w ih =>
    have hstart : ¬ aliasOpening <+: c :: (w ++ r) := fun h =>
      hfree (prefix_of_crossing h (List.cons_ne_nil c w) htail).isInfix
    rw [List.cons_append, normalizeFrom_cons hstart, ih fun h => hfree (List.infix_cons h)]
    simp

/-- The search for an opening goes over what has none, up to the one behind it. -/
theorem splitOpening_free {w r : List Char} (hfree : ¬ opening <:+: w)
    (hr : ∀ c ∈ r.head?, c = '$') (seen : List Char) :
    splitOpening seen (w ++ r) = splitOpening (w.reverse ++ seen) r := by
  have htail : ∀ c ∈ r.head?, c ∉ opening.tail := by
    intro c hc
    obtain rfl := hr c hc
    decide
  induction w generalizing seen with
  | nil => rfl
  | cons c w ih =>
    have hstart : ¬ opening <+: c :: (w ++ r) := fun h =>
      hfree (prefix_of_crossing h (List.cons_ne_nil c w) htail).isInfix
    rw [List.cons_append, splitOpening_cons hstart, ih fun h => hfree (List.infix_cons h)]
    simp

theorem splitOpening_opening {w : List Char} (hfree : ¬ opening <:+: w) (r : List Char) :
    splitOpening [] (w ++ (opening ++ r)) = (w, some r) := by
  rw [splitOpening_free hfree (by simp [opening]), List.append_nil]
  change splitOpening w.reverse ('$' :: '\x7b' :: r) = _
  rw [splitOpening, List.reverse_reverse]

theorem splitOpening_text {w : List Char} (hfree : ¬ opening <:+: w) : splitOpening [] w = (w, none) := by
  have hsplit := splitOpening_free (r := []) hfree (by simp) []
  rwa [List.append_nil, List.append_nil, splitOpening, List.reverse_reverse] at hsplit

theorem segmentsFrom_text {w : List Char} (hfree : ¬ opening <:+: w) (fuel position : Nat) :
    segmentsFrom fuel position w = .ok (textSegment w) := by
  cases fuel with
  | zero => rfl
  | succ fuel => rw [segmentsFrom, splitOpening_text hfree]

/-! ### Pieces -/

/-- A part of a template: a text, or a placeholder in one of its spellings with its body and the tree
of the body. -/
inductive Piece where
  | text (s : String)
  | placeholder (aliased : Bool) (body : String) (e : Expr)

namespace Piece

def written : Piece → List Char
  | text s => s.toList
  | placeholder aliased body _ =>
    (if aliased then aliasOpening else opening) ++ (body.toList ++ ['\x7d'])

/-- The piece with the usual opening. -/
def normal : Piece → List Char
  | text s => s.toList
  | placeholder _ body _ => opening ++ (body.toList ++ ['\x7d'])

def segment : Piece → Segment
  | text s => .text s
  | placeholder _ _ e => .placeholder e

def isText : Piece → Bool
  | text _ => true
  | placeholder _ _ _ => false

/-- A text is not empty and has no opening; a body is an expression and has no opening in the other
spelling. -/
def WellFormed : Piece → Prop
  | text s => s ≠ "" ∧ ¬ opening <:+: s.toList ∧ ¬ aliasOpening <:+: s.toList
  | placeholder _ body e => (∃ base, Expr.parse body base = .ok e) ∧ ¬ aliasOpening <:+: body.toList

end Piece

/-- The pieces are well-formed, and no two texts are adjacent. -/
structure Assembled (pieces : List Piece) : Prop where
  formed : ∀ p ∈ pieces, p.WellFormed
  apart : pieces.IsChain fun p q => p.isText = false ∨ q.isText = false

section Pieces

variable {p : Piece} {ps : List Piece}

theorem Assembled.tail (h : Assembled (p :: ps)) : Assembled ps :=
  ⟨fun q hq => h.formed q (by simp [hq]), h.apart.tail⟩

theorem Assembled.behind_text {s : String} (h : Assembled (.text s :: ps)) :
    ∀ q ∈ ps.head?, q.isText = false := by
  intro q hq
  cases ps with
  | nil => cases hq
  | cons q' ps =>
    obtain rfl : q' = q := by simpa using hq
    exact (List.isChain_cons_cons.1 h.apart).1.resolve_left (by simp [Piece.isText])

/-- Where no text follows, a placeholder opens or the template ends. -/
theorem head_pieces (h : ∀ q ∈ ps.head?, q.isText = false) :
    (∀ c ∈ (ps.flatMap Piece.written).head?, c = '$') ∧ ∀ c ∈ (ps.flatMap Piece.normal).head?, c = '$' := by
  cases ps with
  | nil => simp
  | cons q ps =>
    cases q with
    | text s => cases h (.text s) rfl
    | placeholder aliased body e =>
      cases aliased <;> simp [Piece.written, Piece.normal, opening, aliasOpening]

theorem normalizeFrom_opening (aliased : Bool) (seen r : List Char) :
    normalizeFrom seen ((if aliased then aliasOpening else opening) ++ r) =
      normalizeFrom (opening.reverse ++ seen) r := by
  cases aliased with
  | true => rfl
  | false =>
    change normalizeFrom seen ('$' :: '\x7b' :: r) = normalizeFrom ('\x7b' :: '$' :: seen) r
    rw [normalizeFrom_cons (by simp [aliasOpening]), normalizeFrom_cons (by simp [aliasOpening])]

/-- Every opening gets its usual spelling, and nothing else changes. -/
theorem normalizeFrom_pieces (h : Assembled ps) (seen : List Char) :
    normalizeFrom seen (ps.flatMap Piece.written) = seen.reverse ++ ps.flatMap Piece.normal := by
  induction ps generalizing seen with
  | nil =>
    change seen.reverse = seen.reverse ++ []
    rw [List.append_nil]
  | cons p ps ih =>
    rw [List.flatMap_cons, List.flatMap_cons]
    cases p with
    | text s =>
      obtain ⟨-, -, hfree⟩ := h.formed (.text s) (by simp)
      have hhead := (head_pieces h.behind_text).1
      change normalizeFrom seen (s.toList ++ ps.flatMap Piece.written) = _
      rw [normalizeFrom_free hfree fun c hc => .inl (hhead c hc), ih h.tail]
      simp [Piece.normal]
    | placeholder aliased body e =>
      obtain ⟨-, hfree⟩ := h.formed (.placeholder aliased body e) (by simp)
      rw [Piece.written, List.append_assoc, normalizeFrom_opening, List.append_assoc,
        normalizeFrom_free hfree (by simp), List.singleton_append, normalizeFrom_cons (by simp [aliasOpening]),
        ih h.tail]
      simp [Piece.normal]

/-- A text that has no opening is cut off before the pieces behind it, and the pieces are read one after
another. -/
theorem segmentsFrom_pieces (h : Assembled ps) {w : List Char} (hfree : ¬ opening <:+: w)
    (hw : w = [] ∨ ∀ q ∈ ps.head?, q.isText = false) {fuel : Nat}
    (hfuel : (w ++ ps.flatMap Piece.normal).length ≤ fuel) (position : Nat) :
    segmentsFrom fuel position (w ++ ps.flatMap Piece.normal) =
      .ok (textSegment w ++ ps.map Piece.segment) := by
  -- A text becomes the part before the next placeholder, and is cut off when that one is reached.
  induction ps generalizing w fuel position with
  | nil =>
    rw [List.flatMap_nil, List.append_nil, List.map_nil, List.append_nil]
    exact segmentsFrom_text hfree fuel position
  | cons p ps ih =>
    cases p with
    | text s =>
      obtain ⟨hne, hopening, -⟩ := h.formed (.text s) (by simp)
      obtain rfl : w = [] := hw.resolve_right fun hnot => Bool.false_ne_true (hnot (.text s) rfl).symm
      have hread := ih h.tail hopening (.inr h.behind_text) hfuel position
      have hsegment : textSegment s.toList = [.text s] := by
        rw [textSegment, if_neg (by simpa using hne), String.ofList_toList]
      rw [hsegment] at hread
      exact hread
    | placeholder aliased body e =>
      obtain ⟨⟨base, hparse⟩, -⟩ := h.formed (.placeholder aliased body e) (by simp)
      generalize hinside : body.toList ++ '\x7d' :: ps.flatMap Piece.normal = inside
      have hnormal : (Piece.placeholder aliased body e :: ps).flatMap Piece.normal = opening ++ inside := by
        simp [Piece.normal, ← hinside]
      have hbody : splitBody 0 none [] inside = some (body.toList, ps.flatMap Piece.normal) := by
        rw [← hinside]
        exact splitBody_of_parse hparse _
      rw [hnormal] at hfuel ⊢
      have hrest : (ps.flatMap Piece.normal).length < inside.length := by
        rw [← hinside, List.length_append, List.length_cons]
        omega
      simp only [List.length_append, opening, List.length_cons] at hfuel
      cases fuel with
      | zero => omega
      | succ fuel =>
        have hnone : ¬ opening <:+: ([] : List Char) := by simp [opening]
        have hshort : ([] ++ ps.flatMap Piece.normal).length ≤ fuel := by
          rw [List.nil_append]
          omega
        have hread := ih h.tail hnone (.inl rfl) hshort
        rw [segmentsFrom, splitOpening_opening hfree]
        dsimp only
        rw [hbody]
        dsimp only
        rw [String.ofList_toList, Expr.parse_displaced hparse, ← List.nil_append (ps.flatMap Piece.normal)]
        exact bind_eq_ok.2 ⟨e, rfl, bind_eq_ok.2 ⟨_, hread _, rfl⟩⟩

/-- A template that is put together from texts without an opening and from placeholders whose bodies are
expressions is cut into the same texts and the trees of the bodies, in order. -/
theorem parse_pieces (h : Assembled ps)
    (hsize : (String.ofList (ps.flatMap Piece.written)).utf8ByteSize ≤ maxBytes)
    (hblank : Text.blank (String.ofList (ps.flatMap Piece.written)) = false) :
    Template.parse (String.ofList (ps.flatMap Piece.written)) =
      .ok ⟨String.ofList (ps.flatMap Piece.normal), ps.map Piece.segment⟩ := by
  have hsource : normalize (String.ofList (ps.flatMap Piece.written)) =
      String.ofList (ps.flatMap Piece.normal) := by
    rw [normalize, String.toList_ofList, normalizeFrom_pieces h]
    rfl
  have hnone : ¬ opening <:+: ([] : List Char) := by simp [opening]
  have hread : segmentsFrom (String.ofList (ps.flatMap Piece.normal)).length 0
      (String.ofList (ps.flatMap Piece.normal)).toList = .ok (ps.map Piece.segment) := by
    rw [String.length_ofList, String.toList_ofList]
    exact segmentsFrom_pieces h hnone (.inl rfl) le_rfl 0
  rw [Template.parse, if_neg (by omega), hblank, if_neg Bool.false_ne_true, hsource]
  exact bind_eq_ok.2 ⟨_, hread, rfl⟩

/-- A concatenation whose string has braces, an opening and an escaped quote. -/
def quotedBraces : Expr := .binary .add (.literal (.str "\x7d' $\x7b\u00e9")) (.var "n")

def oneToTwo : Expr := .range (.literal (.int 1)) (.literal (.int 2))

/-- A text that ends in a dollar before a placeholder, and one that is only braces. -/
def crowded : List Piece :=
  [.text "t_$", .placeholder true quotedBraces.print quotedBraces, .placeholder false oneToTwo.print oneToTwo,
    .text "\x7b\x7d"]

theorem assembled_crowded : Assembled crowded := by
  have hquoted : quotedBraces.Printable := .binary (.str _) (.var (.of_char rfl rfl))
  have hrange : oneToTwo.Printable := .range (.int (by decide)) (.int (by decide))
  refine ⟨fun p hp => ?_, by decide⟩
  simp only [crowded, List.mem_cons, List.not_mem_nil, or_false] at hp
  obtain rfl | rfl | rfl | rfl := hp
  · exact ⟨by decide, by decide, by decide⟩
  · exact ⟨⟨0, (Expr.parse_written hquoted hquoted.writtenAs 0).reads (by decide)⟩, by decide⟩
  · exact ⟨⟨0, (Expr.parse_written hrange hrange.writtenAs 0).reads (by decide)⟩, by decide⟩
  · exact ⟨by decide, by decide, by decide⟩

theorem parse_pieces_crowded :
    Template.parse "t_$$->\x7b'\x7d\\' $\x7b\u00e9' + n\x7d$\x7b1 .. 2\x7d\x7b\x7d" =
      .ok ⟨"t_$$\x7b'\x7d\\' $\x7b\u00e9' + n\x7d$\x7b1 .. 2\x7d\x7b\x7d",
        [.text "t_$", .placeholder quotedBraces, .placeholder oneToTwo, .text "\x7b\x7d"]⟩ := by
  have hwritten : String.ofList (crowded.flatMap Piece.written) =
      "t_$$->\x7b'\x7d\\' $\x7b\u00e9' + n\x7d$\x7b1 .. 2\x7d\x7b\x7d" := by decide
  have hnormal : String.ofList (crowded.flatMap Piece.normal) =
      "t_$$\x7b'\x7d\\' $\x7b\u00e9' + n\x7d$\x7b1 .. 2\x7d\x7b\x7d" := by decide
  have hparse := parse_pieces assembled_crowded (by rw [hwritten]; decide) (by rw [hwritten]; decide)
  rwa [hwritten, hnormal] at hparse

end Pieces

end ShardedSql.Template
