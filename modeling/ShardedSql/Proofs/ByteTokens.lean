import ShardedSql.Proofs.ByteTexts
import ShardedSql.Proofs.Walks

/-! The tokens of an expression, found by an offset that moves over the bytes of the text. Every piece that is taken
begins and ends with characters, also behind a backslash, and every token moves the offset on. -/

namespace ShardedSql.Token

open Text (Stands bytes piece byteLength OneByte Shows)

/-! ### Readers -/

section Readers

variable (base : Nat) (cs : List Char)

/-- The offset behind the bytes of the class. -/
def skip (p : Char → Bool) (offset : Nat) : Nat := offset + (((bytes cs).drop offset).takeWhile p).length

/-- Reads on in a string that began at `start`. Its characters up to the offset `segment` are `text`; those from
there on are copied when the quote or a backslash is found. -/
def quotedAt (quote : Char) (start : Nat) (text : List Char) (segment offset : Nat) : Attempt (List Char × Nat) :=
  if h : offset < (bytes cs).length then
    if (bytes cs)[offset] = quote then do
      let last ← piece cs segment offset
      .ok (text ++ last, offset + 1)
    else if (bytes cs)[offset] = '\\' ∧ offset + 1 < (bytes cs).length then do
      let before ← piece cs segment offset
      let behind ← piece cs (offset + 1) (bytes cs).length
      let width := (behind.head?.map Char.utf8Size).getD 1
      let escaped ← piece cs (offset + 1) (offset + 1 + width)
      quotedAt quote start (text ++ before ++ escaped) (offset + 1 + width) (offset + 1 + width)
    else quotedAt quote start text segment (offset + 1)
  else .error (.refused (.unterminatedString (base + start)))
termination_by (bytes cs).length - offset

/-- The operator that begins with this byte, looking at the one behind it. -/
def operatorAt (offset : Nat) (b : Char) : Attempt (Token × Nat) :=
  match operator? (b :: (bytes cs)[offset + 1]?.toList) with
  | some (t, _) => .ok (t, offset + t.text.utf8ByteSize)
  | none => do
    let behind ← piece cs offset (bytes cs).length
    .error (.refused (.unexpected .lexeme (behind.head?.getD b).toString (base + offset)))

/-- The token that begins with this byte, and the offset behind it. -/
def nextAt (offset : Nat) (b : Char) : Attempt (Token × Nat) :=
  if b.isDigit then do
    let digits ← piece cs offset (skip cs Char.isDigit offset)
    .ok (number (String.ofList digits), skip cs Char.isDigit offset)
  else if isIdentStart b then do
    let name ← piece cs offset (skip cs isIdentRest offset)
    .ok (ident (String.ofList name), skip cs isIdentRest offset)
  else if isQuote b then do
    let (text, after) ← quotedAt base cs b offset [] (offset + 1) (offset + 1)
    .ok (str (String.ofList text), after)
  else operatorAt base cs offset b

def scanAt (seen : List Placed) (offset : Nat) : Attempt Stream :=
  if h : offset < (bytes cs).length then
    if isSpace (bytes cs)[offset] then scanAt seen (offset + 1)
    else do
      let (t, after) ← nextAt base cs offset (bytes cs)[offset]
      if offset < after then scanAt (⟨t, base + offset⟩ :: seen) after
      else .error (.mishap .stuck)
  else .ok ⟨seen.reverse, base + offset⟩
termination_by (bytes cs).length - offset

/-- The tokens of the text. -/
def scanBytes : Attempt Stream := do
  let s ← scanAt base cs [] 0
  if s.tokens.isEmpty then .error (.refused .empty) else .ok s

end Readers

/-! ### Classes of bytes -/

theorem oneByte_isIdentRest : OneByte isIdentRest := by
  intro c h
  delta isIdentRest Char.isAlphanum Char.isAlpha Char.isUpper Char.isLower Char.isDigit at h
  simp only [Bool.or_eq_true, Bool.and_eq_true, decide_eq_true_eq, beq_iff_eq, ge_iff_le,
    UInt32.le_iff_toNat_le] at h
  change c.val.toNat < 128
  obtain ((⟨-, h⟩ | ⟨-, h⟩) | ⟨-, h⟩) | rfl := h
  · exact h.trans_lt (by decide)
  · exact h.trans_lt (by decide)
  · exact h.trans_lt (by decide)
  · decide

theorem oneByte_isDigit : OneByte Char.isDigit := fun c h => oneByte_isIdentRest c (isIdentRest_of_isDigit h)

theorem oneByte_isIdentStart : OneByte isIdentStart := fun c h =>
  oneByte_isIdentRest c (isIdentRest_of_isIdentStart h)

theorem oneByte_isQuote : OneByte isQuote := by
  intro c h
  obtain rfl | rfl := isQuote_iff.1 h <;> decide

theorem oneByte_isSpace : OneByte isSpace := by
  intro c h
  simp only [isSpace, Bool.or_eq_true, beq_iff_eq] at h
  obtain ((rfl | rfl) | rfl) | rfl := h <;> decide

/-- A run of one class ends where its characters end. -/
theorem skip_eq {p : Char → Bool} (hp : OneByte p) {cs before seen r : List Char} {offset : Nat}
    (h : Stands cs before seen r offset) : skip cs p offset = offset + byteLength (r.takeWhile p) := by
  rw [skip, h.drop, Text.takeWhile_bytes hp, Text.length_bytes]

/-! ### Strings -/

section Strings

variable {base start segment offset : Nat} {cs text : List Char} {quote b : Char}

theorem quotedAt_byte (h : (bytes cs)[offset]? = some b) :
    quotedAt base cs quote start text segment offset =
      if b = quote then (do
        let last ← piece cs segment offset
        .ok (text ++ last, offset + 1))
      else if b = '\\' ∧ offset + 1 < (bytes cs).length then (do
        let before ← piece cs segment offset
        let behind ← piece cs (offset + 1) (bytes cs).length
        let width := (behind.head?.map Char.utf8Size).getD 1
        let escaped ← piece cs (offset + 1) (offset + 1 + width)
        quotedAt base cs quote start (text ++ before ++ escaped) (offset + 1 + width) (offset + 1 + width))
      else quotedAt base cs quote start text segment (offset + 1) := by
  obtain ⟨hlt, rfl⟩ := List.getElem?_eq_some_iff.1 h
  rw [quotedAt, dif_pos hlt]

theorem quotedAt_end (h : (bytes cs).length ≤ offset) : quotedAt base cs quote start text segment offset =
    .error (.refused (.unterminatedString (base + start))) := by
  rw [quotedAt, dif_neg (Nat.not_lt.2 h)]

theorem quotedAt_pass (h : (bytes cs)[offset]? = some b) (hquote : b ≠ quote) (hescape : b ≠ '\\') :
    quotedAt base cs quote start text segment offset =
      quotedAt base cs quote start text segment (offset + 1) := by
  rw [quotedAt_byte h, if_neg hquote, if_neg fun hb => hescape hb.1]

end Strings

/-- The offset has passed some characters that are not copied yet. -/
theorem quotedAt_eq {base start offset k n : Nat} {quote : Char} (hquote : quote.toNat < 128)
    {seen cs before passed rest text : List Char} (h : Stands cs before passed rest offset)
    (hseen : seen.reverse = text ++ passed.reverse) (hn : offset = k + n) :
    quotedAt base cs quote start text (byteLength before) offset =
      match quotedFrom quote seen n rest with
      | some (content, m, _) => .ok (content, k + m)
      | none => .error (.refused (.unterminatedString (base + start))) := by
  -- What has been read are the characters copied so far and those that are only passed.
  fun_induction quotedFrom quote seen n rest generalizing before passed text offset with
  | case1 => exact quotedAt_end h.ended.le
  | case2 seen n c r hc =>
    obtain rfl : c = quote := by simpa using hc
    rw [quotedAt_byte (h.byte hquote), if_pos rfl, h.piece_seen, Text.utf8Size_of_lt hquote, hseen, hn, Nat.add_assoc]
    rfl
  | case3 seen n c hc hescape =>
    obtain rfl : c = '\\' := by simpa using hescape
    have hother : '\\' ≠ quote := by simpa using hc
    have hended := (h.next_of_lt (by decide)).ended
    rw [quotedAt_byte (h.byte (by decide)), if_neg hother, if_neg (by omega), quotedAt_end hended.le]
  | case4 seen n c hc hescape d r ih =>
    obtain rfl : c = '\\' := by simpa using hescape
    have hother : '\\' ≠ quote := by simpa using hc
    -- The escaped character stands behind the backslash.
    have hbehind := h.next_of_lt (by decide)
    have hnext : offset + 1 < (bytes cs).length := by
      obtain ⟨b, hb, -⟩ := hbehind.first
      exact (List.getElem?_eq_some_iff.1 hb).1
    have hcopied := hbehind.next
    have hseen' : (d :: seen).reverse = text ++ passed.reverse ++ [d] ++ List.reverse [] := by
      rw [List.reverse_cons, hseen, List.reverse_nil, List.append_nil]
    have hn' : offset + 1 + d.utf8Size = k + (n + '\\'.utf8Size + d.utf8Size) := by
      rw [hn, Nat.add_assoc, Nat.add_assoc, Nat.add_assoc]
      rfl
    rw [quotedAt_byte (h.byte (by decide)), if_neg hother, if_pos ⟨rfl, hnext⟩, h.piece_seen, hbehind.piece_rest]
    change (piece cs (offset + 1) (offset + 1 + byteLength [d]) >>= fun escaped => quotedAt base cs quote start
      (text ++ passed.reverse ++ escaped) (offset + 1 + d.utf8Size) (offset + 1 + d.utf8Size)) = _
    rw [hbehind.piece_behind [d]]
    have hrest := ih hcopied.fresh hseen' hn'
    rw [hcopied.offset] at hrest
    exact hrest
  | case5 seen n c r hc hescape ih =>
    have hother : c ≠ quote := by simpa using hc
    have hplain : c ≠ '\\' := by simpa using hescape
    have hpass : quotedAt base cs quote start text (byteLength before) offset =
        quotedAt base cs quote start text (byteLength before) (offset + c.utf8Size) := by
      refine h.pass (f := quotedAt base cs quote start text (byteLength before)) fun i b hb hpassed => ?_
      obtain rfl | hlong := hpassed
      · exact quotedAt_pass hb hother hplain
      · exact quotedAt_pass hb (Text.ne_of_long hlong hquote) (Text.ne_of_long hlong (by decide))
    have hseen' : (c :: seen).reverse = text ++ (c :: passed).reverse := by
      rw [List.reverse_cons, hseen, List.reverse_cons, List.append_assoc]
    rw [hpass]
    exact ih h.next hseen' (by rw [hn, Nat.add_assoc])

/-! ### Operators -/

theorem mark_word {t : Token} (ht : t.isMark = true) : (∃ a, t.text.toList = [a] ∧ a.toNat < 128) ∨
    ∃ a a', t.text.toList = [a, a'] ∧ a.toNat < 128 ∧ a'.toNat < 128 ∧ t.text.length ≠ 1 := by
  cases t <;> first
    | exact absurd ht Bool.false_ne_true
    | exact .inl ⟨_, rfl, by decide⟩
    | exact .inr ⟨_, _, rfl, by decide, by decide, by decide⟩

/-- The bytes at an offset begin as the characters there do. -/
structure Shown (bs cs : List Char) : Prop where
  first : ∀ a : Char, a.toNat < 128 → (a ∈ bs.head? ↔ a ∈ cs.head?)
  second : ∀ a : Char, a.toNat < 128 → a ∈ bs.head? →
    ∀ d : Char, d.toNat < 128 → (d ∈ bs.tail.head? ↔ d ∈ cs.tail.head?)

theorem Shown.symm {bs cs : List Char} (h : Shown bs cs) : Shown cs bs :=
  ⟨fun a ha => (h.first a ha).symm, fun a ha hhead d hd => (h.second a ha ((h.first a ha).2 hhead) d hd).symm⟩

/-- The mark that begins the bytes begins the characters as well. -/
theorem Shown.mark {bs cs rest : List Char} (h : Shown bs cs) {t : Token} (ht : t.isMark = true)
    (hbs : bs = t.text.toList ++ rest) : ∃ rest', cs = t.text.toList ++ rest' ∧
      (t.text.length = 1 → '=' ∈ rest'.head? → '=' ∈ rest.head?) := by
  obtain ⟨a, hword, ha⟩ | ⟨a, a', hword, ha, ha', hlength⟩ := mark_word ht <;> rw [hword] at hbs ⊢ <;>
    subst hbs
  · obtain ⟨rest', rfl⟩ := List.head?_eq_some_iff.1 ((h.first a ha).1 rfl)
    exact ⟨rest', rfl, fun _ => (h.second a ha rfl '=' (by decide)).2⟩
  · obtain ⟨behind, rfl⟩ := List.head?_eq_some_iff.1 ((h.first a ha).1 rfl)
    obtain ⟨rest', hrest⟩ := List.head?_eq_some_iff.1 ((h.second a ha rfl a' ha').1 rfl)
    obtain rfl : behind = a' :: rest' := hrest
    exact ⟨rest', rfl, fun hone => absurd hone hlength⟩

theorem Shown.operator? {bs cs : List Char} (h : Shown bs cs) :
    (operator? bs).map Prod.fst = (operator? cs).map Prod.fst := by
  cases hbs : Token.operator? bs with
  | some found =>
    obtain ⟨t, rest⟩ := found
    obtain ⟨hsplit, hmark⟩ := Template.operator?_eq_some hbs
    obtain ⟨rest', rfl, hparts⟩ := h.mark hmark hsplit
    rw [hsplit] at hbs
    rw [operator?_parts hmark hbs hparts]
    rfl
  | none =>
    cases hcs : Token.operator? cs with
    | none => rfl
    | some found =>
      obtain ⟨t, rest⟩ := found
      obtain ⟨hsplit, hmark⟩ := Template.operator?_eq_some hcs
      obtain ⟨rest', rfl, -⟩ := h.symm.mark hmark hsplit
      exact absurd hbs (operator?_mark_ne_none hmark rest')

section Places

variable {base offset : Nat} {cs before passed r : List Char} {b c : Char}

/-- Of a character of one byte the next byte is that of the next character. -/
theorem shown_bytes (h : Stands cs before passed (c :: r) offset) (hb : Shows b c) :
    Shown (b :: (bytes cs)[offset + 1]?.toList) (c :: r) := by
  constructor
  · intro a ha
    simpa using hb.eq_iff ha
  · intro a ha hhead d hd
    obtain rfl : b = a := Option.some.inj hhead
    obtain rfl : c = b := (hb.eq_iff ha).1 rfl
    have hbehind := h.next_of_lt ha
    cases r with
    | nil =>
      rw [List.getElem?_eq_none hbehind.ended.le]
      rfl
    | cons e r =>
      obtain ⟨b, hb, hshows⟩ := hbehind.first
      rw [hb]
      simpa using hshows.eq_iff hd

theorem operatorAt_eq (h : Stands cs before passed (c :: r) offset) (hb : Shows b c) :
    operatorAt base cs offset b =
      match Token.operator? (c :: r) with
      | some (t, _) => .ok (t, offset + t.text.utf8ByteSize)
      | none => .error (.refused (.unexpected .lexeme c.toString (base + offset))) := by
  have hsame := (shown_bytes h hb).operator?
  unfold operatorAt
  cases hread : Token.operator? (c :: r) with
  | some found =>
    rw [hread, Option.map_some] at hsame
    obtain ⟨⟨t, rest⟩, hread', htoken⟩ := Option.map_eq_some_iff.1 hsame
    rw [hread']
    obtain rfl : t = found.1 := htoken
    rfl
  | none =>
    rw [hread, Option.map_none, Option.map_eq_none_iff] at hsame
    rw [hsame]
    dsimp only
    rw [h.piece_rest]
    rfl

/-! ### The scanner -/

theorem nextAt_eq (h : Stands cs before passed (c :: r) offset) (hb : Shows b c) :
    nextAt base cs offset b = safe ((next (base + offset) c r).map fun p => (p.1, offset + p.2.1)) := by
  have hrun : ∀ {p : Char → Bool}, OneByte p → p c = true →
      skip cs p offset = offset + byteLength (c :: r.takeWhile p) ∧
        piece cs offset (skip cs p offset) = .ok (c :: r.takeWhile p) := by
    intro p hp hc
    have hskip := skip_eq hp h
    rw [List.takeWhile_cons_of_pos hc] at hskip
    have hword : Stands cs before passed ((c :: r.takeWhile p) ++ r.dropWhile p) offset := by
      rwa [List.cons_append, List.takeWhile_append_dropWhile]
    exact ⟨hskip, by rw [hskip, hword.piece_behind (c :: r.takeWhile p)]⟩
  rw [nextAt, next, hb.class_eq oneByte_isDigit, hb.class_eq oneByte_isIdentStart, hb.class_eq oneByte_isQuote]
  by_cases hdigit : c.isDigit = true
  · obtain ⟨hskip, hpiece⟩ := hrun oneByte_isDigit hdigit
    rw [if_pos hdigit, if_pos hdigit, hpiece, hskip]
    rfl
  rw [if_neg hdigit, if_neg hdigit]
  by_cases hident : isIdentStart c = true
  · obtain ⟨hskip, hpiece⟩ := hrun oneByte_isIdentRest (isIdentRest_of_isIdentStart hident)
    rw [if_pos hident, if_pos hident, hpiece, hskip]
    rfl
  rw [if_neg hident, if_neg hident]
  by_cases hquote : isQuote c = true
  · have hlt := oneByte_isQuote c hquote
    obtain rfl : b = c := (hb.eq_iff hlt).2 rfl
    have hopened := h.next_of_lt hlt
    have hstring : quotedAt base cs b offset [] (byteLength (before ++ (b :: passed).reverse)) (offset + 1) =
        match quotedFrom b [] b.utf8Size r with
        | some (content, m, _) => .ok (content, offset + m)
        | none => .error (.refused (.unterminatedString (base + offset))) :=
      quotedAt_eq hlt hopened.fresh rfl (by rw [Text.utf8Size_of_lt hlt])
    rw [hopened.offset] at hstring
    rw [if_pos hquote, if_pos hquote, hstring]
    cases quotedFrom b [] b.utf8Size r <;> rfl
  · rw [if_neg hquote, if_neg hquote, operatorAt_eq h hb]
    cases Token.operator? (c :: r) <;> rfl

end Places

section Scan

variable {base offset : Nat} {cs : List Char} {seen : List Placed}

theorem scanAt_byte {b : Char} (h : (bytes cs)[offset]? = some b) : scanAt base cs seen offset =
    if isSpace b then scanAt base cs seen (offset + 1)
    else nextAt base cs offset b >>= fun p =>
      if offset < p.2 then scanAt base cs (⟨p.1, base + offset⟩ :: seen) p.2 else .error (.mishap .stuck) := by
  obtain ⟨hlt, rfl⟩ := List.getElem?_eq_some_iff.1 h
  rw [scanAt, dif_pos hlt]

theorem scanAt_end (h : (bytes cs).length ≤ offset) :
    scanAt base cs seen offset = .ok ⟨seen.reverse, base + offset⟩ := by
  rw [scanAt, dif_neg (Nat.not_lt.2 h)]

/-- The scanner stands where a character begins, and goes on from token to token. -/
theorem scanAt_eq {fuel : Nat} {before passed rest : List Char} (h : Stands cs before passed rest offset)
    (hfuel : rest.length ≤ fuel) : scanAt base cs seen offset = safe (scanFrom fuel (base + offset) seen rest) := by
  induction fuel generalizing passed rest offset seen with
  | zero =>
    obtain rfl := List.length_eq_zero_iff.1 (Nat.le_zero.1 hfuel)
    rw [scanAt_end h.ended.le]
    rfl
  | succ fuel ih =>
    cases rest with
    | nil =>
      rw [scanAt_end h.ended.le]
      rfl
    | cons c r =>
      obtain ⟨b, hbyte, hb⟩ := h.first
      rw [scanAt_byte hbyte, scanFrom, hb.class_eq oneByte_isSpace]
      by_cases hspace : isSpace c = true
      · have hlt := oneByte_isSpace c hspace
        rw [if_pos hspace, if_pos hspace, Text.utf8Size_of_lt hlt]
        exact ih (h.next_of_lt hlt) (by simpa using hfuel)
      · rw [if_neg hspace, if_neg hspace, nextAt_eq h hb, safe_bind]
        cases hnext : next (base + offset) c r with
        | error e => rfl
        | ok found =>
          obtain ⟨t, n, rest⟩ := found
          obtain ⟨word, hword, hspelled, rfl, -⟩ := next_word hnext
          -- A token is never empty, so the scanner goes on.
          have hne : offset < offset + byteLength word := by
            obtain ⟨d, word, rfl⟩ := List.exists_cons_of_ne_nil hspelled.ne_nil
            rw [Text.byteLength_cons]
            have hpos := d.utf8Size_pos
            omega
          have hlength := congrArg List.length hword
          have hpos := List.length_pos_iff.2 hspelled.ne_nil
          rw [List.length_append] at hlength
          have hfuel' : rest.length ≤ fuel := by
            rw [List.length_cons] at hfuel hlength
            omega
          rw [hword] at h
          have hrest : scanAt base cs (⟨t, base + offset⟩ :: seen) (offset + byteLength word) =
              safe (scanFrom fuel (base + (offset + byteLength word)) (⟨t, base + offset⟩ :: seen) rest) :=
            ih (h.passed word) hfuel'
          change (if offset < offset + byteLength word then _ else _) = safe (scanFrom fuel _ _ rest)
          rw [if_pos hne, Nat.add_assoc]
          exact hrest

end Scan

theorem scanBytes_eq (base : Nat) (text : String) : scanBytes base text.toList = safe (scan base text) := by
  have hscan : scanAt base text.toList [] 0 = safe (scanFrom text.length base [] text.toList) :=
    scanAt_eq (Stands.start text.toList) String.length_toList.le
  rw [scanBytes, scan, safe_bind, hscan]
  refine bind_congr fun s => ?_
  split <;> rfl

end ShardedSql.Token
