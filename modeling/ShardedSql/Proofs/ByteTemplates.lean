import ShardedSql.Proofs.CommaLists
import ShardedSql.Proofs.Cursors
import ShardedSql.Proofs.Positions

/-! Templates and declaration lists, cut byte by byte at openings, closing braces and commas. The search for a
closing brace leaves out the byte behind a backslash whatever character it belongs to, and still ends where a
character begins. -/

namespace ShardedSql

open Text (Stands bytes piece byteLength)

namespace Template

/-! ### Readers -/

/-- With one brace less open. -/
def closeOne : Nat → Attempt Nat
  | 0 => .error (.mishap .depth)
  | depth + 1 => .ok depth

/-- The offset of the brace that closes the body of a placeholder, if there is one. -/
def closing (bs : List Char) (depth : Nat) (quote : Option Char) (index : Nat) : Attempt (Option Nat) :=
  if h : index < bs.length then
    match quote with
    | some q =>
      if bs[index] = '\\' then closing bs depth (some q) (index + 2)
      else closing bs depth (if bs[index] = q then none else some q) (index + 1)
    | none =>
      if Token.isQuote bs[index] then closing bs depth (some bs[index]) (index + 1)
      else if bs[index] = '\x7b' then closing bs (depth + 1) none (index + 1)
      else if bs[index] = '\x7d' then
        if depth = 0 then .ok (some index)
        else do
          let depth ← closeOne depth
          closing bs depth none (index + 1)
      else closing bs depth none (index + 1)
  else .ok none
termination_by bs.length - index

/-- The segments from an offset on. -/
def segmentsAt (cs : List Char) (offset : Nat) : Attempt (List Segment) := do
  let rest ← piece cs offset (bytes cs).length
  match splitOpening [] rest with
  | (_, none) => .ok (textSegment rest)
  | (before, some _) => do
    let opening := offset + byteLength before
    let text ← piece cs offset opening
    match ← closing (bytes cs) 0 none (opening + 2) with
    | none => .error (.refused (.unterminatedPlaceholder opening))
    | some close => do
      let body ← piece cs (opening + 2) close
      let e ← Expr.parseBytes (String.ofList body) (opening + 2)
      if offset < close + 1 ∧ close < (bytes cs).length then do
        let segments ← segmentsAt cs (close + 1)
        .ok (textSegment text ++ .placeholder e :: segments)
      else .error (.mishap .stuck)
termination_by (bytes cs).length - offset

def parseBytes (s : String) : Attempt Template :=
  if s.utf8ByteSize > maxBytes then .error (.refused (.tooLarge maxBytes s.utf8ByteSize))
  else if Text.blank s then .error (.refused .empty)
  else do
    let source := normalize s
    .ok ⟨source, ← segmentsAt source.toList 0⟩

/-! ### The closing brace -/

section Closing

variable {bs : List Char} {depth index : Nat} {quote : Option Char} {b : Char}

theorem closing_quoted (h : bs[index]? = some b) (q : Char) : closing bs depth (some q) index =
    if b = '\\' then closing bs depth (some q) (index + 2)
    else closing bs depth (if b = q then none else some q) (index + 1) := by
  obtain ⟨hlt, rfl⟩ := List.getElem?_eq_some_iff.1 h
  rw [closing, dif_pos hlt]

theorem closing_unquoted (h : bs[index]? = some b) : closing bs depth none index =
    if Token.isQuote b then closing bs depth (some b) (index + 1)
    else if b = '\x7b' then closing bs (depth + 1) none (index + 1)
    else if b = '\x7d' then
      if depth = 0 then .ok (some index) else closeOne depth >>= fun d => closing bs d none (index + 1)
    else closing bs depth none (index + 1) := by
  obtain ⟨hlt, rfl⟩ := List.getElem?_eq_some_iff.1 h
  rw [closing, dif_pos hlt]

theorem closing_end (h : bs.length ≤ index) : closing bs depth quote index = .ok none := by
  rw [closing, dif_neg (Nat.not_lt.2 h)]

end Closing

/-- The search ends where the body does. -/
theorem closing_eq {cs before seen rest : List Char} {depth index : Nat} {quote : Option Char}
    (h : Stands cs before seen rest index) (hquote : ∀ q ∈ quote, q.toNat < 128) :
    closing (bytes cs) depth quote index =
      .ok ((splitBody depth quote seen rest).map fun p => byteLength before + byteLength p.1) := by
  fun_induction splitBody depth quote seen rest generalizing index with
  | case1 => exact closing_end h.ended.le
  | case2 depth seen c quote hescape =>
    obtain rfl : c = '\\' := by simpa using hescape
    have hended := (h.next_of_lt (by decide)).ended
    rw [closing_quoted (h.byte (by decide)), if_pos rfl, closing_end (by omega)]
    rfl
  | case3 depth seen c quote hescape d r ih =>
    obtain rfl : c = '\\' := by simpa using hescape
    have hbehind := h.next_of_lt (by decide)
    -- The search goes on at the second byte of the escaped character, or behind it.
    have hpass : closing (bytes cs) depth (some quote) (index + 1 + 1) =
        closing (bytes cs) depth (some quote) (index + 1 + d.utf8Size) := by
      refine hbehind.across (f := closing (bytes cs) depth (some quote)) (fun i b hb hbyte => ?_)
        d.utf8Size_pos fun h => absurd h Nat.one_ne_zero
      rw [closing_quoted hb, if_neg (Text.ne_of_long hbyte (by decide)),
        if_neg (Text.ne_of_long hbyte (hquote quote rfl))]
    rw [closing_quoted (h.byte (by decide)), if_pos rfl]
    exact hpass.trans (ih hbehind.next hquote)
  | case4 depth seen c r quote hescape ih =>
    have hplain : c ≠ '\\' := by simpa using hescape
    by_cases hc : c = quote
    · obtain rfl := hc
      have hlt : c.toNat < 128 := hquote c rfl
      simp only [beq_self_eq_true, if_true] at ih ⊢
      rw [closing_quoted (h.byte hlt), if_neg hplain, if_pos rfl]
      exact ih (h.next_of_lt hlt) (by simp)
    · have hpass : closing (bytes cs) depth (some quote) index =
          closing (bytes cs) depth (some quote) (index + c.utf8Size) := by
        refine h.pass (f := closing (bytes cs) depth (some quote)) fun i b hb hbyte => ?_
        have hother : b ≠ '\\' ∧ b ≠ quote := by
          obtain rfl | hbyte := hbyte
          · exact ⟨hplain, hc⟩
          · exact ⟨Text.ne_of_long hbyte (by decide), Text.ne_of_long hbyte (hquote quote rfl)⟩
        rw [closing_quoted hb, if_neg hother.1, if_neg hother.2]
      simp only [beq_iff_eq, hc, if_false] at ih ⊢
      rw [hpass]
      exact ih h.next hquote
  | case5 depth seen c r hc ih =>
    have hlt := Token.oneByte_isQuote c hc
    rw [closing_unquoted (h.byte hlt), if_pos hc]
    refine ih (h.next_of_lt hlt) fun q hq => ?_
    obtain rfl : c = q := by simpa using hq
    exact hlt
  | case6 depth seen c r hc hopen ih =>
    obtain rfl : c = '\x7b' := by simpa using hopen
    rw [closing_unquoted (h.byte (by decide)), if_neg hc, if_pos rfl]
    exact ih (h.next_of_lt (by decide)) (by simp)
  | case7 seen c r hc hopen hclose =>
    obtain rfl : c = '\x7d' := by simpa using hclose
    rw [closing_unquoted (h.byte (by decide)), if_neg hc, if_neg (by decide), if_pos rfl, if_pos rfl, ← h.offset,
      Text.byteLength_append]
    rfl
  | case8 seen c r hc hopen hclose depth ih =>
    obtain rfl : c = '\x7d' := by simpa using hclose
    rw [closing_unquoted (h.byte (by decide)), if_neg hc, if_neg (by decide), if_pos rfl,
      if_neg (Nat.succ_ne_zero depth)]
    exact ih (h.next_of_lt (by decide)) (by simp)
  | case9 depth seen c r hc hopen hclose ih =>
    have hpass : closing (bytes cs) depth none index = closing (bytes cs) depth none (index + c.utf8Size) := by
      refine h.pass (f := closing (bytes cs) depth none) fun i b hb hbyte => ?_
      have hother : ¬ Token.isQuote b = true ∧ b ≠ '\x7b' ∧ b ≠ '\x7d' := by
        obtain rfl | hbyte := hbyte
        · exact ⟨hc, by simpa using hopen, by simpa using hclose⟩
        · refine ⟨fun hb => ?_, Text.ne_of_long hbyte (by decide), Text.ne_of_long hbyte (by decide)⟩
          have hlt := Token.oneByte_isQuote b hb
          omega
      rw [closing_unquoted hb, if_neg hother.1, if_neg hother.2.1, if_neg hother.2.2]
    rw [hpass]
    exact ih h.next (by simp)

/-- Behind an opening the search ends with the body of the placeholder. -/
theorem closing_opening {cs before seen r : List Char} {offset : Nat}
    (h : Stands cs before seen (opening ++ r) offset) : closing (bytes cs) 0 none (offset + 2) =
      .ok ((splitBody 0 none [] r).map fun p => offset + 2 + byteLength p.1) := by
  have hopened := h.passed opening
  have hclosing : closing (bytes cs) 0 none (offset + byteLength opening) =
      .ok ((splitBody 0 none [] r).map fun p =>
        byteLength (before ++ (opening.reverse ++ seen).reverse) + byteLength p.1) :=
    closing_eq hopened.fresh (by simp)
  rwa [hopened.offset] at hclosing

/-! ### Segments -/

section Segments

variable {cs before seen w r : List Char} {offset : Nat}

theorem segmentsAt_text (h : Stands cs before seen w offset) (hfree : ¬ opening <:+: w) :
    segmentsAt cs offset = .ok (textSegment w) := by
  rw [segmentsAt, h.piece_rest]
  change (match splitOpening [] w with | (_, none) => _ | (_, some _) => _) = _
  rw [splitOpening_text hfree]

theorem segmentsAt_opening (h : Stands cs before seen (w ++ (opening ++ r)) offset) (hfree : ¬ opening <:+: w) :
    segmentsAt cs offset =
      match (splitBody 0 none [] r).map fun p => offset + byteLength w + 2 + byteLength p.1 with
      | none => .error (.refused (.unterminatedPlaceholder (offset + byteLength w)))
      | some close => piece cs (offset + byteLength w + 2) close >>= fun body =>
        Expr.parseBytes (String.ofList body) (offset + byteLength w + 2) >>= fun e =>
          if offset < close + 1 ∧ close < (bytes cs).length then
            segmentsAt cs (close + 1) >>= fun segments => .ok (textSegment w ++ .placeholder e :: segments)
          else .error (.mishap .stuck) := by
  rw [segmentsAt, h.piece_rest]
  change (match splitOpening [] (w ++ (opening ++ r)) with | (_, none) => _ | (_, some _) => _) = _
  rw [splitOpening_opening hfree]
  change (piece cs offset (offset + byteLength w) >>= _) = _
  rw [h.piece_behind w]
  change (closing (bytes cs) 0 none (offset + byteLength w + 2) >>= _) = _
  rw [closing_opening (h.passed w)]
  cases splitBody 0 none [] r <;> rfl

theorem segmentsAt_placeholder {body rest : List Char}
    (h : Stands cs before seen (w ++ (opening ++ (body ++ '\x7d' :: rest))) offset) (hfree : ¬ opening <:+: w)
    (hbody : Balanced body) : segmentsAt cs offset =
      Expr.parseBytes (String.ofList body) (offset + byteLength w + 2) >>= fun e =>
        segmentsAt cs (offset + byteLength w + 2 + byteLength body + 1) >>= fun segments =>
          .ok (textSegment w ++ .placeholder e :: segments) := by
  have hopened := (h.passed w).passed opening
  have hclosed : offset + byteLength w + 2 + byteLength body < (bytes cs).length :=
    (List.getElem?_eq_some_iff.1 ((hopened.passed body).byte (by decide))).1
  have hpiece : piece cs (offset + byteLength w + 2) (offset + byteLength w + 2 + byteLength body) = .ok body :=
    hopened.piece_behind body
  rw [segmentsAt_opening h hfree, hbody.splitBody, Option.map_some]
  dsimp only
  rw [hpiece]
  refine bind_congr (x := Expr.parseBytes (String.ofList body) (offset + byteLength w + 2)) fun e => ?_
  rw [if_pos ⟨by omega, hclosed⟩]

theorem segmentsAt_eq {rest : List Char} {fuel : Nat} (h : Stands cs before seen rest offset)
    (hfuel : rest.length ≤ fuel) : segmentsAt cs offset = safe (segmentsFrom fuel offset rest) := by
  induction fuel generalizing seen rest offset with
  | zero =>
    obtain rfl := List.length_eq_zero_iff.1 (Nat.le_zero.1 hfuel)
    rw [segmentsAt_text h (by simp [opening])]
    rfl
  | succ fuel ih =>
    obtain hfree | ⟨w, r, rfl, hfree⟩ := opening_cases rest
    · rw [segmentsAt_text h hfree, segmentsFrom_text hfree]
      rfl
    · cases hbody : splitBody 0 none [] r with
      | none =>
        rw [segmentsAt_opening h hfree, segmentsFrom_unclosed hfree hbody, hbody]
        rfl
      | some cut =>
        obtain ⟨body, rest⟩ := cut
        obtain ⟨hbalanced, rfl⟩ := splitBody_eq_some.1 hbody
        have hrest : rest.length ≤ fuel := by
          simp [opening] at hfuel
          omega
        have hbehind : segmentsAt cs (offset + byteLength w + 2 + byteLength body + 1) =
            safe (segmentsFrom fuel (offset + byteLength w + 2 + byteLength body + 1) rest) :=
          ih ((((h.passed w).passed opening).passed body).next_of_lt (by decide)) hrest
        rw [segmentsAt_placeholder h hfree hbalanced, segmentsFrom_placeholder hfree hbalanced, safe_bind,
          ← Expr.parseBytes_eq, hbehind]
        refine bind_congr fun e => ?_
        rw [safe_bind]
        rfl

end Segments

theorem parseBytes_eq (s : String) : parseBytes s = safe (parse s) := by
  rw [parseBytes, parse]
  split
  · rfl
  split
  · rfl
  have hsegments : segmentsAt (normalize s).toList 0 =
      safe (segmentsFrom (normalize s).length 0 (normalize s).toList) :=
    segmentsAt_eq (Stands.start (normalize s).toList) String.length_toList.le
  dsimp only
  rw [hsegments, safe_bind]
  rfl

end Template

namespace Declaration

open Template (opening closing splitBody)

/-! ### Parts -/

/-- The parts from an offset on; the first of them began at `start`. -/
def partsAt (cs : List Char) (start offset : Nat) : Attempt (List (List Char)) :=
  if h : offset < (bytes cs).length then
    if opening.isPrefixOf ((bytes cs).drop offset) then do
      match ← closing (bytes cs) 0 none (offset + 2) with
      | none => .error (.refused (.unterminatedPlaceholder offset))
      | some close =>
        if offset < close + 1 then partsAt cs start (close + 1) else .error (.mishap .stuck)
    else if (bytes cs)[offset] = ',' then do
      let part ← piece cs start offset
      let parts ← partsAt cs (offset + 1) (offset + 1)
      .ok (part :: parts)
    else partsAt cs start (offset + 1)
  else do
    let part ← piece cs start (bytes cs).length
    .ok [part]
termination_by (bytes cs).length - offset

def partsBytes (s : String) : Attempt (List String) := do
  .ok ((← partsAt s.toList 0 0).map String.ofList)

def expandPartsBytes (vars : Bindings) (count : Nat) : List String → Attempt (List String)
  | [] => .ok []
  | part :: rest => do
    let t ← Template.parseBytes part
    let texts ← safe (t.expand vars)
    safe (Expr.withinLimit (count + texts.length))
    let more ← expandPartsBytes vars (count + texts.length) rest
    .ok (texts ++ more)

def expandBytes (vars : Bindings) (s : String) : Attempt (List String) := do
  let trimmed := (← partsBytes (Template.normalize s)).map Text.trim
  expandPartsBytes vars 0 (trimmed.filter (!·.isEmpty))

section Parts

variable {cs before part rest r : List Char} {offset : Nat} {c : Char}

theorem opening_prefix_bytes {cs : List Char} : opening <+: bytes cs ↔ opening <+: cs := by
  refine Text.prefix_bytes fun a ha => ?_
  simp only [opening, List.mem_cons, List.not_mem_nil, or_false] at ha
  obtain rfl | rfl := ha <;> decide

theorem partsAt_end (h : Stands cs before part [] offset) :
    partsAt cs (byteLength before) offset = .ok [part.reverse] := by
  rw [partsAt, dif_neg (Nat.not_lt.2 h.ended.le), h.ended, h.piece_seen]
  rfl

theorem partsAt_opening (h : Stands cs before part (opening ++ r) offset) (start : Nat) :
    partsAt cs start offset =
      match splitBody 0 none [] r with
      | none => .error (.refused (.unterminatedPlaceholder offset))
      | some (body, _) => partsAt cs start (offset + 2 + byteLength body + 1) := by
  have hbyte : (bytes cs)[offset]? = some '$' := h.byte (by decide)
  have hlt := (List.getElem?_eq_some_iff.1 hbyte).1
  have hprefix : opening.isPrefixOf ((bytes cs).drop offset) = true := by
    rw [List.isPrefixOf_iff_prefix, h.drop, opening_prefix_bytes]
    exact List.prefix_append opening r
  rw [partsAt, dif_pos hlt, if_pos hprefix, Template.closing_opening h]
  cases splitBody 0 none [] r with
  | none => rfl
  | some cut =>
    have hfarther : offset < offset + 2 + byteLength cut.1 + 1 := by omega
    exact if_pos hfarther

theorem partsAt_byte {b : Char} (hb : (bytes cs)[offset]? = some b) (hopening : ¬ opening <+: (bytes cs).drop offset)
    (start : Nat) : partsAt cs start offset =
      if b = ',' then (do
        let part ← piece cs start offset
        let parts ← partsAt cs (offset + 1) (offset + 1)
        .ok (part :: parts))
      else partsAt cs start (offset + 1) := by
  obtain ⟨hlt, rfl⟩ := List.getElem?_eq_some_iff.1 hb
  rw [partsAt, dif_pos hlt, if_neg (by rwa [List.isPrefixOf_iff_prefix])]

theorem partsAt_comma (h : Stands cs before part (',' :: r) offset) : partsAt cs (byteLength before) offset =
    partsAt cs (offset + 1) (offset + 1) >>= fun parts => .ok (part.reverse :: parts) := by
  have hopening : ¬ opening <+: (bytes cs).drop offset := by
    rw [h.drop, opening_prefix_bytes]
    simp [opening]
  rw [partsAt_byte (h.byte (by decide)) hopening, if_pos rfl, h.piece_seen]
  rfl

/-- No other byte makes a cut. -/
theorem partsAt_plain (h : Stands cs before part (c :: r) offset) (hopening : ¬ opening <+: c :: r)
    (hcomma : c ≠ ',') (start : Nat) : partsAt cs start offset = partsAt cs start (offset + c.utf8Size) := by
  by_cases hc : c.toNat < 128
  · have hopening' : ¬ opening <+: (bytes cs).drop offset := by rwa [h.drop, opening_prefix_bytes]
    rw [partsAt_byte (h.byte hc) hopening', if_neg hcomma, Text.utf8Size_of_lt hc]
  · refine h.across (f := partsAt cs start) (fun i b hb hbyte => ?_) (Nat.zero_le _) fun _ => Nat.not_lt.1 hc
    have hopening' : ¬ opening <+: (bytes cs).drop i := by
      obtain ⟨hlt, rfl⟩ := List.getElem?_eq_some_iff.1 hb
      rw [List.drop_eq_getElem_cons hlt]
      exact fun hpre => Text.ne_of_long hbyte (by decide) (List.cons_prefix_cons.1 hpre).1.symm
    rw [partsAt_byte hb hopening', if_neg (Text.ne_of_long hbyte (by decide))]

/-- The parts are cut at the same characters. -/
theorem partsAt_eq {fuel : Nat} (parts : List (List Char)) (h : Stands cs before part rest offset)
    (hfuel : rest.length ≤ fuel) :
    (partsAt cs (byteLength before) offset >>= fun more => .ok (parts.reverse ++ more)) =
      safe (partsFrom fuel offset part parts rest) := by
  induction fuel generalizing before part rest offset parts with
  | zero =>
    obtain rfl := List.length_eq_zero_iff.1 (Nat.le_zero.1 hfuel)
    rw [partsAt_end h]
    exact congrArg Except.ok (List.reverse_cons).symm
  | succ fuel ih =>
    cases rest with
    | nil =>
      rw [partsAt_end h]
      exact congrArg Except.ok (List.reverse_cons).symm
    | cons c r =>
      by_cases hopening : opening <+: c :: r
      · obtain ⟨r', hr'⟩ := hopening
        rw [← hr'] at h hfuel ⊢
        rw [partsAt_opening h, partsFrom_opening]
        cases hbody : splitBody 0 none [] r' with
        | none => rfl
        | some cut =>
          obtain ⟨body, rest⟩ := cut
          obtain ⟨-, rfl⟩ := Template.splitBody_eq_some.1 hbody
          refine ih parts (((h.passed opening).passed body).next_of_lt (by decide)) ?_
          simp [opening] at hfuel
          omega
      by_cases hcomma : c = ','
      · -- The next part begins behind the comma, with nothing passed.
        obtain rfl := hcomma
        have hbehind := h.next_of_lt (by decide)
        have hrest := ih (part.reverse :: parts) hbehind.fresh (by simpa using hfuel)
        rw [hbehind.offset] at hrest
        rw [partsAt_comma h, partsFrom, ← hrest]
        cases partsAt cs (offset + 1) (offset + 1) with
        | error e => rfl
        | ok more => exact congrArg Except.ok (by simp)
      · rw [partsAt_plain h hopening hcomma, partsFrom_plain hopening hcomma]
        exact ih parts h.next (by simpa using hfuel)

end Parts

theorem partsBytes_eq (s : String) : partsBytes s = safe (parts s) := by
  have hparts : (partsAt s.toList 0 0 >>= fun more => .ok more) = safe (partsFrom s.length 0 [] [] s.toList) :=
    partsAt_eq [] (Stands.start s.toList) String.length_toList.le
  rw [partsBytes, parts, safe_bind, ← hparts]
  cases partsAt s.toList 0 0 <;> rfl

theorem expandPartsBytes_eq (vars : Bindings) (count : Nat) (parts : List String) :
    expandPartsBytes vars count parts = safe (expandParts vars count parts) := by
  induction parts generalizing count with
  | nil => rfl
  | cons part rest ih =>
    rw [expandPartsBytes, expandParts, Template.parseBytes_eq, safe_bind]
    refine bind_congr fun t => ?_
    rw [safe_bind]
    refine bind_congr fun texts => ?_
    rw [safe_bind]
    refine bind_congr fun _ => ?_
    rw [ih, safe_bind]
    rfl

theorem expandBytes_eq (vars : Bindings) (s : String) : expandBytes vars s = safe (expand vars s) := by
  rw [expandBytes, expand, partsBytes_eq, safe_bind]
  exact bind_congr fun _ => expandPartsBytes_eq vars 0 _

end Declaration

/-- Whatever the text is, every piece of it that is read begins and ends with characters, no brace is closed that is
not open, no token behind the end is looked up, and whatever is used again has gone on. So there is an answer or a
refusal, the same one as when characters are read. -/
theorem text_read_or_refused (text : String) :
    (∀ base, Expr.parseBytes text base = safe (Expr.parse text base)) ∧
      Template.parseBytes text = safe (Template.parse text) ∧
      ∀ vars, Declaration.expandBytes vars text = safe (Declaration.expand vars text) :=
  ⟨Expr.parseBytes_eq text, Template.parseBytes_eq text, fun vars => Declaration.expandBytes_eq vars text⟩

end ShardedSql
