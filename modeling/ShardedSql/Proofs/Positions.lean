import ShardedSql.Proofs.Braces
import ShardedSql.Proofs.Faults
import ShardedSql.Proofs.Openings

/-! A refused template names an offset in its usual spelling. In the text as it was given the refused construct
stands there too, as long as no opening before it has the other spelling; each one that has moves it by two
bytes. -/

namespace ShardedSql

namespace Template

/-! ### Segments -/

/-- A text has no opening, or it is cut at the first one. -/
theorem opening_cases (cs : List Char) :
    ¬ opening <:+: cs ∨ ∃ w r, cs = w ++ (opening ++ r) ∧ ¬ opening <:+: w := by
  induction cs with
  | nil => exact .inl (by simp [opening])
  | cons c r ih =>
    by_cases hpre : opening <+: c :: r
    · obtain ⟨r', hr'⟩ := hpre
      exact .inr ⟨[], r', hr'.symm, by simp [opening]⟩
    · obtain hnone | ⟨w, r', rfl, hw⟩ := ih
      · exact .inl fun h => (List.infix_cons_iff.1 h).elim hpre hnone
      · refine .inr ⟨c :: w, r', rfl, fun h => (List.infix_cons_iff.1 h).elim (fun hw' => hpre ?_) hw⟩
        exact hw'.trans (List.prefix_append (c :: w) (opening ++ r'))

section Segments

variable {w r : List Char}

theorem segmentsFrom_unclosed (hfree : ¬ opening <:+: w) (hopen : splitBody 0 none [] r = none)
    (fuel position : Nat) : segmentsFrom (fuel + 1) position (w ++ (opening ++ r)) =
      .error (.unterminatedPlaceholder (position + Text.byteLength w)) := by
  rw [segmentsFrom, splitOpening_opening hfree]
  dsimp only
  rw [hopen]

theorem segmentsFrom_placeholder (hfree : ¬ opening <:+: w) {body : List Char} (hbody : Balanced body)
    (rest : List Char) (fuel position : Nat) :
    segmentsFrom (fuel + 1) position (w ++ (opening ++ (body ++ '\x7d' :: rest))) =
      Expr.parse (String.ofList body) (position + Text.byteLength w + 2) >>= fun e =>
        segmentsFrom fuel (position + Text.byteLength w + 2 + Text.byteLength body + 1) rest >>= fun segments =>
          .ok (textSegment w ++ .placeholder e :: segments) := by
  rw [segmentsFrom, splitOpening_opening hfree]
  dsimp only
  rw [hbody.splitBody]

end Segments

/-- Every placeholder is closed, and what is in it is an expression. -/
def Readable (cs : List Char) : Prop :=
  ∀ fuel position, cs.length ≤ fuel → ∃ segments, segmentsFrom fuel position cs = .ok segments

theorem Readable.text {w : List Char} (hfree : ¬ opening <:+: w) : Readable w :=
  fun fuel position _ => ⟨_, segmentsFrom_text hfree fuel position⟩

theorem Readable.placeholder {w body cs : List Char} (hfree : ¬ opening <:+: w) (hbody : Balanced body)
    {base : Nat} {e : Expr} (he : Expr.parse (String.ofList body) base = .ok e) (h : Readable cs) :
    Readable (w ++ (opening ++ (body ++ '\x7d' :: cs))) := by
  intro fuel position hfuel
  cases fuel with
  | zero => simp [opening] at hfuel
  | succ fuel =>
    obtain ⟨segments, hrest⟩ := h fuel
      (position + Text.byteLength w + 2 + Text.byteLength body + 1) (by
        simp [opening] at hfuel
        omega)
    rw [segmentsFrom_placeholder hfree hbody, Expr.parse_displaced he]
    exact ⟨_, bind_eq_ok.2 ⟨e, rfl, bind_eq_ok.2 ⟨segments, hrest, rfl⟩⟩⟩

/-- What is wrong with the rest of a text in its usual spelling, behind what stands before it. -/
inductive Fault : List Char → List Char → ExprError → Prop
  | unclosed {before r : List Char} (hbefore : Readable before)
      (hopen : ∀ body rest, Balanced body → r ≠ body ++ '\x7d' :: rest) :
      Fault before (opening ++ r) (.unterminatedPlaceholder (Text.byteLength before))
  | body {before read left rest : List Char} {e : ExprError} (hbefore : Readable before)
      (hclosed : Balanced (read ++ left)) (h : Expr.Fault (Text.byteLength (before ++ opening)) read left e) :
      Fault (before ++ opening ++ read) (left ++ '\x7d' :: rest) e

theorem Fault.position {before behind : List Char} {e : ExprError} (h : Fault before behind e) :
    e.position? = some (Text.byteLength before) := by
  cases h with
  | unclosed => rfl
  | body _ _ h => rw [h.position, ← Text.byteLength_append]

/-- The first placeholder that is not read is not closed, or its body is refused. -/
theorem segmentsFrom_error {fuel position : Nat} {cs : List Char} (hfuel : cs.length ≤ fuel) {e : ExprError}
    (h : segmentsFrom fuel position cs = .error e) : ∃ before r, cs = before ++ (opening ++ r) ∧
      Readable before ∧ (splitBody 0 none [] r = none ∧
        e = .unterminatedPlaceholder (position + Text.byteLength before) ∨
      ∃ body rest, r = body ++ '\x7d' :: rest ∧ Balanced body ∧
        Expr.parse (String.ofList body) (position + Text.byteLength (before ++ opening)) = .error e) := by
  induction fuel generalizing position cs with
  | zero => cases h
  | succ fuel ih =>
    obtain hfree | ⟨w, r, rfl, hfree⟩ := opening_cases cs
    · rw [segmentsFrom_text hfree] at h
      cases h
    · cases hbody : splitBody 0 none [] r with
      | none =>
        rw [segmentsFrom_unclosed hfree hbody] at h
        cases h
        exact ⟨w, r, rfl, .text hfree, .inl ⟨hbody, rfl⟩⟩
      | some cut =>
        obtain ⟨body, rest⟩ := cut
        obtain ⟨hbalanced, rfl⟩ := splitBody_eq_some.1 hbody
        rw [segmentsFrom_placeholder hfree hbalanced] at h
        obtain he | ⟨tree, htree, h⟩ := bind_eq_error.1 h
        · refine ⟨w, _, rfl, .text hfree, .inr ⟨body, rest, rfl, hbalanced, ?_⟩⟩
          rw [Text.byteLength_append, ← Nat.add_assoc]
          exact he
        · obtain h | ⟨_, _, h⟩ := bind_eq_error.1 h
          · have hrest : rest.length ≤ fuel := by
              simp [opening] at hfuel
              omega
            obtain ⟨before, r, rfl, hbefore, hfault⟩ := ih hrest h
            have hposition : ∀ tail : List Char,
                position + Text.byteLength w + 2 + Text.byteLength body + 1 + Text.byteLength (before ++ tail) =
                  position + Text.byteLength (w ++ (opening ++ (body ++ '\x7d' :: before)) ++ tail) := by
              intro tail
              have hopening : Text.byteLength opening = 2 := rfl
              have hclosing : '\x7d'.utf8Size = 1 := rfl
              simp only [Text.byteLength_append, Text.byteLength_cons, hopening, hclosing]
              omega
            refine ⟨w ++ (opening ++ (body ++ '\x7d' :: before)), r, by simp,
              hbefore.placeholder hfree hbalanced htree, hfault.imp ?_ ?_⟩
            · rintro ⟨hopen, rfl⟩
              have hposition' := hposition []
              rw [List.append_nil, List.append_nil] at hposition'
              exact ⟨hopen, by rw [hposition']⟩
            · rintro ⟨body', rest', rfl, hbody', he⟩
              rw [hposition opening] at he
              exact ⟨body', rest', rfl, hbody', he⟩
          · cases h

theorem fault_of_error {cs : List Char} {e : ExprError} {p : Nat}
    (h : segmentsFrom cs.length 0 cs = .error e) (hp : e.position? = some p) :
    ∃ before behind, cs = before ++ behind ∧ Fault before behind e := by
  obtain ⟨before, r, rfl, hbefore, ⟨hopen, rfl⟩ | ⟨body, rest, rfl, hbody, he⟩⟩ := segmentsFrom_error le_rfl h
  · refine ⟨before, opening ++ r, rfl, ?_⟩
    rw [Nat.zero_add]
    refine .unclosed hbefore fun body rest hbody hr => ?_
    rw [splitBody_eq_some.2 ⟨hbody, hr⟩] at hopen
    cases hopen
  · rw [Nat.zero_add] at he
    obtain ⟨read, left, rfl, hfault⟩ := Expr.parse_fault he hp
    exact ⟨before ++ opening ++ read, left ++ '\x7d' :: rest, by simp, .body hbefore hbody hfault⟩

/-- What is wrong does not begin within an opening. -/
theorem Fault.cut {before behind : List Char} {e : ExprError} (h : Fault before behind e)
    (hlast : before.getLast? = some '$') : behind.head? ≠ some '\x7b' := by
  cases h with
  | unclosed => simp [opening]
  | @body before read left rest _ _ _ h =>
    rw [List.getLast?_append] at hlast
    cases hread : read.getLast? with
    | none =>
      rw [hread, List.getLast?_append] at hlast
      cases hlast
    | some c =>
      rw [hread] at hlast
      have hleft := h.cut (hread.trans hlast)
      cases left with
      | nil => simp
      | cons d left => exact hleft

end Template

open Template in
/-- Where a template is refused at an offset, the given text can be cut where the refused construct begins. The
offset is that of the cut in the usual spelling: two bytes less for each opening before the cut that has the
other spelling, and so the right one exactly when there is none. -/
theorem fault_position_exact_iff {s : String} {e : ExprError} {p : Nat} (h : Template.parse s = .error e)
    (hp : e.position? = some p) : ∃ before behind, s.toList = before ++ behind ∧
      spelled s.toList = spelled before ++ spelled behind ∧ Fault (spelled before) (spelled behind) e ∧
      Text.byteLength before = p + 2 * aliases before ∧
      (Text.byteLength before = p ↔ ¬ aliasOpening <:+: before) := by
  rw [Template.parse] at h
  split at h
  · cases h
    cases hp
  split at h
  · cases h
    cases hp
  have hsegments : segmentsFrom (spelled s.toList).length 0 (spelled s.toList) = .error e := by
    obtain hrun | ⟨_, _, hrun⟩ := bind_eq_error.1 h
    · rwa [toList_normalize, ← String.length_toList, toList_normalize] at hrun
    · cases hrun
  obtain ⟨l, r, hsplit, hfault⟩ := fault_of_error hsegments hp
  obtain ⟨before, behind, hcut, rfl, rfl⟩ := exists_cut hsplit hfault.cut
  have hposition := hfault.position
  rw [hp, Option.some.injEq] at hposition
  have hsaved := byteLength_spelled before
  rw [← hposition] at hsaved
  refine ⟨before, behind, hcut, hsplit, hfault, hsaved, ?_⟩
  rw [← aliases_eq_zero]
  omega

open Template in
/-- An operand is missing behind a name in two-byte characters and a placeholder with the other opening. -/
theorem fault_position_exact_iff_operand :
    Template.parse "\u00e9\u00e9_$->\x7b1\x7d$\x7bn + \x7d" = .error (.unexpected .operand "end of input" 15) ∧
      ∃ before behind, "\u00e9\u00e9_$->\x7b1\x7d$\x7bn + \x7d".toList = before ++ behind ∧
        spelled "\u00e9\u00e9_$->\x7b1\x7d$\x7bn + \x7d".toList = spelled before ++ spelled behind ∧
        Fault (spelled before) (spelled behind) (.unexpected .operand "end of input" 15) ∧
        Text.byteLength before = 15 + 2 * aliases before ∧
        (Text.byteLength before = 15 ↔ ¬ aliasOpening <:+: before) := by
  have hnames : (Template.parse "\u00e9\u00e9_$->\x7b1\x7d$\x7bn + \x7d").map Template.varNames =
      .error (.unexpected .operand "end of input" 15) := by decide +kernel
  have hparse := map_eq_error.1 hnames
  exact ⟨hparse, fault_position_exact_iff hparse rfl⟩

/-- The unclosed placeholder begins two bytes behind the named offset, where a brace stands. -/
theorem unclosed_placeholder_misplaced :
    Template.parse "$->\x7b1\x7d_$\x7b" = .error (.unterminatedPlaceholder 5) ∧
      Text.dropBytes "$->\x7b1\x7d_$\x7b".toList 5 = "\x7d_$\x7b".toList ∧
      Text.dropBytes "$->\x7b1\x7d_$\x7b".toList 7 = "$\x7b".toList :=
  ⟨map_eq_error.1 (by decide +kernel : (Template.parse "$->\x7b1\x7d_$\x7b").map Template.varNames = _),
    by decide, by decide⟩

end ShardedSql
