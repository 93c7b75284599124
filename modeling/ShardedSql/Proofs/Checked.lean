import ShardedSql.Proofs.Splicing

/-! Rebuilding a statement with slices that are only taken between character boundaries of the text,
and with a cursor of its own for the top level, which copies from the end of each token to the start of
the next one. It never stops at a slice, and rebuilds the same statement. -/

namespace ShardedSql

open Text (IsBoundary byteLength)

/-- A slice, if it lies in the text and cuts no character. -/
def Text.slice? (cs : List Char) (start finish : Nat) : Option (List Char) :=
  if start ≤ finish && finish ≤ byteLength cs && isBoundary cs start && isBoundary cs finish then
    some (slice cs start finish)
  else none

/-- A computation that may refuse the statement, and stops at a slice it cannot take. -/
abbrev Checked (α : Type) := ExceptT RenderError Option α

namespace Checked

def of {α : Type} (r : Except RenderError α) : Checked α := ExceptT.mk (some r)

def slice (cs : List Char) (start finish : Nat) : Checked (List Char) :=
  ExceptT.mk ((Text.slice? cs start finish).map .ok)

/-- Copies the text up to an offset, if there is any. -/
def copy (cs : List Char) (cursor next : Nat) : Checked (List Char) :=
  if cursor < next then slice cs cursor next else pure []

mutual

def render (cs : List Char) (unit : Option RouteUnit) : SqlToken → Checked (List Char)
  | .composable span tokens => do
    of (SqlToken.validate cs (byteLength cs) 0 tokens)
    renderWithin cs unit span.start (min (span.stop + 1) (byteLength cs)) tokens
  | t => of (t.render cs (byteLength cs) unit)

/-- The cursor within a token. -/
def renderWithin (cs : List Char) (unit : Option RouteUnit) (cursor stop : Nat) :
    List SqlToken → Checked (List Char)
  | [] => copy cs cursor stop
  | t :: ts =>
    if t.start < cursor || t.start > stop || t.resume (byteLength cs) > stop then
      of (.error (.overlappingTokens t.start))
    else do
      let gap ← slice cs cursor t.start
      let text ← render cs unit t
      let rest ← renderWithin cs unit (t.resume (byteLength cs)) stop ts
      pure (gap ++ text ++ rest)

end

/-- The cursor of the top level. -/
def renderFrom (cs : List Char) (unit : Option RouteUnit) : List SqlToken → Checked (List Char)
  | [] => pure []
  | t :: ts => do
    let text ← render cs unit t
    let next := (ts.head?.map (·.start)).getD (byteLength cs)
    let gap ← copy cs (t.resume (byteLength cs)) next
    let rest ← renderFrom cs unit ts
    pure (text ++ gap ++ rest)

/-- The statement around tokens in order. -/
def build (cs : List Char) (unit : Option RouteUnit) : List SqlToken → Checked (List Char)
  | [] => pure cs
  | t :: ts => do
    of (SqlToken.validate cs (byteLength cs) 0 (t :: ts))
    let head ← slice cs 0 t.start
    let rest ← renderFrom cs unit (t :: ts)
    pure (head ++ rest)

section

variable {α β : Type} {cs : List Char} {unit : Option RouteUnit}

theorem of_bind_of (r : Except RenderError α) (f : α → Except RenderError β) :
    (of r >>= fun a => of (f a)) = of (r >>= f) := by
  cases r <;> rfl

theorem of_ok_bind (a : α) (f : α → Checked β) : (of (.ok a) >>= f) = f a := rfl

theorem pure_eq_of (a : α) : (pure a : Checked α) = of (.ok a) := rfl

theorem slice_eq_of {a b : Nat} (ha : IsBoundary cs a) (hb : IsBoundary cs b) (hab : a ≤ b) :
    slice cs a b = of (.ok (Text.slice cs a b)) := by
  rw [slice, Text.slice?, decide_eq_true hab, decide_eq_true hb.le, Text.isBoundary_iff.2 ha,
    Text.isBoundary_iff.2 hb]
  rfl

theorem copy_eq_of {a b : Nat} (ha : IsBoundary cs a) (hb : IsBoundary cs b) (hab : a ≤ b) :
    copy cs a b = of (.ok (Text.slice cs a b)) := by
  unfold copy
  split
  · exact slice_eq_of ha hb hab
  · rename_i hlt
    have heq : a = b := by omega
    rw [heq, Text.slice_self, pure_eq_of]

mutual

theorem render_eq_of {t : SqlToken} (ht : t.InText cs) :
    render cs unit t = of (t.render cs (byteLength cs) unit) := by
  cases t with
  | composable span tokens =>
    rw [render, SqlToken.render]
    cases hvalid : SqlToken.validate cs (byteLength cs) 0 tokens with
    | error e => rfl
    | ok _ =>
      obtain ⟨hin, -, -⟩ := SqlToken.validate_eq_ok.1 hvalid
      have hstop : min (span.stop + 1) (byteLength cs) = span.stop + 1 := ht.resume_eq
      rw [of_ok_bind, hstop]
      exact renderWithin_eq_of hin ht.starts ht.finishes ht.start_le_finish
  | _ => rw [render]; simp

theorem renderWithin_eq_of {ts : List SqlToken} {cursor stop : Nat} (hts : ∀ t ∈ ts, t.InText cs)
    (hcursor : IsBoundary cs cursor) (hstop : IsBoundary cs stop) (hle : cursor ≤ stop) :
    renderWithin cs unit cursor stop ts =
      of (SqlToken.renderWithin cs (byteLength cs) unit cursor stop ts) := by
  cases ts with
  | nil =>
    rw [renderWithin, SqlToken.renderWithin]
    exact copy_eq_of hcursor hstop hle
  | cons t ts =>
    obtain ⟨ht, hts⟩ := List.forall_mem_cons.1 hts
    rw [renderWithin, SqlToken.renderWithin]
    split
    · rfl
    · rename_i hcheck
      simp only [Bool.or_eq_true, decide_eq_true_eq, not_or, ht.resume_eq] at hcheck
      rw [slice_eq_of hcursor ht.starts (by omega), of_ok_bind, render_eq_of ht, ht.resume_eq,
        renderWithin_eq_of hts ht.finishes hstop (by omega)]
      simp only [pure_eq_of, of_bind_of]

end

/-- The top-level cursor copies what the cursor within the whole text copies. -/
theorem renderFrom_eq_of {t : SqlToken} {ts : List SqlToken} (hts : ∀ u ∈ t :: ts, u.InText cs)
    (hchain : (t :: ts).IsChain SqlToken.Follows) :
    renderFrom cs unit (t :: ts) = of (do
      let text ← t.render cs (byteLength cs) unit
      let rest ← SqlToken.renderWithin cs (byteLength cs) unit t.finish (byteLength cs) ts
      .ok (text ++ rest)) := by
  induction ts generalizing t with
  | nil =>
    have ht := hts t List.mem_cons_self
    rw [renderFrom, ht.resume_eq, render_eq_of ht]
    simp only [List.head?_nil, Option.map_none, Option.getD_none, renderFrom, pure_eq_of]
    rw [copy_eq_of ht.finishes (Text.isBoundary_length cs) ht.finish_le]
    simp only [of_bind_of, SqlToken.renderWithin]
    cases t.render cs (byteLength cs) unit with
    | error e => rfl
    | ok text => exact congrArg (fun out => of (.ok out)) (List.append_nil _)
  | cons u us ih =>
    have ht := hts t List.mem_cons_self
    obtain ⟨-, hus⟩ := List.forall_mem_cons.1 hts
    have hu := hus u List.mem_cons_self
    obtain ⟨hfollows, hchain⟩ := List.isChain_cons_cons.1 hchain
    rw [renderFrom, ht.resume_eq, render_eq_of ht, ih hus hchain,
      SqlToken.renderWithin_cons hu, if_pos ⟨hfollows, hu.finish_le⟩]
    simp only [List.head?_cons, Option.map_some, Option.getD_some, pure_eq_of]
    rw [copy_eq_of ht.finishes hu.starts hfollows]
    simp only [of_bind_of]
    cases t.render cs (byteLength cs) unit with
    | error e => rfl
    | ok text =>
      cases u.render cs (byteLength cs) unit with
      | error e => rfl
      | ok text' =>
        cases SqlToken.renderWithin cs (byteLength cs) unit u.finish (byteLength cs) us with
        | error e => rfl
        | ok rest =>
          refine congrArg (fun out => of (.ok out)) ?_
          simp only [List.append_assoc]

/-- The statement is rebuilt without stopping at a slice. -/
theorem build_eq_of {tokens : List SqlToken} : build cs unit tokens = of (do
    SqlToken.validate cs (byteLength cs) 0 tokens
    SqlToken.renderWithin cs (byteLength cs) unit 0 (byteLength cs) tokens) := by
  cases tokens with
  | nil =>
    rw [SqlToken.renderWithin, Text.slice_all]
    rfl
  | cons t ts =>
    rw [build]
    cases hvalid : SqlToken.validate cs (byteLength cs) 0 (t :: ts) with
    | error e => rfl
    | ok _ =>
      obtain ⟨hin, -, hchain⟩ := SqlToken.validate_eq_ok.1 hvalid
      have ht := hin t List.mem_cons_self
      rw [of_ok_bind, slice_eq_of (Text.isBoundary_zero cs) ht.starts (Nat.zero_le _), of_ok_bind,
        renderFrom_eq_of hin hchain, SqlToken.renderWithin_cons ht,
        if_pos ⟨Nat.zero_le _, ht.finish_le⟩]
      simp only [pure_eq_of, of_bind_of]
      cases t.render cs (byteLength cs) unit with
      | error e => rfl
      | ok text =>
        cases SqlToken.renderWithin cs (byteLength cs) unit t.finish (byteLength cs) ts with
        | error e => rfl
        | ok rest =>
          refine congrArg (fun out => of (.ok out)) ?_
          simp only [List.append_assoc]

end

end Checked

/-- The statement for one unit; nothing where a slice cannot be taken. -/
def buildSql? (sql : String) (tokens : List SqlToken) (unit : Option RouteUnit) :
    Option (Except RenderError String) :=
  (Checked.build sql.toList unit (SqlToken.orderedAll tokens) >>= fun out =>
    Checked.of (.ok (String.ofList out))).run

theorem buildSql_eq_ok {sql out : String} {tokens : List SqlToken} {unit : Option RouteUnit} :
    buildSql sql tokens unit = .ok out ↔
      SqlToken.validate sql.toList (byteLength sql.toList) 0 (SqlToken.orderedAll tokens) = .ok () ∧
      SqlToken.renderWithin sql.toList (byteLength sql.toList) unit 0 (byteLength sql.toList)
        (SqlToken.orderedAll tokens) = .ok out.toList := by
  unfold buildSql
  constructor
  · intro h
    obtain ⟨_, hvalid, h⟩ := bind_eq_ok.1 h
    obtain ⟨cs, hcs, h⟩ := bind_eq_ok.1 h
    cases h
    rw [String.toList_ofList]
    exact ⟨hvalid, hcs⟩
  · rintro ⟨hvalid, hout⟩
    refine bind_eq_ok.2 ⟨(), hvalid, bind_eq_ok.2 ⟨_, hout, ?_⟩⟩
    rw [String.ofList_toList]

/-- Rebuilding a statement around tokens that are stably sorted by their starts at every level. It is
refused, for where its tokens stand, unless they are well placed; then every token stands for what it
covers, and the text in between stays. No slice leaves the text or cuts a character. -/
structure Rebuilds (sql : String) (tokens : List SqlToken) (unit : Option RouteUnit) : Prop where
  sorted : ∀ ts, SqlToken.orderedAll ts =
    (ts.map SqlToken.ordered).mergeSort fun t u => t.start ≤ u.start
  accepts : (∃ out, buildSql sql tokens unit = .ok out) ↔
    SqlToken.WellPlaced sql.toList (SqlToken.orderedAll tokens)
  splices : ∀ out, buildSql sql tokens unit = .ok out →
    SqlToken.Splices unit 0 (SqlToken.orderedAll tokens) sql.toList out.toList
  refuses : ∀ e, buildSql sql tokens unit = .error e → e.IsMisplaced
  slices : buildSql? sql tokens unit = some (buildSql sql tokens unit)

theorem buildSql_rebuilds (sql : String) (tokens : List SqlToken) (unit : Option RouteUnit) :
    Rebuilds sql tokens unit := by
  have hsound : ∀ out, buildSql sql tokens unit = .ok out →
      SqlToken.WellPlaced sql.toList (SqlToken.orderedAll tokens) ∧
        SqlToken.Splices unit 0 (SqlToken.orderedAll tokens) sql.toList out.toList := by
    intro out h
    obtain ⟨hvalid, hout⟩ := buildSql_eq_ok.1 h
    obtain ⟨hin, -, hchain⟩ := SqlToken.validate_eq_ok.1 hvalid
    obtain ⟨hall, -, hsplices⟩ := SqlToken.renderWithin_sound hin (Text.isBoundary_zero _)
      (Text.isBoundary_length _) hout
    rw [Text.slice_all] at hsplices
    exact ⟨⟨hchain, hall⟩, hsplices⟩
  constructor
  · exact SqlToken.orderedAll_eq_mergeSort
  · constructor
    · rintro ⟨out, h⟩
      exact (hsound out h).1
    · rintro ⟨hchain, hall⟩
      obtain ⟨out, hout⟩ := SqlToken.renderWithin_complete hall (fun _ _ => Nat.zero_le _) hchain
        fun t ht => (hall.inText t ht).finish_le
      refine ⟨String.ofList out, buildSql_eq_ok.2 ⟨?_, ?_⟩⟩
      · exact SqlToken.validate_eq_ok.2 ⟨hall.inText, fun _ _ => Nat.zero_le _, hchain⟩
      · rw [hout, String.toList_ofList]
  · intro out h
    exact (hsound out h).2
  · intro e h
    unfold buildSql at h
    rcases bind_eq_error.1 h with h | ⟨_, -, h⟩
    · exact SqlToken.validate_error h
    · rcases bind_eq_error.1 h with h | ⟨_, -, h⟩
      · exact SqlToken.renderWithin_error h
      · cases h
  · rw [buildSql?, Checked.build_eq_of, Checked.of_bind_of, bind_assoc]
    rfl

end ShardedSql
