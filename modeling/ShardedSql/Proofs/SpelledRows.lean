import ShardedSql.Sql.Token
import Mathlib.Tactic

/-! Spelling out inserted rows. A unit's statement does not change when every list of inserted rows is
replaced by a fixed text, the one of the rows that belong to the unit. -/

namespace ShardedSql.SqlToken

mutual

/-- The token with fixed row texts in place of inserted rows. -/
def spell (texts : List String) : SqlToken → SqlToken
  | .insertRows span _ => .substitute span (", ".intercalate texts)
  | .composable span tokens => .composable span (spellAll texts tokens)
  | t => t

def spellAll (texts : List String) : List SqlToken → List SqlToken
  | [] => []
  | t :: ts => spell texts t :: spellAll texts ts

end

mutual

/-- Where the token inserts rows, it inserts these. -/
def Inserts (rows : List InsertRow) : SqlToken → Prop
  | .insertRows _ rows' => rows' = rows
  | .composable _ tokens => InsertsAll rows tokens
  | _ => True

def InsertsAll (rows : List InsertRow) : List SqlToken → Prop
  | [] => True
  | t :: ts => Inserts rows t ∧ InsertsAll rows ts

end

variable {texts : List String} {rows : List InsertRow}

@[simp] theorem span?_spell (t : SqlToken) : (spell texts t).span? = t.span? := by
  cases t <;> simp [spell, span?]

@[simp] theorem start_spell (t : SqlToken) : (spell texts t).start = t.start := by
  cases t <;> simp [spell, start]

@[simp] theorem finish_spell (t : SqlToken) : (spell texts t).finish = t.finish := by
  simp [finish]

@[simp] theorem resume_spell (t : SqlToken) (length : Nat) :
    (spell texts t).resume length = t.resume length := by
  simp [resume]

theorem insertByStart_spell (t : SqlToken) (ts : List SqlToken) :
    insertByStart (spell texts t) (spellAll texts ts) = spellAll texts (insertByStart t ts) := by
  induction ts with
  | nil => simp [spellAll, insertByStart]
  | cons u us ih =>
    rw [spellAll, insertByStart, insertByStart, start_spell, start_spell]
    split
    · simp [spellAll]
    · rw [ih, spellAll]

mutual

theorem ordered_spell (t : SqlToken) : ordered (spell texts t) = spell texts (ordered t) := by
  cases t with
  | composable span tokens => rw [spell, ordered, ordered, spell, orderedAll_spellAll tokens]
  | _ => simp [spell, ordered]

theorem orderedAll_spellAll (ts : List SqlToken) :
    orderedAll (spellAll texts ts) = spellAll texts (orderedAll ts) := by
  cases ts with
  | nil => rw [spellAll, orderedAll, spellAll]
  | cons t ts =>
    rw [spellAll, orderedAll, orderedAll, ordered_spell t, orderedAll_spellAll ts,
      insertByStart_spell]

end

theorem insertsAll_insertByStart {t : SqlToken} {ts : List SqlToken} (ht : Inserts rows t)
    (hts : InsertsAll rows ts) : InsertsAll rows (insertByStart t ts) := by
  induction ts with
  | nil => simpa [insertByStart, InsertsAll] using ht
  | cons u us ih =>
    rw [InsertsAll] at hts
    rw [insertByStart]
    split
    · rw [InsertsAll, InsertsAll]
      exact ⟨ht, hts⟩
    · rw [InsertsAll]
      exact ⟨hts.1, ih hts.2⟩

mutual

theorem inserts_ordered {t : SqlToken} (h : Inserts rows t) : Inserts rows (ordered t) := by
  cases t with
  | composable span tokens =>
    rw [Inserts] at h
    rw [ordered, Inserts]
    exact insertsAll_orderedAll h
  | _ => simpa [ordered] using h

theorem insertsAll_orderedAll {ts : List SqlToken} (h : InsertsAll rows ts) :
    InsertsAll rows (orderedAll ts) := by
  cases ts with
  | nil => simpa [orderedAll] using h
  | cons t ts =>
    rw [InsertsAll] at h
    rw [orderedAll]
    exact insertsAll_insertByStart (inserts_ordered h.1) (insertsAll_orderedAll h.2)

end

theorem validate_spellAll (cs : List Char) (length previous : Nat) (ts : List SqlToken) :
    validate cs length previous (spellAll texts ts) = validate cs length previous ts := by
  induction ts generalizing previous with
  | nil => rw [spellAll]
  | cons t ts ih => simp [spellAll, validate, fits, ih]

section Render

variable {cs : List Char} {length : Nat} {unit : Option RouteUnit}

mutual

theorem render_spell {t : SqlToken} (h : Inserts rows t) :
    render cs length unit (spell ((rows.filter (·.belongs unit)).map (·.text)) t) =
      render cs length unit t := by
  cases t with
  | insertRows span rows' =>
    rw [Inserts] at h
    rw [spell, render, render, h]
  | composable span tokens =>
    rw [Inserts] at h
    rw [spell, render, render, validate_spellAll, renderWithin_spellAll h]
  | _ => simp [spell]

theorem renderWithin_spellAll {ts : List SqlToken} {cursor stop : Nat} (h : InsertsAll rows ts) :
    renderWithin cs length unit cursor stop
        (spellAll ((rows.filter (·.belongs unit)).map (·.text)) ts) =
      renderWithin cs length unit cursor stop ts := by
  cases ts with
  | nil => rw [spellAll]
  | cons t ts =>
    rw [InsertsAll] at h
    rw [spellAll, renderWithin, renderWithin, start_spell, resume_spell, render_spell h.1,
      renderWithin_spellAll h.2]

end

end Render

theorem buildSql_spellAll (sql : String) {tokens : List SqlToken} (unit : Option RouteUnit)
    (h : InsertsAll rows tokens) :
    buildSql sql (spellAll ((rows.filter (·.belongs unit)).map (·.text)) tokens) unit =
      buildSql sql tokens unit := by
  unfold buildSql
  simp only [orderedAll_spellAll, validate_spellAll,
    renderWithin_spellAll (insertsAll_orderedAll h)]

end ShardedSql.SqlToken
