import ShardedSql.Proofs.QuoteReader

/-! What the conversion of identifier quotes leaves alone. It writes one character for each one it reads, and that
is another one only for a back quote in code; so nothing is dropped or doubled where the reader looks ahead, also
where the text ends in the middle of a literal, a comment or an escape. -/

namespace ShardedSql

namespace IdentifierQuotes

/-- The character at the place stands outside literals and comments. -/
def StandsInCode (cs : List Char) (i : Nat) : Prop := (Mode.code.after (cs.take i)).inCode = true

namespace Mode

variable {m : Mode} {cs : List Char}

theorem length_spelled (m : Mode) (cs : List Char) : (m.spelled cs).length = cs.length := by
  induction cs generalizing m with
  | nil => rfl
  | cons c cs ih => rw [spelled, List.length_cons, List.length_cons, ih]

/-- What is written at a place hangs on the character there and on those before. -/
theorem getElem?_spelled (m : Mode) (cs : List Char) (i : Nat) :
    (m.spelled cs)[i]? = cs[i]?.map (m.after (cs.take i)).written := by
  induction cs generalizing m i with
  | nil => rfl
  | cons c cs ih =>
    cases i with
    | zero => rfl
    | succ i => exact ih (m.next c) i

theorem refuses_iff (m : Mode) (cs : List Char) :
    m.refuses cs = true ↔ ∃ i, cs[i]? = some '\x22' ∧ (m.after (cs.take i)).inCode = true := by
  induction cs generalizing m with
  | nil => simp [refuses]
  | cons c cs ih =>
    rw [refuses, Bool.or_eq_true, Bool.and_eq_true, beq_iff_eq, ih]
    constructor
    · rintro (⟨hcode, rfl⟩ | ⟨i, hquote, hcode⟩)
      · exact ⟨0, rfl, hcode⟩
      · exact ⟨i + 1, hquote, hcode⟩
    · rintro ⟨_ | i, hquote, hcode⟩
      · exact .inl ⟨hcode, Option.some.inj hquote⟩
      · exact .inr ⟨i, hquote, hcode⟩

/-- Another character is written just for the back quotes in code. -/
theorem getElem?_spelled_ne_iff (i : Nat) :
    (m.spelled cs)[i]? ≠ cs[i]? ↔ cs[i]? = some '\x60' ∧ (m.after (cs.take i)).inCode = true := by
  rw [getElem?_spelled]
  cases cs[i]? with
  | none => simp
  | some c =>
    rw [Option.map_some, Ne, Option.some_inj, written]
    split
    · rename_i hquote
      obtain ⟨hcode, rfl⟩ := hquote
      simp [hcode]
    · rename_i hkept
      simp only [not_true, false_iff, Option.some_inj]
      exact fun h => hkept ⟨h.2, h.1⟩

end Mode

end IdentifierQuotes

open IdentifierQuotes

/-- What is converted has the characters of the statement, but for double quotes in place of back quotes. -/
structure Requoted (unit converted : BoundSql) : Prop where
  params : converted.params = unit.params
  length : converted.sql.length = unit.sql.length
  /-- Just the back quotes in code are replaced. -/
  differs : ∀ i : Nat, converted.sql.toList[i]? ≠ unit.sql.toList[i]? ↔
    unit.sql.toList[i]? = some '\x60' ∧ StandsInCode unit.sql.toList i
  replaced : ∀ i : Nat, converted.sql.toList[i]? ≠ unit.sql.toList[i]? →
    converted.sql.toList[i]? = some '\x22'

theorem requoted_spelled (unit : BoundSql) :
    Requoted unit ⟨String.ofList (Mode.code.spelled unit.sql.toList), unit.params⟩ := by
  have hdiffers : ∀ i : Nat, (Mode.code.spelled unit.sql.toList)[i]? ≠ unit.sql.toList[i]? ↔
      unit.sql.toList[i]? = some '\x60' ∧ StandsInCode unit.sql.toList i := Mode.getElem?_spelled_ne_iff
  refine ⟨rfl, ?_, ?_, ?_⟩
  · rw [String.length_ofList, Mode.length_spelled, String.length_toList]
  · intro i
    rw [String.toList_ofList]
    exact hdiffers i
  · intro i hne
    rw [String.toList_ofList] at hne ⊢
    obtain ⟨hquote, hcode⟩ := (hdiffers i).1 hne
    rw [Mode.getElem?_spelled, hquote, Option.map_some, Mode.written, if_pos ⟨hcode, rfl⟩]

/-- Without a back quote nothing is replaced. -/
theorem Requoted.eq_self {unit converted : BoundSql} (h : Requoted unit converted)
    (hfree : '\x60' ∉ unit.sql.toList) : converted = unit := by
  have hsql : converted.sql.toList = unit.sql.toList := by
    refine List.ext_getElem? fun i => ?_
    by_contra hne
    exact hfree (List.mem_of_getElem? ((h.differs i).1 hne).1)
  obtain ⟨sql, params⟩ := converted
  rw [String.toList_inj] at hsql
  obtain rfl := hsql
  obtain rfl := h.params
  rfl

/-- The conversion of identifier quotes for a dialect that quotes as ANSI does changes nothing but back quotes,
whatever the text, and gives up just where a double quote stands in code; for every other dialect it changes
nothing. -/
theorem conversion_changes_backQuotes (unit : BoundSql) (query : Query) (target : Dialect) :
    (target.ansiQuotes = true →
      (∀ converted, Converter.identifierQuotes unit query target = .ok converted →
        Requoted unit converted ∧ ('\x60' ∉ unit.sql.toList → converted = unit)) ∧
      ((∃ converted, Converter.identifierQuotes unit query target = .ok converted) ↔
        ∀ i : Nat, unit.sql.toList[i]? = some '\x22' → ¬ StandsInCode unit.sql.toList i)) ∧
    (target.ansiQuotes = false → Converter.identifierQuotes unit query target = .ok unit) := by
  constructor
  · intro hansi
    rw [Converter.identifierQuotes_eq hansi]
    constructor
    · intro converted h
      split at h
      · cases h
      · cases h
        exact ⟨requoted_spelled unit, (requoted_spelled unit).eq_self⟩
    · have hrefuses := Mode.refuses_iff .code unit.sql.toList
      constructor
      · rintro ⟨converted, h⟩ i hquote hcode
        rw [if_pos (hrefuses.2 ⟨i, hquote, hcode⟩)] at h
        cases h
      · intro hfree
        rw [if_neg]
        · exact ⟨_, rfl⟩
        · intro h
          obtain ⟨i, hquote, hcode⟩ := hrefuses.1 h
          exact hfree i hquote hcode
  · intro hnative
    rw [Converter.identifierQuotes, hnative]
    rfl

/-- A back quote in code, one in a comment, and a literal that ends behind an escape. -/
def danglingEscape : BoundSql := ⟨"SELECT \x60id\x60 /* \x60\u00e9 */ = '\x60\\", [.int 7]⟩

def danglingEscapeInAnsi : BoundSql := ⟨"SELECT \x22id\x22 /* \x60\u00e9 */ = '\x60\\", [.int 7]⟩

/-- A statement without a back quote. -/
def bareNames : BoundSql := ⟨"SELECT id -- don't \x22touch\x22", []⟩

def BoundSql.query (unit : BoundSql) : Query := ⟨unit.sql, .of .select [], unit.params, .none⟩

theorem conversion_changes_backQuotes_dangling :
    Dialect.postgreSql.ansiQuotes = true ∧
      Converter.identifierQuotes danglingEscape danglingEscape.query .postgreSql =
        .ok danglingEscapeInAnsi ∧
      Requoted danglingEscape danglingEscapeInAnsi ∧
      Converter.identifierQuotes bareNames bareNames.query .postgreSql = .ok bareNames ∧
      '\x60' ∉ bareNames.sql.toList ∧ Requoted bareNames bareNames ∧
      Dialect.mySql.ansiQuotes = false ∧
      Converter.identifierQuotes danglingEscape danglingEscape.query .mySql = .ok danglingEscape := by
  have hansi : Dialect.postgreSql.ansiQuotes = true := rfl
  have hnative : Dialect.mySql.ansiQuotes = false := rfl
  have hdangling : Converter.identifierQuotes danglingEscape danglingEscape.query .postgreSql =
      .ok danglingEscapeInAnsi := by decide +kernel
  have hbare : Converter.identifierQuotes bareNames bareNames.query .postgreSql = .ok bareNames := by
    decide +kernel
  exact ⟨hansi, hdangling,
    (((conversion_changes_backQuotes _ _ _).1 hansi).1 _ hdangling).1, hbare, by decide +kernel,
    (((conversion_changes_backQuotes _ _ _).1 hansi).1 _ hbare).1, hnative,
    (conversion_changes_backQuotes _ _ _).2 hnative⟩

end ShardedSql
